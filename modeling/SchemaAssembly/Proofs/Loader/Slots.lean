import SchemaAssembly.Proofs.Loader.Clients

/-!
The slots of a loader against its queue. Whatever is done with a loader, its slots are the positions
of the queued keys, so no load reads a position outside the queue or that of another key.
-/

set_option autoImplicit false

namespace SchemaAssembly

inductive LoaderUse where
  | call (a : LoaderCall)
  | prime (key value : Json)

namespace Client

def use (c : Client) (u : String × LoaderUse) : Client :=
  match u.2 with
  | .call a => c.perform u.1 a
  | .prime key value => { c with session := c.session.modify u.1 fun l => l.prime key value }

def useAll (c : Client) (uses : List (String × LoaderUse)) : Client := uses.foldl use c

variable {name : String} {batch : BatchLoader} {c : Client} {l : Loader}

theorem leads_perform (h : c.session.Runs name batch l) (hl : l.WellFormed) (n : String)
    (a : LoaderCall) :
    ∃ t, Session.Leads (fun _ _ => True) name batch c.session l (c.perform n a).session t := by
  have hcall : Session.Sound (fun _ _ => True) name batch c.session.call :=
    Session.sound_callWithin_of (fun _ _ _ _ _ _ => trivial) _
  cases a with
  | load key => exact Session.leads_load n key h
  | loadMany keys => exact Session.leads_loadMany n keys h
  | dispatch => exact Session.leads_dispatchBy hcall n h hl
  | clear => exact Session.leads_modify (a := .clear) h fun _ => trivial
  | clearKey key => exact Session.leads_modify (a := .clearKey key) h fun _ => trivial
  | await number =>
    simp only [perform]
    cases c.loads[number]? with
    | none => exact ⟨l, .refl h⟩
    | some w => exact Session.leads_advanceBy hcall w h hl

/-- A use of any loader of a session is some steps of each one. -/
theorem runs_use (h : c.session.Runs name batch l) (hl : l.WellFormed) (u : String × LoaderUse) :
    ∃ steps, (c.use u).session.Runs name batch (l.run steps) := by
  obtain ⟨n, a | ⟨key, value⟩⟩ := u
  · obtain ⟨t, ht⟩ := leads_perform h hl n a
    obtain ⟨steps, rfl⟩ := ht.reach.exists_run
    exact ⟨steps, ht.runs⟩
  · simp only [use, Session.modify]
    cases hn : c.session.loader? n with
    | none => exact ⟨[], h⟩
    | some l' =>
      have hstep := h.update_step hn (.prime key value)
      split at hstep
      · exact ⟨[.prime key value], hstep⟩
      · exact ⟨[], hstep⟩

theorem runs_useAll (h : c.session.Runs name batch l) (hl : l.WellFormed)
    (uses : List (String × LoaderUse)) :
    ∃ steps, (c.useAll uses).session.Runs name batch (l.run steps) := by
  induction uses generalizing c l with
  | nil => exact ⟨[], h⟩
  | cons u rest ih =>
    obtain ⟨first, hfirst⟩ := runs_use h hl u
    obtain ⟨more, hmore⟩ := ih hfirst (hl.run first)
    exact ⟨first ++ more, by rwa [Loader.run_append]⟩

end Client

namespace Loader

/-- The queue and the slots are in step. -/
structure Indexed (l : Loader) : Prop where
  /-- The slots are exactly the queued keys, each one with the position of its entry. -/
  slots : l.options.caching = true → ∀ (text : String) (i : Nat),
    l.slots.get? text = some i ↔ ∃ e, l.queue[i]? = some e ∧ e.key.text = text
  distinct : l.options.caching = true → (l.queue.map fun e => e.key.text).Nodup
  uncached : l.options.caching = false → l.slots = []
  unbatched : l.options.batching = false → l.queue = []
  waited : ∀ e ∈ l.queue, e.waiters ≠ []
  /-- The position that a load of the key reads is in the queue, and the entry there is its own. -/
  read : ∀ key i, l.slot? key = some i → ∃ h : i < l.queue.length, l.queue[i].key = key

theorem WellFormed.slots_get?_iff {l : Loader} (h : l.WellFormed)
    (hc : l.options.caching = true) (text : String) (i : Nat) :
    l.slots.get? text = some i ↔ ∃ e, l.queue[i]? = some e ∧ e.key.text = text := by
  have hslots : l.slots = positions 0 (textsOf l.queue) := by rw [h.slots, if_pos hc]
  have hget : (textsOf l.queue)[i]? = some text ↔ ∃ e, l.queue[i]? = some e ∧ e.key.text = text := by
    rw [textsOf, List.getElem?_map, Option.map_eq_some_iff]
  rw [hslots, ← hget]
  constructor
  · exact fun hs => (get?_positions_some hs).2
  · intro hi
    rw [get?_positions_of_getElem? 0 (h.distinct hc) hi, Nat.zero_add]

theorem WellFormed.indexed {l : Loader} (h : l.WellFormed) : l.Indexed where
  slots hc text i := h.slots_get?_iff hc text i
  distinct := h.distinct
  uncached hc := by rw [h.slots, if_neg (by simp [hc])]
  unbatched hb := (h.unbatched hb).1
  waited := h.waited
  read key i hs := by
    obtain ⟨e, he, htext⟩ := h.slot_some hs
    obtain ⟨hi, rfl⟩ := List.getElem?_eq_some_iff.mp he
    exact ⟨hi, Json.text_injective htext⟩

/-- Queue and slots are in step after any steps, in whatever order dispatches start and end. In a
session every use of a loader is some of these steps, whatever the batch functions do with the
loaders of the session on the way. -/
theorem queue_indexed (name : String) (options : LoaderOptions) (created : Nat) :
    (∀ steps : List LoaderStep, ((fresh name options created).run steps).Indexed) ∧
      ∀ (s : Session) (batch : BatchLoader), s.Runs name batch (fresh name options created) →
        ∀ uses : List (String × LoaderUse), ∃ steps,
          (Client.useAll { session := s } uses).session.Runs name batch
            ((fresh name options created).run steps) := by
  have hfresh := wellFormed_fresh name options created
  refine ⟨fun steps => (hfresh.run steps).indexed, ?_⟩
  intro s batch hs uses
  exact Client.runs_useAll hs hfresh uses

theorem queue_indexed_during_dispatch :
    let batch : BatchLoader :=
      { load := fun _ keys => .load "ids" (.int 9) fun _ => .done (.ok keys) }
    let s := Session.ofLoader "ids" batch { maxBatchSize := some 1 } .stopped .empty
    let uses : List (String × LoaderUse) :=
      [("ids", .call (.loadMany [.int 1, .str "1", .int 1])), ("ids", .prime (.int 1) .null),
        ("ids", .call .dispatch), ("ids", .call .clear), ("ids", .call (.load (.int 1)))]
    s.Runs "ids" batch (fresh "ids" { maxBatchSize := some 1 }) ∧
      ∃ l, (Client.useAll { session := s } uses).session.Runs "ids" batch l ∧
        l.slots = [("9", 0), ("1", 1)] ∧ l.Indexed := by
  intro batch s uses
  have hs : s.Runs "ids" batch (fresh "ids" { maxBatchSize := some 1 }) := ⟨_, rfl, rfl, rfl⟩
  obtain ⟨hindexed, hsession⟩ := queue_indexed "ids" { maxBatchSize := some 1 } 0
  obtain ⟨steps, hsteps⟩ := hsession s batch hs uses
  refine ⟨hs, _, hsteps, ?_, hindexed steps⟩
  have hslots : ((Client.useAll { session := s } uses).session.loader? "ids").map (·.slots) =
      some [("9", 0), ("1", 1)] := by decide +kernel
  simpa [hsteps.loader?] using hslots

end Loader

end SchemaAssembly
