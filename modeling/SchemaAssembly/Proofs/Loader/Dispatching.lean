import SchemaAssembly.Proofs.Loader.Chunks
import SchemaAssembly.Proofs.Loader.Sessions

/-!
What one dispatch does. Its chunks cut the queue, each chunk settles its own waiters and fills its
own part of the cache or fails as a whole, and the order in which the chunks end makes no
difference.
-/

set_option autoImplicit false

namespace SchemaAssembly

namespace Loader

variable {l : Loader} {answers : Nat → Except HandlerError (List Json)} {order : List Chunk}

/-- How a dispatch in the state `l` leaves the loader, where the chunk of each number gets the
answer given for it. -/
structure Dispatched (l : Loader) (answers : Nat → Except HandlerError (List Json))
    (t : Loader) : Prop where
  parts : CutsInto l.options.maxBatchSize l.queue (l.nextChunks.map (·.entries))
  /-- A waiter gets the value at the position of its key, or the one error of its chunk. -/
  delivered : ∀ c ∈ l.nextChunks, ∀ (i : Nat) (e : QueueEntry), c.entries[i]? = some e →
    ∀ w ∈ e.waiters, ∃ r, KeyResult l.name c.entries.length i (answers c.id) r ∧
      t.result? w = some r
  others : ∀ w, w ∉ l.queuedWaiters → t.result? w = l.result? w
  counted : t.statistics = { l.statistics with
    batches := l.statistics.batches + l.nextChunks.length
    batchLoads := l.statistics.batchLoads + l.queue.length
    errors := l.statistics.errors + failures answers l.nextChunks }
  cached : l.options.caching = true → ∀ c ∈ l.nextChunks, ∀ values,
    valuesFor? c.entries.length (answers c.id) = some values → ∀ (i : Nat) (e : QueueEntry) v,
      c.entries[i]? = some e → values[i]? = some v → t.cache.get? e.key.text = some v
  /-- Nothing else is entered into the cache, so a chunk that fails changes none of it. -/
  kept : ∀ text, (l.options.caching = true → ∀ c ∈ l.nextChunks,
    (valuesFor? c.entries.length (answers c.id)).isSome → text ∉ textsOf c.entries) →
      t.cache.get? text = l.cache.get? text
  queue : t.queue = []
  slots : t.slots = []
  inFlight : t.inFlight = l.inFlight

theorem nodup_id_nextChunks (l : Loader) : (l.nextChunks.map (·.id)).Nodup := by
  rw [nextChunks, map_id_numberChunks]
  exact List.nodup_range'

theorem WellFormed.run_start_chunkEnds (h : l.WellFormed) (horder : order.Perm l.nextChunks)
    (now : Nat) :
    l.run (.start now :: chunkEnds answers order) =
      (l.step (.start now)).afterEnds answers order := by
  have hin : (l.step (.start now)).inFlight = l.inFlight ++ l.nextChunks := by
    simp only [Loader.step, startDispatch_eq]
  refine run_chunkEnds (h.step (.start now)).chunkIds ?_
    ((horder.map _).nodup_iff.mpr l.nodup_id_nextChunks)
  rw [hin]
  exact List.subset_append_of_subset_right _ horder.subset

theorem perm_flatMap_entries (horder : order.Perm l.nextChunks) :
    (order.flatMap (·.entries)).Perm l.queue := by
  rw [← l.flatMap_entries_nextChunks]
  exact horder.flatMap_right _

theorem WellFormed.nodup_textsOf (h : l.WellFormed) (hc : l.options.caching = true)
    (horder : order.Perm l.nextChunks) : (textsOf (order.flatMap (·.entries))).Nodup :=
  ((perm_flatMap_entries horder).map _).nodup_iff.mpr (h.distinct hc)

theorem WellFormed.filter_inFlight (h : l.WellFormed) (horder : order.Perm l.nextChunks) :
    ((l.inFlight ++ l.nextChunks).filter fun c => c.id ∉ order.map (·.id)) = l.inFlight := by
  have hmem : ∀ c : Chunk, c.id ∈ order.map (·.id) ↔ c.id ∈ l.nextChunks.map (·.id) :=
    fun c => (horder.map _).mem_iff
  rw [List.filter_append, List.filter_eq_self.mpr, List.filter_eq_nil_iff.mpr, List.append_nil]
  · intro c hc
    simpa [hmem] using List.mem_map_of_mem (f := Chunk.id) hc
  · intro c hc
    have hlt := h.chunkCount c hc
    simp only [hmem, decide_eq_true_eq]
    intro hid
    obtain ⟨d, hd, heq⟩ := List.mem_map.mp hid
    have hle := (id_nextChunks hd).1
    omega

theorem find?_settlements_of_notMem {w : Nat} {chunks : List Chunk}
    {results : Chunk → List (Except LoaderError Json)}
    (hw : w ∉ waitersOf (chunks.flatMap (·.entries))) :
    ((chunks.flatMap fun c => settlements c.entries (results c)).find? fun s => s.1 == w) =
      none := by
  rw [List.find?_eq_none]
  rintro ⟨v, r⟩ hmem hv
  obtain rfl : v = w := by simpa using hv
  obtain ⟨c, hc, hmem⟩ := List.mem_flatMap.mp hmem
  obtain ⟨i, e, he, -, hwe⟩ := mem_settlements.mp hmem
  exact hw (List.mem_flatMap.mpr
    ⟨e, List.mem_flatMap.mpr ⟨c, hc, List.mem_of_getElem? he⟩, hwe⟩)

/-- However the batch function answers, and in whatever order its calls end. -/
theorem WellFormed.dispatched (h : l.WellFormed) (horder : order.Perm l.nextChunks) (now : Nat) :
    Dispatched l answers (l.run (.start now :: chunkEnds answers order)) := by
  have hwf := h.run (.start now :: chunkEnds answers order)
  have hentries := perm_flatMap_entries horder
  rw [h.run_start_chunkEnds horder now] at hwf ⊢
  simp only [Loader.step, startDispatch_eq] at hwf ⊢
  exact {
    parts := by
      rw [nextChunks, map_entries_numberChunks]
      exact cutsInto_pieces l.options.maxBatchSize_ne_zero _
    delivered := by
      intro c hc i e he w hw
      have hlt : i < (l.outcomes c.entries.length (answers c.id)).length := by
        rw [length_outcomes]
        exact (List.getElem?_eq_some_iff.mp he).1
      have hr := List.getElem?_eq_getElem hlt
      refine ⟨_, keyResult_of_outcomes hr, hwf.result?_of_mem ?_⟩
      refine List.mem_append_right _ (List.mem_flatMap.mpr ⟨c, horder.mem_iff.mpr hc, ?_⟩)
      exact mem_settlements.mpr ⟨i, e, he, hr, hw⟩
    -- The chunks cut the queue, so they hold no waiters but its own.
    others := by
      intro w hw
      have hnot : w ∉ waitersOf (order.flatMap (·.entries)) :=
        fun hin => hw ((hentries.flatMap_right (·.waiters)).mem_iff.mp hin)
      simp only [result?, afterEnds, List.find?_append, find?_settlements_of_notMem hnot,
        Option.or_none, countCalls]
    counted := by
      have hfail : failures answers order = failures answers l.nextChunks := horder.countP_eq _
      simp only [afterEnds, countCalls, hfail]
    cached := by
      intro hcaching c hc values hvalues i e v he hv
      simp only [afterEnds, countCalls, hcaching, if_true]
      exact Entries.get?_putAll_of_mem (nodup_broughtBy (h.nodup_textsOf hcaching horder))
        (mem_broughtBy (horder.mem_iff.mpr hc) hvalues he hv)
    kept := by
      intro text hnot
      cases hcaching : l.options.caching with
      | false => simp [afterEnds, countCalls, hcaching]
      | true =>
        simp only [afterEnds, countCalls, hcaching, if_true]
        -- Each entry that is put was brought by a chunk that did not fail.
        refine Entries.get?_putAll_of_notMem fun hmem => ?_
        obtain ⟨c, hc, hsome, htext⟩ := exists_of_mem_broughtBy hmem
        exact hnot hcaching c (horder.mem_iff.mp hc) hsome htext
    queue := rfl
    slots := rfl
    inFlight := h.filter_inFlight horder }

end Loader

namespace Session

variable {name : String} {batch : BatchLoader} {s : Session} {l : Loader} {call : Caller}

/-- Calls of the batch function end and leave its loader as it is. Their answers may depend on
anything that happened before. -/
def Quiet (name : String) (batch : BatchLoader) (call : Caller) : Prop :=
  ∀ (s : Session) (l : Loader) (keys : List Json), s.Runs name batch l →
    (call s name keys).1.Runs name batch l ∧ ∃ answer, (call s name keys).2 = some answer

theorem quiet_callWithin
    (hb : ∀ environment keys, ∃ answer, batch.load environment keys = .done answer)
    (depth : Nat) : Quiet name batch (callWithin (depth + 1)) := by
  intro s l keys h
  have hnoted := h
  obtain ⟨a, ha, rfl, -⟩ := h
  obtain ⟨answer, hload⟩ := hb (s.environment a) keys
  rw [callWithin_succ, ha]
  simp only [hload, advanceBy]
  exact ⟨hnoted, answer, rfl⟩

def AnswersBy (call : Caller) (name : String) (batch : BatchLoader)
    (answers : Nat → Except HandlerError (List Json)) (chunks : List Chunk) : Prop :=
  ∀ c ∈ chunks, ∃ s l, s.Runs name batch l ∧ (call s name c.keys).2 = some (answers c.id)

theorem runChunks_quiet (hcall : Quiet name batch call) {chunks : List Chunk}
    (hn : (chunks.map (·.id)).Nodup) (h : s.Runs name batch l) :
    ∃ answers, AnswersBy call name batch answers chunks ∧
      (runChunks call name s chunks).Runs name batch (l.run (chunkEnds answers chunks)) := by
  induction chunks generalizing s l with
  | nil => exact ⟨fun _ => .ok [], fun c hc => absurd hc List.not_mem_nil, h⟩
  | cons c rest ih =>
    rw [List.map_cons, List.nodup_cons] at hn
    obtain ⟨hruns, answer, hanswer⟩ := hcall s l c.keys h
    have hname : (l.complete c.id answer).name = name :=
      (l.effect_complete c.id answer).name_eq.trans h.name_eq
    have hnext : Session.Runs ((call s name c.keys).1.modify name fun l => l.complete c.id answer)
        name batch (l.complete c.id answer) := by
      simp only [modify, hruns.loader?]
      exact hruns.update_self hname
    obtain ⟨answers, hby, hrest⟩ := ih hn.2 hnext
    -- The numbers of the chunks differ, so the answers are those of one function.
    have hother : ∀ d ∈ rest, Function.update answers c.id answer d.id = answers d.id :=
      fun d hd => Function.update_of_ne
        (fun heq => hn.1 (List.mem_map.mpr ⟨d, hd, heq⟩)) _ _
    refine ⟨Function.update answers c.id answer, ?_, ?_⟩
    · intro d hd
      rcases List.mem_cons.mp hd with rfl | hd
      · exact ⟨s, l, h, by rw [Function.update_self, hanswer]⟩
      · rw [hother d hd]
        exact hby d hd
    · have hends : chunkEnds (Function.update answers c.id answer) rest =
          chunkEnds answers rest := List.map_congr_left fun d hd => by rw [hother d hd]
      rw [runChunks_cons, hanswer]
      simp only [chunkEnds, List.map_cons, Loader.run_cons, Function.update_self] at hends ⊢
      rw [hends]
      exact hrest

theorem dispatchBy_eq (call : Caller) (h : s.Runs name batch l) :
    dispatchBy call s name =
      (runChunks call name (s.tick.update (l.step (.start s.now))) l.nextChunks,
        some l.queue.length) := by
  simp only [dispatchBy, h.loader?, Loader.step, Loader.startDispatch_eq, Loader.depth]

theorem runs_dispatchBy (hcall : Quiet name batch call) (h : s.Runs name batch l) :
    ∃ answers, AnswersBy call name batch answers l.nextChunks ∧
      (dispatchBy call s name).1.Runs name batch
        (l.run (.start s.now :: chunkEnds answers l.nextChunks)) := by
  have htick : s.tick.Runs name batch l := h
  have hname : (l.step (.start s.now)).name = name :=
    (l.effect_step (.start s.now)).name_eq.trans h.name_eq
  rw [dispatchBy_eq call h]
  exact runChunks_quiet hcall l.nodup_id_nextChunks (htick.update_self hname)

/-- A dispatch ends and gives the number of keys that were queued. The batch function is called for
each chunk of the queue, and the outcome is the same for every order in which its calls end. -/
theorem dispatch_outcome (name : String) (options : LoaderOptions) (created : Nat)
    (before : List LoaderStep) :
    let l := (Loader.fresh name options created).run before
    (∀ answers order now, order.Perm l.nextChunks →
      l.Dispatched answers (l.run (.start now :: chunkEnds answers order))) ∧
    ∀ (s : Session) (batch : BatchLoader) (call : Caller), s.Runs name batch l →
      Quiet name batch call →
        (dispatchBy call s name).2 = some l.queue.length ∧
        (l.queue = [] → (dispatchBy call s name).1 = s.tick.update (l.step (.start s.now))) ∧
        ∃ answers, AnswersBy call name batch answers l.nextChunks ∧
          (dispatchBy call s name).1.Runs name batch
            (l.run (.start s.now :: chunkEnds answers l.nextChunks)) := by
  intro l
  have hwf : l.WellFormed := (Loader.wellFormed_fresh name options created).run before
  refine ⟨fun answers order now horder => hwf.dispatched horder now, ?_⟩
  intro s batch call hruns hcall
  refine ⟨?_, ?_, runs_dispatchBy hcall hruns⟩
  · rw [dispatchBy_eq call hruns]
  · intro hq
    have hnone : l.nextChunks = [] := by
      simp [Loader.nextChunks, hq, numberChunks]
    rw [dispatchBy_eq call hruns, hnone, runChunks]

theorem dispatch_outcome_in_pairs :
    let batch : BatchLoader :=
      { load := fun _ keys => .done (if keys.length = 2 then .ok keys else .error (.ofMessage "down")) }
    let answers : Nat → Except HandlerError (List Json) := fun id =>
      if id = 0 then .ok [.int 1, .int 2] else .error (.ofMessage "down")
    let l := (Loader.fresh "ids" { maxBatchSize := some 2 }).run
      [.load (.int 1), .load (.int 2), .load (.int 1), .load (.int 3)]
    let s : Session := { loaders := [⟨batch, false, none, l⟩], clock := .stopped }
    l.nextChunks.map Chunk.keys = [[.int 1, .int 2], [.int 3]] ∧
      l.Dispatched answers (l.run (.start :: chunkEnds answers l.nextChunks.reverse)) ∧
      (dispatchBy s.call s "ids").2 = some 3 := by
  intro batch answers l s
  have h := dispatch_outcome "ids" { maxBatchSize := some 2 } 0
    [.load (.int 1), .load (.int 2), .load (.int 1), .load (.int 3)]
  have hquiet : Quiet "ids" batch s.call := quiet_callWithin (fun _ _ => ⟨_, rfl⟩) 1
  exact ⟨rfl, h.1 answers _ _ (List.reverse_perm _), (h.2 s batch s.call ⟨_, rfl, rfl, rfl⟩ hquiet).1⟩

end Session

end SchemaAssembly
