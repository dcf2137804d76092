import SchemaAssembly.Proofs.Loader.Waiting

/-!
What a client of a loader sees. A load gives the value that the batch function computes for its
key, whether or not the loader caches, batches, or bounds its batches, and whatever the client does
between the load and the wait for its result.
-/

set_option autoImplicit false

namespace SchemaAssembly

inductive LoaderCall where
  | load (key : Json)
  | loadMany (keys : List Json)
  | dispatch
  | clear
  | clearKey (key : Json)
  /-- Polls the load with this number. -/
  | await (number : Nat)

def LoaderCall.asks : LoaderCall → List (List Json)
  | .load key => [[key]]
  | .loadMany keys => [keys]
  | _ => []

/-- A session with the loads of one client, in the order in which they were made. -/
structure Client where
  session : Session
  loads : List (Work (List (Except LoaderError Json))) := []

namespace Client

def waitAll (tickets : List Ticket) : Work (List (Except LoaderError Json)) :=
  .all (tickets.map Ticket.wait)

def perform (name : String) (c : Client) : LoaderCall → Client
  | .load key =>
    { session := (c.session.load name key).1
      loads := c.loads ++ [waitAll (c.session.load name key).2.toList] }
  | .loadMany keys =>
    { session := (c.session.loadMany name keys).1
      loads := c.loads ++ [waitAll (c.session.loadMany name keys).2] }
  | .dispatch => { c with session := (c.session.dispatch name).1 }
  | .clear => { c with session := c.session.modify name fun l => l.clear }
  | .clearKey key => { c with session := c.session.modify name fun l => l.clearKey key }
  | .await number =>
    match c.loads[number]? with
    | none => c
    | some w =>
      { session := (c.session.advance w).1
        loads := c.loads.set number (c.session.advance w).2 }

def performAll (name : String) (c : Client) (calls : List LoaderCall) : Client :=
  calls.foldl (perform name) c

def poll (c : Client) (w : Work (List (Except LoaderError Json))) :
    Option (List (Except LoaderError Json)) := (c.session.advance w).2.value?

end Client

namespace Session

variable {g : Json → Json} {name : String} {batch : BatchLoader} {s s' s'' : Session}
  {l t u : Loader}

/-- The loader took allowed steps, and all tickets of the client kept their places. -/
structure Continues (g : Json → Json) (name : String) (batch : BatchLoader) (s : Session)
    (l : Loader) (s' : Session) (t : Loader) : Prop where
  leads : Leads (Loader.Computed g) name batch s l s' t
  held : ∀ key ticket, l.Held g key ticket → t.Held g key ticket

theorem Continues.refl (h : s.Runs name batch l) : Continues g name batch s l s l :=
  ⟨.refl h, fun _ _ hi => hi⟩

theorem Continues.trans (h : Continues g name batch s l s' t)
    (h' : Continues g name batch s' t s'' u) : Continues g name batch s l s'' u :=
  ⟨h.leads.trans h'.leads, fun key ticket hi => h'.held key ticket (h.held key ticket hi)⟩

theorem load_eq (h : s.Runs name batch l) (key : Json) :
    s.load name key = (s.update (l.load key).1, some (l.load key).2) := by
  simp [load, h.loader?]

theorem continues_load (h : s.Runs name batch l) (hl : l.Computing g) (key : Json) :
    Continues g name batch s l (s.update (l.load key).1) (l.load key).1 where
  leads := by
    have hname : (l.load key).1.name = name :=
      (l.effect_load key).name_eq.trans h.name_eq
    exact ⟨h.update_self hname, .single (a := .load key) trivial, rfl⟩
  held k ticket hi :=
    ⟨hi.1.step (a := .load key) trivial, hi.2.load hl.wellFormed key⟩

theorem held_load (hl : l.Computing g) (key : Json) :
    (l.load key).1.Held g key (l.load key).2 :=
  ⟨hl.issued_load key, hl.wellFormed.placed_load key⟩

theorem continues_loadMany (keys : List Json) (h : s.Runs name batch l) (hl : l.Computing g) :
    ∃ t, Continues g name batch s l (s.loadMany name keys).1 t ∧
      List.Forall₂ (t.Held g) keys (s.loadMany name keys).2 := by
  induction keys generalizing s l with
  | nil => exact ⟨l, .refl h, .nil⟩
  | cons key rest ih =>
    have hfirst := continues_load h hl key
    obtain ⟨t, hrest, hheld⟩ := ih hfirst.leads.runs (hl.reach hfirst.leads.reach)
    simp only [loadMany, load_eq h, Option.toList_some, List.singleton_append]
    exact ⟨t, hfirst.trans hrest, .cons (hrest.held key _ (held_load hl key)) hheld⟩

theorem continues_modify {a : LoaderStep} (h : s.Runs name batch l)
    (ha : l.Allows (Loader.Computed g) a) (hq : (l.step a).queue = l.queue) :
    Continues g name batch s l (s.modify name fun l => l.step a) (l.step a) where
  leads := by
    have hname : (l.step a).name = name := (l.effect_step a).name_eq.trans h.name_eq
    simp only [modify, h.loader?]
    exact ⟨h.update_self hname, .single ha, rfl⟩
  held k ticket hi := by
    refine ⟨hi.1.step ha, ?_⟩
    have hplaced := hi.2
    cases ticket with
    | queued n w =>
      rcases hplaced with hw | hw
      · exact .inl (by rwa [Loader.queuedWaiters, hq])
      · exact .inr (l.settledWaiters_step a hw)
    | answered value => trivial
    | direct n key => trivial

theorem dispatch_eq (h : s.Runs name batch l) :
    (s.dispatch name).1 =
      runChunks s.call name (s.tick.update (l.step (.start s.now))) l.nextChunks := by
  simp only [dispatch, dispatchBy, h.loader?, Loader.step, Loader.startDispatch_eq]

theorem leads_dispatch (hb : batch.Computes g) (h : s.Runs name batch l) (hl : l.WellFormed) :
    ∃ t, Leads (Loader.Computed g) name batch s l (s.dispatch name).1 t ∧
      ∀ key ticket, l.Held g key ticket → t.Issued g key ticket ∧ t.Ready ticket := by
  have hcall : Sound (Loader.Computed g) name batch s.call := sound_callWithin hb _
  have htick : s.tick.Runs name batch l := h
  have hname : (l.step (.start s.now)).name = name :=
    (l.effect_step (.start s.now)).name_eq.trans h.name_eq
  have hstart := htick.update_self hname
  have hwf := hl.step (.start s.now)
  have hk : ∀ c ∈ l.nextChunks, (l.step (.start s.now)).Knows c :=
    fun c hc => knows_nextChunks hl hc s.now
  obtain ⟨t, ht⟩ := leads_runChunks hcall name l.nextChunks hstart hwf fun _ => hk
  have hreach : l.Reach (Loader.Computed g) t :=
    (Loader.Reach.single (a := .start s.now) trivial).trans ht.reach
  rw [dispatch_eq h]
  refine ⟨t, ⟨ht.runs, hreach, ht.dropped⟩, ?_⟩
  intro key ticket hi
  refine ⟨hi.1.reach hreach, ?_⟩
  have hplaced := hi.2
  cases ticket with
  | answered value => trivial
  | direct n k => trivial
  | queued n w =>
    rcases hplaced with hw | hw
    · -- The waiter is in one of the chunks, and every chunk is called.
      rw [Loader.queuedWaiters, ← l.flatMap_entries_nextChunks] at hw
      obtain ⟨e, he, hwe⟩ := List.mem_flatMap.mp hw
      obtain ⟨c, hc, hec⟩ := List.mem_flatMap.mp he
      have hin : c ∈ (l.step (.start s.now)).inFlight := by
        simp only [Loader.step, Loader.startDispatch_eq]
        exact List.mem_append_right _ hc
      exact runChunks_settles hb s.loaders.length hc (List.mem_flatMap.mpr ⟨e, hec, hwe⟩) hstart
        hwf hk (.inl hin) ht.runs
    · exact hreach.settledWaiters_subset hw

end Session

namespace Client

variable {g : Json → Json} {name : String} {batch : BatchLoader} {c : Client}
  {asked : List (List Json)} {l t : Loader}

def values (g : Json → Json) (keys : List Json) : List (Except LoaderError Json) :=
  keys.map fun key => .ok (g key)

/-- Every load of the client waits for the values of its keys. -/
structure Serves (g : Json → Json) (name : String) (batch : BatchLoader)
    (asked : List (List Json)) (c : Client) (l : Loader) : Prop where
  runs : c.session.Runs name batch l
  computing : l.Computing g
  dropped : c.session.dropped = false
  loads : List.Forall₂ (fun keys w => w.Gives (l.Held g) g (· = values g keys)) asked c.loads

theorem Serves.loads_of (h : Serves g name batch asked c l)
    (hkeep : ∀ key ticket, l.Held g key ticket → t.Held g key ticket) :
    List.Forall₂ (fun keys w => w.Gives (t.Held g) g (· = values g keys)) asked c.loads :=
  h.loads.imp fun _ _ hw => hw.mono hkeep

theorem Serves.ask (h : Serves g name batch asked c l) {s : Session} {keys : List Json}
    {tickets : List Ticket} (hs : Session.Continues g name batch c.session l s t)
    (hkeys : List.Forall₂ (t.Held g) keys tickets) :
    Serves g name batch (asked ++ [keys]) ⟨s, c.loads ++ [waitAll tickets]⟩ t where
  runs := hs.leads.runs
  computing := h.computing.reach hs.leads.reach
  dropped := hs.leads.dropped.trans h.dropped
  loads := List.rel_append (h.loads_of hs.held) (.cons (Work.gives_all hkeys) .nil)

theorem Serves.keep (h : Serves g name batch asked c l) {s : Session}
    (hs : Session.Continues g name batch c.session l s t) :
    Serves g name batch asked { c with session := s } t where
  runs := hs.leads.runs
  computing := h.computing.reach hs.leads.reach
  dropped := hs.leads.dropped.trans h.dropped
  loads := h.loads_of hs.held

theorem forall₂_set {α β : Type} {R : α → β → Prop} {xs : List α} {ys : List β}
    (h : List.Forall₂ R xs ys) {i : Nat} {y : β} (hy : ∀ x, xs[i]? = some x → R x y) :
    List.Forall₂ R xs (ys.set i y) := by
  induction h generalizing i with
  | nil => exact .nil
  | @cons x y' xs ys hxy hrest ih =>
    cases i with
    | zero => exact .cons (hy x rfl) hrest
    | succ i => exact .cons hxy (ih hy)

theorem forall₂_getElem? {α β : Type} {R : α → β → Prop} {xs : List α} {ys : List β}
    (h : List.Forall₂ R xs ys) {i : Nat} {y : β} (hy : ys[i]? = some y) :
    ∃ x, xs[i]? = some x ∧ R x y := by
  induction h generalizing i with
  | nil => simp at hy
  | @cons x y' xs ys hxy hrest ih =>
    cases i with
    | zero => exact ⟨x, rfl, Option.some.inj hy ▸ hxy⟩
    | succ i => exact ih hy

theorem Serves.await (hb : batch.Computes g) (h : Serves g name batch asked c l)
    (number : Nat) : ∃ t, Serves g name batch asked (c.perform name (.await number)) t := by
  simp only [perform]
  cases hw : c.loads[number]? with
  | none => exact ⟨l, h⟩
  | some w =>
    obtain ⟨keys, hkeys, hgives⟩ := forall₂_getElem? h.loads hw
    have hcall : Session.Sound (Loader.Computed g) name batch c.session.call :=
      Session.sound_callWithin hb _
    obtain ⟨t, ht, hadvanced, hheld⟩ :=
      Session.advanceBy_held hcall hgives h.runs h.computing.wellFormed h.dropped
    refine ⟨t, ht.runs, h.computing.reach ht.reach, ht.dropped.trans h.dropped, ?_⟩
    apply forall₂_set (h.loads_of hheld)
    intro keys' hkeys'
    rw [hkeys] at hkeys'
    rw [← Option.some.inj hkeys']
    exact hadvanced

theorem Serves.perform (hb : batch.Computes g) (h : Serves g name batch asked c l)
    (a : LoaderCall) : ∃ t, Serves g name batch (asked ++ a.asks) (c.perform name a) t := by
  cases a with
  | load key =>
    have hs := Session.continues_load h.runs h.computing key
    have hheld := Session.held_load h.computing key
    simp only [Client.perform, Session.load_eq h.runs, Option.toList_some]
    exact ⟨_, h.ask hs (.cons hheld .nil)⟩
  | loadMany keys =>
    obtain ⟨t, hs, hheld⟩ := Session.continues_loadMany keys h.runs h.computing
    exact ⟨t, h.ask hs hheld⟩
  | dispatch =>
    obtain ⟨t, ht, hready⟩ := Session.leads_dispatch hb h.runs h.computing.wellFormed
    simp only [LoaderCall.asks, List.append_nil]
    exact ⟨t, h.keep ⟨ht, fun key ticket hi =>
      ⟨(hready key ticket hi).1, (hready key ticket hi).2.placed⟩⟩⟩
  | clear =>
    simp only [LoaderCall.asks, List.append_nil]
    exact ⟨_, h.keep (Session.continues_modify (a := .clear) h.runs trivial rfl)⟩
  | clearKey key =>
    simp only [LoaderCall.asks, List.append_nil]
    exact ⟨_, h.keep (Session.continues_modify (a := .clearKey key) h.runs trivial rfl)⟩
  | await number =>
    simp only [LoaderCall.asks, List.append_nil]
    exact h.await hb number

theorem Serves.performAll (hb : batch.Computes g) (h : Serves g name batch asked c l)
    (calls : List LoaderCall) :
    ∃ t, Serves g name batch (asked ++ calls.flatMap LoaderCall.asks)
      (c.performAll name calls) t := by
  induction calls generalizing c asked l with
  | nil => exact ⟨l, by simpa [Client.performAll] using h⟩
  | cons a rest ih =>
    obtain ⟨t, ht⟩ := h.perform hb a
    obtain ⟨u, hu⟩ := ih ht
    rw [List.append_assoc] at hu
    exact ⟨u, hu⟩

theorem serves_start {s : Session} {options : LoaderOptions} {created : Nat} (g : Json → Json)
    (hs : s.Runs name batch (Loader.fresh name options created)) (hd : s.dropped = false) :
    Serves g name batch [] { session := s } (Loader.fresh name options created) :=
  ⟨hs, Loader.computing_fresh g name options created, hd, .nil⟩

theorem Serves.settled (h : Serves g name batch asked c l) :
    List.Forall₂ (fun keys w => ∀ rs, w.value? = some rs → rs = values g keys) asked c.loads := by
  refine h.loads.imp ?_
  intro keys w hw rs hrs
  cases w with
  | done a => exact (Option.some.inj hrs).symm.trans hw
  | load n key next => cases hrs
  | dispatch n next => cases hrs
  | await tickets next => cases hrs

/-- After a dispatch every load of the client is settled as soon as it is polled. -/
theorem Serves.polled (hb : batch.Computes g) (h : Serves g name batch asked c l) :
    (c.perform name .dispatch).loads.map (c.perform name .dispatch).poll =
      asked.map fun keys => some (values g keys) := by
  obtain ⟨t, ht, hready⟩ := Session.leads_dispatch hb h.runs h.computing.wellFormed
  have hloads : List.Forall₂ (fun keys w => (c.perform name .dispatch).poll w =
      some (values g keys)) asked c.loads := by
    refine h.loads.imp ?_
    intro keys w hw
    obtain ⟨rs, hrs, hval⟩ := Session.advanceBy_ready hb _ (hw.mono hready) ht.runs
      (ht.reach.wellFormed h.computing.wellFormed) (ht.dropped.trans h.dropped)
    have hvalue : (c.perform name .dispatch).poll w = some rs := congrArg Work.value? hrs
    rw [hvalue, hval]
  have hmap : List.Forall₂ (· = ·) (asked.map fun keys => some (values g keys))
      (c.loads.map (c.perform name .dispatch).poll) := by
    simpa [List.forall₂_map_left_iff, List.forall₂_map_right_iff, eq_comm] using hloads
  rw [List.forall₂_eq_eq_eq] at hmap
  exact hmap.symm

/-- Options of a loader do not change what its loads give. For every sequence of calls, whatever is
settled has the values of its keys in order, and after a last dispatch everything is settled. -/
theorem loads_give_values (hb : batch.Computes g) {s : Session} {options : LoaderOptions}
    {created : Nat} (hs : s.Runs name batch (Loader.fresh name options created))
    (hd : s.dropped = false)
    (calls : List LoaderCall) :
    let asked := calls.flatMap LoaderCall.asks
    let c := Client.performAll name { session := s } calls
    let d := Client.performAll name { session := s } (calls ++ [.dispatch])
    List.Forall₂ (fun keys w => ∀ rs, w.value? = some rs → rs = values g keys) asked c.loads ∧
      d.loads.map d.poll = asked.map fun keys => some (values g keys) := by
  intro asked c d
  obtain ⟨l, hl⟩ := (serves_start g hs hd).performAll hb calls
  rw [List.nil_append] at hl
  have hd : d = c.perform name .dispatch := List.foldl_append
  rw [hd]
  exact ⟨hl.settled, hl.polled hb⟩

theorem runs_ofLoader (name : String) (batch : BatchLoader) (options : LoaderOptions)
    (clock : Clock) (context : RequestContext) :
    (Session.ofLoader name batch options clock context).Runs name batch
      (Loader.fresh name options clock.now) :=
  ⟨⟨batch, batch.consumesRegistry, none, Loader.fresh name options clock.now⟩,
    by simp [Session.find?, Session.ofLoader, Loader.fresh], rfl, rfl⟩

theorem loads_give_values_in_pairs :
    let boxed : BatchLoader := { load := fun _ keys => .done (.ok (keys.map fun k => .list [k])) }
    let s := Session.ofLoader "boxed" boxed { maxBatchSize := some 2 } .stopped .empty
    let d := Client.performAll "boxed" { session := s } ([.load (.int 1), .dispatch,
      .loadMany [.int 2, .int 1, .int 3, .int 4], .clear, .load (.int 1)] ++ [.dispatch])
    d.loads.map d.poll = [some [.ok (.list [.int 1])],
      some [.ok (.list [.int 2]), .ok (.list [.int 1]), .ok (.list [.int 3]), .ok (.list [.int 4])],
      some [.ok (.list [.int 1])]] :=
  (loads_give_values (g := fun k => .list [k]) (fun _ _ _ _ => rfl)
    (runs_ofLoader "boxed" _ _ .stopped .empty) rfl [.load (.int 1), .dispatch,
      .loadMany [.int 2, .int 1, .int 3, .int 4], .clear, .load (.int 1)]).2

end Client

end SchemaAssembly
