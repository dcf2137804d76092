import SchemaAssembly.Loader.Session
import SchemaAssembly.Proofs.Loader.Computing

/-!
Sessions around a loader. Whatever batch functions do in a session, each loader of it only takes
steps of its own, and its chunks end with answers of its own batch function.
-/

set_option autoImplicit false

namespace SchemaAssembly

/-- A batch function that computes the value of each key, whatever else it does with the loaders of
its session. -/
def BatchLoader.Computes (batch : BatchLoader) (g : Json → Json) : Prop :=
  ∀ (call : Session.Caller) (s : Session) (environment : LoaderEnvironment) (keys : List Json),
    (Session.advanceBy call s (batch.load environment keys)).2 = .done (.ok (keys.map g))

theorem BatchLoader.Computes.eq {batch : BatchLoader} {g : Json → Json} (h : batch.Computes g)
    (call : Session.Caller) (s : Session) (environment : LoaderEnvironment) (keys : List Json) :
    (Session.advanceBy call s (batch.load environment keys)).2.value? =
      some (.ok (keys.map g)) := by
  rw [h call s environment keys, Work.value?]

namespace Session

theorem find?_update (s : Session) (next : Loader) (name : String) :
    (s.update next).find? name =
      (s.find? name).map fun a => if a.state.name = next.name then { a with state := next } else a := by
  unfold find? update
  induction s.loaders with
  | nil => rfl
  | cons a rest ih =>
    by_cases ha : a.state.name = next.name
    · by_cases hn : next.name = name
      · simp [ha, hn]
      · simpa [ha, hn] using ih
    · by_cases hn : a.state.name = name
      · have hne : name ≠ next.name := hn ▸ ha
        simp [hn, hne]
      · simpa [ha, hn] using ih

def Runs (s : Session) (name : String) (batch : BatchLoader) (l : Loader) : Prop :=
  ∃ a, s.find? name = some a ∧ a.batch = batch ∧ a.state = l

section Runs

variable {s : Session} {name n : String} {batch : BatchLoader} {l l' next : Loader}

theorem Runs.loader? (h : s.Runs name batch l) : s.loader? name = some l := by
  obtain ⟨a, ha, -, hl⟩ := h
  simp [Session.loader?, ha, hl]

theorem name_of_loader? (h : s.loader? n = some l) : l.name = n := by
  obtain ⟨a, ha, rfl⟩ := Option.map_eq_some_iff.mp h
  simpa using List.find?_some ha

theorem Runs.name_eq (h : s.Runs name batch l) : l.name = name := name_of_loader? h.loader?

theorem Runs.unique (h : s.Runs name batch l) (h' : s.Runs name batch l') : l = l' :=
  Option.some.inj (h.loader?.symm.trans h'.loader?)

theorem Runs.update_self (h : s.Runs name batch l) (hn : next.name = name) :
    (s.update next).Runs name batch next := by
  obtain ⟨a, ha, hb, -⟩ := h
  have hname : a.state.name = next.name := by
    rw [hn]
    simpa using List.find?_some ha
  refine ⟨{ a with state := next }, ?_, hb, rfl⟩
  simp [find?_update, ha, hname]

theorem Runs.update_other (h : s.Runs name batch l) (hn : next.name ≠ name) :
    (s.update next).Runs name batch l := by
  obtain ⟨a, ha, hb, hl⟩ := h
  have hname : a.state.name = name := by simpa using List.find?_some ha
  have hne : a.state.name ≠ next.name := by
    rw [hname]
    exact hn.symm
  refine ⟨a, ?_, hb, hl⟩
  simp [find?_update, ha, hne]

theorem Runs.update_step (h : s.Runs name batch l) (h' : s.loader? n = some l') (a : LoaderStep) :
    (s.update (l'.step a)).Runs name batch (if n = name then l.step a else l) := by
  have hname : (l'.step a).name = n := (l'.effect_step a).name_eq.trans (name_of_loader? h')
  by_cases hn : n = name
  · subst hn
    obtain rfl : l' = l := Option.some.inj (h'.symm.trans h.loader?)
    rw [if_pos rfl]
    exact h.update_self hname
  · rw [if_neg hn]
    exact h.update_other (hname ▸ hn)

end Runs

section Sound

variable {P : List Json → Except HandlerError (List Json) → Prop} {name : String}
  {batch : BatchLoader} {s s' s'' : Session} {l t : Loader} {call : Caller}

/-- From the first session to the second the loader took allowed steps only. -/
structure Leads (P : List Json → Except HandlerError (List Json) → Prop) (name : String)
    (batch : BatchLoader) (s : Session) (l : Loader) (s' : Session) (t : Loader) : Prop where
  runs : s'.Runs name batch t
  reach : l.Reach P t
  dropped : s'.dropped = s.dropped

theorem Leads.refl (h : s.Runs name batch l) : Leads P name batch s l s l := ⟨h, .refl, rfl⟩

theorem Leads.tick (h : s.Runs name batch l) : Leads P name batch s l s.tick l := ⟨h, .refl, rfl⟩

theorem Leads.trans {u : Loader} (h : Leads P name batch s l s' t)
    (h' : Leads P name batch s' t s'' u) : Leads P name batch s l s'' u :=
  ⟨h'.runs, h.reach.trans h'.reach, h'.dropped.trans h.dropped⟩

theorem leads_step {n : String} {l₁ : Loader} {a : LoaderStep} (h : s.Runs name batch l)
    (h₁ : s.loader? n = some l₁) (ha : n = name → l.Allows P a) :
    ∃ t, Leads P name batch s l (s.update (l₁.step a)) t ∧ (n = name → t = l.step a) := by
  refine ⟨if n = name then l.step a else l, ⟨h.update_step h₁ a, ?_, rfl⟩, fun hn => if_pos hn⟩
  split
  · next hn => exact .single (ha hn)
  · exact .refl

/-- Calls move the loader by allowed steps, and its own batch function answers as it should. -/
def Sound (P : List Json → Except HandlerError (List Json) → Prop) (name : String)
    (batch : BatchLoader) (call : Caller) : Prop :=
  ∀ (s : Session) (l : Loader) (n : String) (keys : List Json), s.Runs name batch l →
    l.WellFormed →
    (∃ t, Leads P name batch s l (call s n keys).1 t) ∧
      (n = name → ∀ answer, (call s n keys).2 = some answer → P keys answer)

theorem runChunks_cons (call : Caller) (n : String) (s : Session) (c : Chunk)
    (rest : List Chunk) :
    runChunks call n s (c :: rest) = runChunks call n
      (match (call s n c.keys).2 with
        | some answer => (call s n c.keys).1.modify n fun l => l.complete c.id answer
        | none => (call s n c.keys).1) rest := by
  rw [runChunks]
  rcases call s n c.keys with ⟨s₁, _ | answer⟩ <;> rfl

theorem leads_modify {n : String} {a : LoaderStep} (h : s.Runs name batch l)
    (ha : n = name → l.Allows P a) :
    ∃ t, Leads P name batch s l (s.modify n fun l => l.step a) t := by
  unfold modify
  cases h₁ : s.loader? n with
  | none => exact ⟨l, .refl h⟩
  | some l₁ =>
    obtain ⟨t, ht, -⟩ := leads_step h h₁ ha
    exact ⟨t, ht⟩

theorem leads_startDirect (n : String) (h : s.Runs name batch l) :
    ∃ t, Leads P name batch s l (s.modify n fun l => l.countCalls 1 1) t :=
  leads_modify (a := .startDirect) h fun _ => trivial

theorem leads_load (n : String) (key : Json) (h : s.Runs name batch l) :
    ∃ t, Leads P name batch s l (s.load n key).1 t := by
  unfold load
  cases h₁ : s.loader? n with
  | none => exact ⟨l, .refl h⟩
  | some l₁ =>
    obtain ⟨t, ht, -⟩ := leads_step (a := .load key) h h₁ fun _ => trivial
    exact ⟨t, ht⟩

theorem leads_loadMany (n : String) (keys : List Json) (h : s.Runs name batch l) :
    ∃ t, Leads P name batch s l (s.loadMany n keys).1 t := by
  induction keys generalizing s l with
  | nil => exact ⟨l, .refl h⟩
  | cons key rest ih =>
    obtain ⟨t, ht⟩ := leads_load (P := P) n key h
    obtain ⟨u, hu⟩ := ih ht.runs
    exact ⟨u, ht.trans hu⟩

/-- The end of a chunk that the loader knows is an allowed step. -/
theorem allows_complete {c : Chunk} {answer : Except HandlerError (List Json)} (hk : l.Knows c)
    (ha : P c.keys answer) : l.Allows P (.complete c.id answer) := by
  intro d hd hid
  rw [hk.2 d hd hid]
  exact ha

theorem leads_chunk (hcall : Sound P name batch call) {n : String} {c : Chunk}
    (h : s.Runs name batch l) (hl : l.WellFormed) (hk : n = name → l.Knows c) :
    ∃ t, Leads P name batch s l
      (match (call s n c.keys).2 with
        | some answer => (call s n c.keys).1.modify n fun l => l.complete c.id answer
        | none => (call s n c.keys).1) t := by
  obtain ⟨⟨t, ht⟩, hanswer⟩ := hcall s l n c.keys h hl
  cases hr : (call s n c.keys).2 with
  | none => exact ⟨t, ht⟩
  | some answer =>
    have hallow : n = name → t.Allows P (.complete c.id answer) := by
      intro hn
      exact allows_complete (ht.reach.knows (hk hn)) (hanswer hn answer hr)
    obtain ⟨u, hu⟩ := leads_modify (a := .complete c.id answer) ht.runs hallow
    exact ⟨u, ht.trans hu⟩

theorem leads_runChunks (hcall : Sound P name batch call) (n : String) (chunks : List Chunk)
    (h : s.Runs name batch l) (hl : l.WellFormed) (hk : n = name → ∀ c ∈ chunks, l.Knows c) :
    ∃ t, Leads P name batch s l (runChunks call n s chunks) t := by
  induction chunks generalizing s l with
  | nil => exact ⟨l, .refl h⟩
  | cons c rest ih =>
    obtain ⟨t, ht⟩ := leads_chunk hcall h hl fun hn => hk hn c List.mem_cons_self
    have hkt : n = name → ∀ d ∈ rest, t.Knows d := fun hn d hd =>
      ht.reach.knows (hk hn d (List.mem_cons_of_mem c hd))
    obtain ⟨u, hu⟩ := ih ht.runs (ht.reach.wellFormed hl) hkt
    rw [runChunks_cons]
    exact ⟨u, ht.trans hu⟩

theorem knows_nextChunks (hl : l.WellFormed) {c : Chunk} (hc : c ∈ l.nextChunks) (now : Nat) :
    (l.step (.start now)).Knows c := by
  refine (hl.step (.start now)).knows ?_
  simp only [Loader.step, Loader.startDispatch_eq]
  exact List.mem_append_right _ hc

theorem leads_dispatchBy (hcall : Sound P name batch call) (n : String)
    (h : s.Runs name batch l) (hl : l.WellFormed) :
    ∃ t, Leads P name batch s l (dispatchBy call s n).1 t := by
  unfold dispatchBy
  cases h₁ : s.loader? n with
  | none => exact ⟨l, .refl h⟩
  | some l₁ =>
    have htick : Leads P name batch s l s.tick l := .tick h
    obtain ⟨t, ht, hstep⟩ :=
      leads_step (P := P) (a := .start s.now) htick.runs h₁ fun _ => trivial
    have hk : n = name → ∀ c ∈ l₁.nextChunks, t.Knows c := by
      intro hn c hc
      rw [hn, h.loader?] at h₁
      rw [hstep hn]
      exact knows_nextChunks hl (Option.some.inj h₁ ▸ hc) s.now
    obtain ⟨u, hu⟩ := leads_runChunks hcall n l₁.nextChunks ht.runs (ht.reach.wellFormed hl) hk
    exact ⟨u, (htick.trans ht).trans hu⟩

theorem askBy_direct (call : Caller) (s : Session) (n : String) (key : Json) :
    askBy call s (.direct n key) =
      match (call (s.modify n fun l => l.countCalls 1 1) n [key]).2 with
      | none => ((call (s.modify n fun l => l.countCalls 1 1) n [key]).1, none)
      | some answer =>
        match (call (s.modify n fun l => l.countCalls 1 1) n [key]).1.loader? n with
        | none => ((call (s.modify n fun l => l.countCalls 1 1) n [key]).1, none)
        | some l =>
          ((call (s.modify n fun l => l.countCalls 1 1) n [key]).1.update
            (l.completeDirect key answer), some (l.directResult answer)) := by
  rw [askBy]
  rcases call (s.modify n fun l => l.countCalls 1 1) n [key] with ⟨s₁, _ | answer⟩
  · rfl
  · cases h : s₁.loader? n <;> simp [h]

theorem leads_askBy (hcall : Sound P name batch call) (ticket : Ticket)
    (h : s.Runs name batch l) (hl : l.WellFormed) :
    ∃ t, Leads P name batch s l (askBy call s ticket).1 t := by
  cases ticket with
  | answered value => exact ⟨l, .refl h⟩
  | queued n w =>
    refine ⟨l, ?_⟩
    simp only [askBy]
    split <;> exact .refl h
  | direct n key =>
    rw [askBy_direct]
    obtain ⟨t, ht⟩ := leads_startDirect (P := P) n h
    obtain ⟨⟨u, hu⟩, hanswer⟩ :=
      hcall (s.modify n fun l => l.countCalls 1 1) t n [key] ht.runs (ht.reach.wellFormed hl)
    cases hr : (call (s.modify n fun l => l.countCalls 1 1) n [key]).2 with
    | none => exact ⟨u, ht.trans hu⟩
    | some answer =>
      cases h₁ : (call (s.modify n fun l => l.countCalls 1 1) n [key]).1.loader? n with
      | none => exact ⟨u, ht.trans hu⟩
      | some l₁ =>
        obtain ⟨v, hv, -⟩ := leads_step (a := .completeDirect key answer) hu.runs h₁
          fun hn => hanswer hn answer hr
        exact ⟨v, (ht.trans hu).trans hv⟩

theorem askFirst_cons (call : Caller) (s : Session) (i : Nat) (ticket : Ticket)
    (rest : List Ticket) :
    askFirst call s i (ticket :: rest) =
      match (askBy call s ticket).2 with
      | some r => ((askBy call s ticket).1, some (i, r))
      | none => askFirst call (askBy call s ticket).1 (i + 1) rest := by
  rw [askFirst]
  rcases askBy call s ticket with ⟨s₁, _ | r⟩ <;> rfl

theorem leads_askFirst (hcall : Sound P name batch call) (tickets : List Ticket) (i : Nat)
    (h : s.Runs name batch l) (hl : l.WellFormed) :
    ∃ t, Leads P name batch s l (askFirst call s i tickets).1 t := by
  induction tickets generalizing s l i with
  | nil => exact ⟨l, .refl h⟩
  | cons ticket rest ih =>
    obtain ⟨t, ht⟩ := leads_askBy hcall ticket h hl
    rw [askFirst_cons]
    cases (askBy call s ticket).2 with
    | some r => exact ⟨t, ht⟩
    | none =>
      obtain ⟨u, hu⟩ := ih (i + 1) ht.runs (ht.reach.wellFormed hl)
      exact ⟨u, ht.trans hu⟩

theorem advanceBy_await {α : Type} (call : Caller) (s : Session) (tickets : List Ticket)
    (next : Nat → Except LoaderError Json → Work α) :
    advanceBy call s (.await tickets next) =
      match (askFirst call s 0 tickets).2 with
      | some (i, r) => advanceBy call (askFirst call s 0 tickets).1 (next i r)
      | none => ((askFirst call s 0 tickets).1, .await tickets next) := by
  rw [advanceBy]
  rcases askFirst call s 0 tickets with ⟨s₁, _ | ⟨i, r⟩⟩ <;> rfl

theorem leads_advanceBy {α : Type} (hcall : Sound P name batch call) (w : Work α)
    (h : s.Runs name batch l) (hl : l.WellFormed) :
    ∃ t, Leads P name batch s l (advanceBy call s w).1 t := by
  induction w generalizing s l with
  | done a => exact ⟨l, .refl h⟩
  | load n key next ih =>
    obtain ⟨t, ht⟩ := leads_load (P := P) n key h
    obtain ⟨u, hu⟩ := ih (s.load n key).2 ht.runs (ht.reach.wellFormed hl)
    exact ⟨u, ht.trans hu⟩
  | dispatch n next ih =>
    obtain ⟨t, ht⟩ := leads_dispatchBy hcall n h hl
    obtain ⟨u, hu⟩ := ih (dispatchBy call s n).2 ht.runs (ht.reach.wellFormed hl)
    exact ⟨u, ht.trans hu⟩
  | await tickets next ih =>
    obtain ⟨t, ht⟩ := leads_askFirst hcall tickets 0 h hl
    rw [advanceBy_await]
    cases (askFirst call s 0 tickets).2 with
    | none => exact ⟨t, ht⟩
    | some p =>
      obtain ⟨u, hu⟩ := ih p.1 p.2 ht.runs (ht.reach.wellFormed hl)
      exact ⟨u, ht.trans hu⟩

theorem callWithin_succ (depth : Nat) (s : Session) (n : String) (keys : List Json) :
    callWithin (depth + 1) s n keys =
      match s.find? n with
      | none => (s, none)
      | some a =>
        let w := advanceBy (callWithin depth) { s with calls := s.calls ++ [(a.batch.label, keys)] }
          (a.batch.load (s.environment a) keys)
        (w.1, w.2.value?) := by
  rw [callWithin]
  cases s.find? n with
  | none => rfl
  | some a =>
    simp only
    rcases advanceBy (callWithin depth) { s with calls := s.calls ++ [(a.batch.label, keys)] }
      (a.batch.load (s.environment a) keys) with ⟨s₁, _ | _ | _ | _⟩ <;> rfl

/-- A batch function whose answers are as they should be is called soundly, however deep calls
nest. -/
theorem sound_callWithin_of
    (hanswer : ∀ (call : Caller) (s : Session) (environment : LoaderEnvironment) (keys : List Json)
      (answer : Except HandlerError (List Json)),
      (advanceBy call s (batch.load environment keys)).2.value? = some answer → P keys answer)
    (depth : Nat) : Sound P name batch (callWithin depth) := by
  induction depth with
  | zero => exact fun s l n keys h _ => ⟨⟨l, .refl h⟩, fun _ answer hr => by cases hr⟩
  | succ depth ih =>
    intro s l n keys h hl
    rw [callWithin_succ]
    cases hn : s.find? n with
    | none => exact ⟨⟨l, .refl h⟩, fun _ answer hr => by cases hr⟩
    | some a =>
      -- Whatever the batch function does with loaders, it does one level deeper.
      have hstart : Session.Runs { s with calls := s.calls ++ [(a.batch.label, keys)] } name batch l :=
        h
      obtain ⟨t, ht⟩ := leads_advanceBy ih (a.batch.load (s.environment a) keys) hstart hl
      refine ⟨⟨t, ht.runs, ht.reach, ht.dropped⟩, ?_⟩
      intro hname answer hr
      obtain ⟨a', ha', hbatch, -⟩ := h
      rw [← hname, hn] at ha'
      have hab : a.batch = batch := by rw [Option.some.inj ha', hbatch]
      simp only [hab] at hr
      exact hanswer _ _ _ keys answer hr

end Sound

section Computes

variable {g : Json → Json} {name : String} {batch : BatchLoader} {s : Session} {l t : Loader}
  {call : Caller}

theorem sound_callWithin (hb : batch.Computes g) (depth : Nat) :
    Sound (Loader.Computed g) name batch (callWithin depth) := by
  refine sound_callWithin_of (fun call s environment keys answer hr => ?_) depth
  rw [hb.eq, Option.some.injEq] at hr
  exact hr.symm

theorem call_computes (hb : batch.Computes g) (depth : Nat) (h : s.Runs name batch l)
    (keys : List Json) : (callWithin (depth + 1) s name keys).2 = some (.ok (keys.map g)) := by
  obtain ⟨a, ha, hbatch, -⟩ := h
  rw [callWithin_succ, ha]
  simp only [hbatch, hb.eq]

theorem result?_mem {w : Nat} {r : Except LoaderError Json} (h : l.result? w = some r) :
    (w, r) ∈ l.settled := by
  obtain ⟨p, hp, rfl⟩ := Option.map_eq_some_iff.mp h
  have hw : p.1 = w := by simpa using List.find?_some hp
  rw [← hw]
  exact List.mem_of_find?_eq_some hp

theorem directResult_computed (l : Loader) (g : Json → Json) (key : Json) :
    l.directResult (.ok [g key]) = .ok (g key) := by
  simp [Loader.directResult, Loader.checkAnswer, Except.map]

theorem askBy_issued (hcall : Sound (Loader.Computed g) name batch call)
    (h : s.Runs name batch l) (hl : l.WellFormed) (hd : s.dropped = false) {ticket : Ticket}
    {key : Json} (ht : l.Issued g key ticket) {r : Except LoaderError Json}
    (hr : (askBy call s ticket).2 = some r) : r = .ok (g key) := by
  cases ticket with
  | answered value =>
    cases hr
    exact congrArg Except.ok ht
  | queued n w =>
    obtain ⟨hname, -, -, -, hsettled⟩ := ht
    have hs : s.loader? n = some l := by rw [hname, h.name_eq, h.loader?]
    simp only [askBy, hs, Option.bind_some, hd] at hr
    cases hw : l.result? w with
    | none => simp [hw] at hr
    | some r' =>
      simp only [hw, Option.some.injEq] at hr
      rw [← hr]
      exact hsettled r' (result?_mem hw)
  | direct n k =>
    obtain ⟨hname, -, rfl⟩ := ht
    have hn : n = name := hname.trans h.name_eq
    subst hn
    rw [askBy_direct] at hr
    obtain ⟨t, ht⟩ := leads_startDirect (P := Loader.Computed g) n h
    obtain ⟨⟨u, hu⟩, hanswer⟩ :=
      hcall (s.modify n fun l => l.countCalls 1 1) t n [k] ht.runs (ht.reach.wellFormed hl)
    cases hc : (call (s.modify n fun l => l.countCalls 1 1) n [k]).2 with
    | none => simp [hc] at hr
    | some answer =>
      have hans : answer = .ok [g k] := hanswer rfl answer hc
      rw [hc, hu.runs.loader?, hans] at hr
      simp only [directResult_computed, Option.some.injEq] at hr
      exact hr.symm

/-- The call for a chunk settles all waiters in it. -/
theorem chunk_settles (hb : batch.Computes g) (depth : Nat) {w : Nat} {c : Chunk}
    (hw : w ∈ waitersOf c.entries) (h : s.Runs name batch l) (hl : l.WellFormed)
    (hk : l.Knows c) (hin : c ∈ l.inFlight ∨ w ∈ l.settledWaiters)
    (ht : Session.Runs (match (callWithin (depth + 1) s name c.keys).2 with
      | some answer =>
        (callWithin (depth + 1) s name c.keys).1.modify name fun l => l.complete c.id answer
      | none => (callWithin (depth + 1) s name c.keys).1) name batch t) :
    w ∈ t.settledWaiters := by
  obtain ⟨⟨u, hu⟩, -⟩ := sound_callWithin hb (depth + 1) s l name c.keys h hl
  have hinu := hu.reach.chunk_settled hk hw hin
  rw [call_computes hb depth h c.keys] at ht
  simp only [modify, hu.runs.loader?] at ht
  have hname : (u.step (.complete c.id (.ok (c.keys.map g)))).name = name :=
    (u.effect_step _).name_eq.trans hu.runs.name_eq
  rw [ht.unique (hu.runs.update_self hname)]
  rcases hinu with hinu | hset
  · have hf := find?_key Chunk.id (hu.reach.wellFormed hl).chunkIds hinu
    simp only [Loader.complete_found hf, Loader.settledWaiters, List.map_append,
      map_fst_settlements (Loader.length_outcomes _)]
    exact List.mem_append_right _ hw
  · exact u.settledWaiters_step (.complete c.id (.ok (c.keys.map g))) hset

theorem runChunks_settles (hb : batch.Computes g) (depth : Nat) {w : Nat} {chunks : List Chunk}
    {c : Chunk} (hc : c ∈ chunks) (hw : w ∈ waitersOf c.entries) (h : s.Runs name batch l)
    (hl : l.WellFormed) (hk : ∀ d ∈ chunks, l.Knows d)
    (hin : c ∈ l.inFlight ∨ w ∈ l.settledWaiters)
    (ht : (runChunks (callWithin (depth + 1)) name s chunks).Runs name batch t) :
    w ∈ t.settledWaiters := by
  induction chunks generalizing s l with
  | nil => exact absurd hc List.not_mem_nil
  | cons d rest ih =>
    have hcall : Sound (Loader.Computed g) name batch _ := sound_callWithin hb (depth + 1)
    obtain ⟨u, hu⟩ := leads_chunk hcall h hl fun _ => hk d List.mem_cons_self
    have hku : ∀ e ∈ rest, u.Knows e := fun e he =>
      hu.reach.knows (hk e (List.mem_cons_of_mem d he))
    rw [runChunks_cons] at ht
    rcases List.mem_cons.mp hc with rfl | hc
    · obtain ⟨v, hv⟩ := leads_runChunks hcall name rest hu.runs (hu.reach.wellFormed hl)
        fun _ => hku
      rw [ht.unique hv.runs]
      exact hv.reach.settledWaiters_subset
        (chunk_settles hb depth hw h hl (hk c List.mem_cons_self) hin hu.runs)
    · -- The calls for earlier chunks may settle the waiter on the way, but they cannot lose it.
      exact ih hc hu.runs (hu.reach.wellFormed hl) hku
        (hu.reach.chunk_settled (hk c (List.mem_cons_of_mem d hc)) hw hin) ht

end Computes

end Session

end SchemaAssembly
