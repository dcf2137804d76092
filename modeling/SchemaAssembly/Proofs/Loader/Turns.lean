import SchemaAssembly.Proofs.Loader.Dispatching

/-!
Dispatches of the loaders of a session one after the other, where batch functions use no loader. A
dispatch changes its own loader only, and any time may pass until the next one; a predicate is asked
at the time of its turn.
-/

set_option autoImplicit false

namespace SchemaAssembly

/-- A batch function that uses no loader. -/
def BatchLoader.Idle (batch : BatchLoader) : Prop :=
  ∀ environment keys, ∃ answer, batch.load environment keys = .done answer

/-- Whether the loader is dispatched with the ready ones, where its predicate is asked at this
time. -/
def ActiveLoader.readyAt (a : ActiveLoader) (now : Nat) : Bool :=
  a.predicate.all fun p => p.holds a.state now

/-- A loader and the number of a reading of the clock, at which it is asked whether it is ready,
or its dispatch starts. -/
structure Turn where
  loader : ActiveLoader
  reading : Nat

def Turn.name (t : Turn) : String := t.loader.state.name

namespace Session

variable {s : Session} {name : String} {a b : ActiveLoader} {next : Loader}

def traits (s : Session) : List (String × BatchLoader × Option DispatchPredicate) :=
  s.loaders.map fun a => (a.state.name, a.batch, a.predicate)

theorem names_eq_of_traits (s : Session) : s.names = s.traits.map (·.1) := by
  simp [names, traits]

theorem defaultGroup_eq_of_traits (s : Session) :
    s.defaultGroup = (s.traits.filter fun p => p.2.2.isNone).map (·.1) := by
  simp [defaultGroup, traits, List.filter_map, Function.comp_def]

theorem idle_iff_traits :
    (∀ a ∈ s.loaders, a.batch.Idle) ↔ ∀ p ∈ s.traits, p.2.1.Idle := by
  simp [traits]

theorem traits_update (s : Session) (next : Loader) : (s.update next).traits = s.traits := by
  simp only [traits, update, List.map_map]
  refine List.map_congr_left fun a _ => ?_
  by_cases ha : a.state.name = next.name <;> simp [ha]

theorem names_update (s : Session) (next : Loader) : (s.update next).names = s.names := by
  rw [names_eq_of_traits, traits_update, ← names_eq_of_traits]

theorem find?_eq_some_iff (hn : s.names.Nodup) :
    s.find? name = some a ↔ a ∈ s.loaders ∧ a.state.name = name := by
  constructor
  · intro h
    exact ⟨List.mem_of_find?_eq_some h, by simpa using List.find?_some h⟩
  · rintro ⟨ha, rfl⟩
    exact find?_key (fun a : ActiveLoader => a.state.name) hn ha

theorem eq_of_name (hn : s.names.Nodup) (ha : a ∈ s.loaders) (hb : b ∈ s.loaders)
    (h : a.state.name = b.state.name) : a = b :=
  List.inj_on_of_nodup_map hn ha hb h

theorem update_update (s : Session) (next last : Loader) (h : next.name = last.name) :
    (s.update next).update last = s.update last := by
  simp only [update, List.map_map, Session.mk.injEq, and_true]
  refine List.map_congr_left fun a _ => ?_
  by_cases ha : a.state.name = last.name <;> simp [ha, h]

theorem update_self (hn : s.names.Nodup) (ha : a ∈ s.loaders) : s.update a.state = s := by
  have hsame : (s.loaders.map fun b =>
      if b.state.name = a.state.name then { b with state := a.state } else b) = s.loaders := by
    refine (List.map_congr_left fun b hb => ?_).trans (List.map_id _)
    by_cases hname : b.state.name = a.state.name
    · simp [eq_of_name hn hb ha hname]
    · simp [hname]
  rw [update, hsame]

theorem mem_update (ha : a ∈ s.loaders) (h : next.name = a.state.name) :
    { a with state := next } ∈ (s.update next).loaders :=
  List.mem_map.mpr ⟨a, ha, if_pos h.symm⟩

def answer (s : Session) (a : ActiveLoader) (keys : List Json) :
    Except HandlerError (List Json) :=
  (a.batch.load (s.environment a) keys).value?.getD (.ok [])

theorem load_eq_answer (ha : a.batch.Idle) (s : Session) (keys : List Json) :
    a.batch.load (s.environment a) keys = .done (s.answer a keys) := by
  obtain ⟨answer, h⟩ := ha (s.environment a) keys
  rw [Session.answer, h]
  rfl

/-- Answers do not depend on the states of loaders, on the time and on the calls so far. -/
theorem answer_congr {loaders : List ActiveLoader} {calls : List (String × List Json)}
    (clock : Clock) (next : Loader) (hnames : loaders.map (·.state.name) = s.names)
    (h : next.name = a.state.name) :
    ({ s with loaders := loaders, clock := clock, calls := calls } : Session).answer
      { a with state := next } = s.answer a := by
  funext keys
  have henv : ({ s with loaders := loaders, clock := clock, calls := calls } : Session).environment
      { a with state := next } = s.environment a := by
    simp only [environment, names, h, hnames]
  rw [answer, answer, henv]

def endAll (answer : List Json → Except HandlerError (List Json)) (l : Loader) : List Chunk → Loader
  | [] => l
  | c :: rest => endAll answer (l.complete c.id (answer c.keys)) rest

theorem name_endAll (answer : List Json → Except HandlerError (List Json)) (chunks : List Chunk)
    (l : Loader) : (endAll answer l chunks).name = l.name := by
  induction chunks generalizing l with
  | nil => rfl
  | cons c rest ih => rw [endAll, ih, (l.effect_complete c.id _).name_eq]

theorem queue_endAll (answer : List Json → Except HandlerError (List Json)) (chunks : List Chunk)
    (l : Loader) : (endAll answer l chunks).queue = l.queue := by
  induction chunks generalizing l with
  | nil => rfl
  | cons c rest ih =>
    rw [endAll, ih]
    cases hf : l.inFlight.find? fun d => d.id == c.id with
    | none => rw [Loader.complete_missing hf]
    | some d => rw [Loader.complete_found hf]

def callsFor (a : ActiveLoader) (chunks : List Chunk) : List (String × List Json) :=
  chunks.map fun c => (a.batch.label, c.keys)

theorem callWithin_idle (ha : a.batch.Idle) (h : s.find? name = some a) (depth : Nat)
    (keys : List Json) :
    callWithin (depth + 1) s name keys =
      ({ s with calls := s.calls ++ [(a.batch.label, keys)] }, some (s.answer a keys)) := by
  have hload := load_eq_answer ha s keys
  rw [callWithin_succ, h]
  simp only [hload, advanceBy, Work.value?]

/-- The call for a chunk settles it, and is noted. -/
theorem runChunks_cons_idle (ha : a.batch.Idle) (h : s.find? name = some a) (depth : Nat)
    (c : Chunk) (rest : List Chunk) :
    runChunks (callWithin (depth + 1)) name s (c :: rest) =
      runChunks (callWithin (depth + 1)) name
        { s.update (a.state.complete c.id (s.answer a c.keys)) with
          calls := s.calls ++ [(a.batch.label, c.keys)] } rest := by
  have hloader : ({ s with calls := s.calls ++ [(a.batch.label, c.keys)] } : Session).loader?
      name = some a.state := congrArg (Option.map ActiveLoader.state) h
  rw [runChunks_cons, callWithin_idle ha h]
  simp only [modify, hloader]
  rfl

theorem runChunks_idle (hn : s.names.Nodup) (ha : a.batch.Idle) (hmem : a ∈ s.loaders)
    (depth : Nat) (chunks : List Chunk) :
    runChunks (callWithin (depth + 1)) a.state.name s chunks =
      { s.update (endAll (s.answer a) a.state chunks) with
        calls := s.calls ++ callsFor a chunks } := by
  induction chunks generalizing s a with
  | nil => simp [runChunks, endAll, callsFor, update_self hn hmem]
  | cons c rest ih =>
    have hfind : s.find? a.state.name = some a := (find?_eq_some_iff hn).mpr ⟨hmem, rfl⟩
    have hname := (a.state.effect_complete c.id (s.answer a c.keys)).name_eq
    rw [runChunks_cons_idle ha hfind]
    generalize hl : a.state.complete c.id (s.answer a c.keys) = l at hname ⊢
    have hnames : (s.update l).names = s.names := names_update s l
    have hrest := ih (s := { s.update l with calls := s.calls ++ [(a.batch.label, c.keys)] })
      (a := { a with state := l }) (hnames ▸ hn) ha (mem_update hmem hname)
    have hanswer : ({ s.update l with calls := s.calls ++ [(a.batch.label, c.keys)] } :
        Session).answer { a with state := l } = s.answer a :=
      answer_congr s.clock _ hnames hname
    have hupdate := update_update s l (endAll (s.answer a) l rest) (name_endAll _ _ _).symm
    rw [hname, hanswer] at hrest
    rw [hrest, endAll, hl]
    simp only [update, callsFor, List.map_cons, Session.mk.injEq, List.append_assoc] at hupdate ⊢
    simp [hupdate.1]

def dispatched (s : Session) (a : ActiveLoader) (reading : Nat) : ActiveLoader :=
  { a with
    state := endAll (s.answer a) (a.state.step (.start (s.clock.shows reading)))
      a.state.nextChunks }

theorem name_dispatched (s : Session) (a : ActiveLoader) (reading : Nat) :
    (s.dispatched a reading).state.name = a.state.name := by
  rw [dispatched, name_endAll, (a.state.effect_step (.start _)).name_eq]

theorem queue_dispatched (s : Session) (a : ActiveLoader) (reading : Nat) :
    (s.dispatched a reading).state.queue = [] := by
  simp only [dispatched, queue_endAll, Loader.step, Loader.startDispatch_eq]

/-- What the turns make of a loader of the session. -/
def afterTurn (s : Session) (turns : List Turn) (a : ActiveLoader) : ActiveLoader :=
  match turns.find? fun t => t.name == a.state.name with
  | some t => s.dispatched a t.reading
  | none => a

/-- The session after the turns of some loaders, with the clock read this many times. -/
def afterTurns (s : Session) (turns : List Turn) (reads : Nat) : Session :=
  { s with
    loaders := s.loaders.map (s.afterTurn turns)
    clock := { s.clock with reads := reads }
    calls := s.calls ++ turns.flatMap fun t => callsFor t.loader t.loader.state.nextChunks }

theorem name_afterTurn (s : Session) (turns : List Turn) (a : ActiveLoader) :
    (s.afterTurn turns a).state.name = a.state.name := by
  unfold afterTurn
  split
  · exact name_dispatched s a _
  · rfl

theorem afterTurn_of_notMem {turns : List Turn} (h : a.state.name ∉ turns.map Turn.name) :
    s.afterTurn turns a = a := by
  have hfind : (turns.find? fun t => t.name == a.state.name) = none := by
    rw [List.find?_eq_none]
    intro t ht hname
    exact h (List.mem_map.mpr ⟨t, ht, by simpa using hname⟩)
  rw [afterTurn, hfind]

theorem afterTurn_of_mem {turns : List Turn} {u : Turn} (hn : (turns.map Turn.name).Nodup)
    (h : u ∈ turns) : s.afterTurn turns u.loader = s.dispatched u.loader u.reading := by
  have hfind : (turns.find? fun t => t.name == u.loader.state.name) = some u :=
    find?_key Turn.name hn h
  rw [afterTurn, hfind]

/-- A dispatch changes its own loader only, and reads the clock once. -/
theorem dispatch_idle (hn : s.names.Nodup) (ha : a.batch.Idle) (hmem : a ∈ s.loaders) :
    s.dispatch a.state.name =
      (s.afterTurns [⟨a, s.clock.reads⟩] (s.clock.reads + 1), some a.state.depth) := by
  have hfind : s.find? a.state.name = some a := (find?_eq_some_iff hn).mpr ⟨hmem, rfl⟩
  have hname : (a.state.step (.start s.now)).name = a.state.name :=
    (a.state.effect_step (.start s.now)).name_eq
  have hnames : (s.tick.update (a.state.step (.start s.now))).names = s.names :=
    names_update s.tick (a.state.step (.start s.now))
  have hrun := runChunks_idle (s := s.tick.update (a.state.step (.start s.now)))
    (a := { a with state := a.state.step (.start s.now) }) (hnames ▸ hn) ha
    (mem_update (s := s.tick) hmem hname) s.loaders.length a.state.nextChunks
  have hanswer : (s.tick.update (a.state.step (.start s.now))).answer
      { a with state := a.state.step (.start s.now) } = s.answer a :=
    answer_congr s.clock.next _ hnames hname
  have hupdate := update_update s.tick (a.state.step (.start s.now))
    (s.dispatched a s.clock.reads).state (hname.trans (name_dispatched s a _).symm)
  have hloaders : (s.tick.update (s.dispatched a s.clock.reads).state).loaders =
      s.loaders.map (s.afterTurn [⟨a, s.clock.reads⟩]) := by
    refine List.map_congr_left fun b hb => ?_
    simp only [name_dispatched]
    by_cases hb' : b.state.name = a.state.name
    · obtain rfl := eq_of_name hn hb hmem hb'
      simp [afterTurn, Turn.name, dispatched]
    · rw [if_neg hb', afterTurn_of_notMem (by simpa [Turn.name] using hb')]
  rw [hname, hanswer] at hrun
  rw [dispatch, dispatchBy_eq _ ⟨a, hfind, rfl, rfl⟩, call, hrun]
  refine Prod.ext_iff.mpr ⟨?_, rfl⟩
  refine (congrArg (fun u : Session =>
    { u with calls := s.calls ++ callsFor a a.state.nextChunks }) hupdate).trans ?_
  simp only [update, tick] at hloaders ⊢
  simp only [afterTurns, hloaders, List.flatMap_singleton]
  rfl

theorem names_afterTurns (s : Session) (turns : List Turn) (reads : Nat) :
    (s.afterTurns turns reads).names = s.names := by
  simp only [names, afterTurns, List.map_map]
  exact List.map_congr_left fun a _ => name_afterTurn s turns a

theorem traits_afterTurns (s : Session) (turns : List Turn) (reads : Nat) :
    (s.afterTurns turns reads).traits = s.traits := by
  simp only [traits, afterTurns, List.map_map]
  refine List.map_congr_left fun a _ => ?_
  have hname := name_afterTurn s turns a
  rw [Function.comp_apply, hname]
  unfold afterTurn
  split <;> rfl

theorem defaultGroup_afterTurns (s : Session) (turns : List Turn) (reads : Nat) :
    (s.afterTurns turns reads).defaultGroup = s.defaultGroup := by
  rw [defaultGroup_eq_of_traits, traits_afterTurns, ← defaultGroup_eq_of_traits]

theorem idle_afterTurns (h : ∀ a ∈ s.loaders, a.batch.Idle) (turns : List Turn) (reads : Nat) :
    ∀ a ∈ (s.afterTurns turns reads).loaders, a.batch.Idle := by
  rw [idle_iff_traits] at h
  rw [idle_iff_traits, traits_afterTurns]
  exact h

theorem dispatched_afterTurns (s : Session) (turns : List Turn) (reads : Nat) (a : ActiveLoader)
    (reading : Nat) : (s.afterTurns turns reads).dispatched a reading = s.dispatched a reading := by
  have hanswer : (s.afterTurns turns reads).answer a = s.answer a :=
    answer_congr _ a.state (names_afterTurns s turns reads) rfl
  rw [dispatched, dispatched, hanswer]
  rfl

theorem mem_afterTurns {turns : List Turn} (ha : a ∈ s.loaders)
    (h : a.state.name ∉ turns.map Turn.name) (reads : Nat) :
    a ∈ (s.afterTurns turns reads).loaders :=
  List.mem_map.mpr ⟨a, ha, afterTurn_of_notMem h⟩

theorem find?_afterTurns (hn : s.names.Nodup) (ha : a ∈ s.loaders) (turns : List Turn)
    (reads : Nat) :
    (s.afterTurns turns reads).find? a.state.name = some (s.afterTurn turns a) :=
  (find?_eq_some_iff ((names_afterTurns s turns reads).symm ▸ hn)).mpr
    ⟨List.mem_map.mpr ⟨a, ha, rfl⟩, name_afterTurn s turns a⟩

@[simp] theorem shows_afterTurns (s : Session) (turns : List Turn) (reads : Nat) :
    (s.afterTurns turns reads).clock.shows = s.clock.shows := rfl

@[simp] theorem reads_afterTurns (s : Session) (turns : List Turn) (reads : Nat) :
    (s.afterTurns turns reads).clock.reads = reads := rfl

def atReading (s : Session) (reads : Nat) : Session :=
  { s with clock := { s.clock with reads := reads } }

@[simp] theorem afterTurns_nil (s : Session) (reads : Nat) :
    s.afterTurns [] reads = s.atReading reads := by
  have hloaders : s.loaders.map (s.afterTurn []) = s.loaders := List.map_id _
  simp [afterTurns, atReading, hloaders]

/-- The turns of other loaders follow. -/
theorem afterTurns_append {xs ys : List Turn} (h : ∀ t ∈ ys, t.name ∉ xs.map Turn.name)
    (n m : Nat) : (s.afterTurns xs n).afterTurns ys m = s.afterTurns (xs ++ ys) m := by
  have hturn : ∀ a, (s.afterTurns xs n).afterTurn ys (s.afterTurn xs a) =
      s.afterTurn (xs ++ ys) a := by
    intro a
    by_cases hx : a.state.name ∈ xs.map Turn.name
    · have hy : (s.afterTurn xs a).state.name ∉ ys.map Turn.name := by
        rw [name_afterTurn]
        intro hmem
        obtain ⟨t, ht, hname⟩ := List.mem_map.mp hmem
        exact h t ht (hname ▸ hx)
      obtain ⟨u, hu, hname⟩ := List.mem_map.mp hx
      have hfind : (xs.find? fun t => t.name == a.state.name).isSome := by
        rw [List.find?_isSome]
        exact ⟨u, hu, by simp [hname]⟩
      rw [afterTurn_of_notMem hy, afterTurn, afterTurn, List.find?_append]
      obtain ⟨t, ht⟩ := Option.isSome_iff_exists.mp hfind
      rw [ht, Option.some_or]
    · have hfind : (xs.find? fun t => t.name == a.state.name) = none := by
        rw [List.find?_eq_none]
        intro t ht hname
        exact hx (List.mem_map.mpr ⟨t, ht, by simpa using hname⟩)
      rw [afterTurn_of_notMem hx, afterTurn, afterTurn, List.find?_append, hfind, Option.none_or]
      simp only [dispatched_afterTurns]
  have hloaders : (s.afterTurns xs n).loaders.map ((s.afterTurns xs n).afterTurn ys) =
      s.loaders.map (s.afterTurn (xs ++ ys)) := by
    rw [afterTurns, List.map_map]
    exact List.map_congr_left fun a _ => hturn a
  rw [afterTurns, hloaders]
  simp [afterTurns]

def turnsFrom : Nat → List ActiveLoader → List Turn
  | _, [] => []
  | n, a :: rest => ⟨a, n⟩ :: turnsFrom (n + 1) rest

theorem map_loader_turnsFrom (n : Nat) (order : List ActiveLoader) :
    (turnsFrom n order).map (·.loader) = order := by
  induction order generalizing n with
  | nil => rfl
  | cons a rest ih => rw [turnsFrom, List.map_cons, ih]

theorem map_name_turns (turns : List Turn) :
    turns.map Turn.name = (turns.map (·.loader)).map (·.state.name) := by
  rw [List.map_map]
  rfl

theorem map_depth_turns (turns : List Turn) :
    turns.map (·.loader.state.depth) = (turns.map (·.loader)).map (·.state.depth) := by
  rw [List.map_map]
  rfl

theorem reading_turnsFrom {n : Nat} {order : List ActiveLoader} {t : Turn}
    (h : t ∈ turnsFrom n order) : n ≤ t.reading ∧ t.reading < n + order.length := by
  induction order generalizing n with
  | nil => exact absurd h List.not_mem_nil
  | cons a rest ih =>
    rw [List.length_cons]
    rcases List.mem_cons.mp h with rfl | h
    · exact ⟨Nat.le_refl n, Nat.lt_add_of_pos_right (Nat.succ_pos _)⟩
    · obtain ⟨hle, hlt⟩ := ih h
      exact ⟨by omega, by omega⟩

theorem pairwise_turnsFrom (n : Nat) (order : List ActiveLoader) :
    (turnsFrom n order).Pairwise fun t u => t.reading < u.reading := by
  induction order generalizing n with
  | nil => exact .nil
  | cons a rest ih => exact .cons (fun t ht => (reading_turnsFrom ht).1) (ih (n + 1))

section Order

variable {order : List ActiveLoader}

theorem subset_afterTurns {turns : List Turn} (hmem : a :: order ⊆ s.loaders)
    (horder : ((a :: order).map (·.state.name)).Nodup) (hturns : ∀ t ∈ turns, t.loader = a)
    (reads : Nat) : order ⊆ (s.afterTurns turns reads).loaders := by
  intro b hb
  refine mem_afterTurns (hmem (List.mem_cons_of_mem a hb)) (fun hname => ?_) reads
  obtain ⟨t, ht, heq⟩ := List.mem_map.mp hname
  rw [Turn.name, hturns t ht] at heq
  exact (List.nodup_cons.mp horder).1 (List.mem_map.mpr ⟨b, hb, heq.symm⟩)

theorem name_notMem_of_order {turns later : List Turn}
    (horder : ((a :: order).map (·.state.name)).Nodup) (hturns : ∀ t ∈ turns, t.loader = a)
    (hlater : ∀ t ∈ later, t.loader ∈ order) : ∀ t ∈ later, t.name ∉ turns.map Turn.name := by
  intro t ht hname
  obtain ⟨u, hu, heq⟩ := List.mem_map.mp hname
  rw [Turn.name, hturns u hu] at heq
  exact (List.nodup_cons.mp horder).1 (List.mem_map.mpr ⟨t.loader, hlater t ht, heq.symm⟩)

theorem dispatchEach_idle (hn : s.names.Nodup) (hidle : ∀ a ∈ s.loaders, a.batch.Idle)
    (hmem : order ⊆ s.loaders) (horder : (order.map (·.state.name)).Nodup) :
    s.dispatchEach (order.map (·.state.name)) =
      (s.afterTurns (turnsFrom s.clock.reads order) (s.clock.reads + order.length),
        (order.map (·.state.depth)).sum) := by
  induction order generalizing s with
  | nil => simp [dispatchEach, turnsFrom, atReading]
  | cons a rest ih =>
    have ha := hmem List.mem_cons_self
    have hself : ∀ t ∈ [(⟨a, s.clock.reads⟩ : Turn)], t.loader = a := by simp
    have hlater : ∀ t ∈ turnsFrom (s.clock.reads + 1) rest, t.loader ∈ rest := fun t ht =>
      map_loader_turnsFrom (s.clock.reads + 1) rest ▸ List.mem_map_of_mem ht
    have hrest := ih (s := s.afterTurns [⟨a, s.clock.reads⟩] (s.clock.reads + 1))
      ((names_afterTurns s _ _).symm ▸ hn) (idle_afterTurns hidle _ _)
      (subset_afterTurns hmem horder hself _) (List.nodup_cons.mp horder).2
    rw [reads_afterTurns, afterTurns_append (name_notMem_of_order horder hself hlater)] at hrest
    rw [List.map_cons, dispatchEach, dispatch_idle hn (hidle a ha) ha]
    simp only [hrest, turnsFrom, List.length_cons, List.map_cons, List.sum_cons, Option.getD_some,
      List.singleton_append, Nat.add_assoc, Nat.add_comm 1]

theorem isReady_eq (hn : s.names.Nodup) (ha : a ∈ s.loaders) (hp : a.predicate.isSome = true) :
    s.isReady a.state.name = a.readyAt s.now := by
  obtain ⟨p, hp⟩ := Option.isSome_iff_exists.mp hp
  simp [isReady, (find?_eq_some_iff hn).mpr ⟨ha, rfl⟩, ActiveLoader.readyAt, hp]

/-- The reading at which the next loader is asked: if this one is ready, it is dispatched first. -/
def nextAsk (shows : Nat → Nat) (n : Nat) (a : ActiveLoader) : Nat :=
  if a.readyAt (shows n) then n + 2 else n + 1

/-- Loaders that are asked one after the other whether they are ready. -/
def asks (shows : Nat → Nat) : Nat → List ActiveLoader → List Turn
  | _, [] => []
  | n, a :: rest => ⟨a, n⟩ :: asks shows (nextAsk shows n a) rest

def readyTurns (shows : Nat → Nat) (asked : List Turn) : List Turn :=
  (asked.filter fun t => t.loader.readyAt (shows t.reading)).map fun t =>
    ⟨t.loader, t.reading + 1⟩

theorem lt_nextAsk (shows : Nat → Nat) (n : Nat) (a : ActiveLoader) : n < nextAsk shows n a := by
  unfold nextAsk
  split <;> omega

theorem map_loader_asks (shows : Nat → Nat) (n : Nat) (order : List ActiveLoader) :
    (asks shows n order).map (·.loader) = order := by
  induction order generalizing n with
  | nil => rfl
  | cons a rest ih => rw [asks, List.map_cons, ih]

theorem le_foldl_nextAsk (shows : Nat → Nat) (n : Nat) (order : List ActiveLoader) :
    n ≤ order.foldl (nextAsk shows) n := by
  induction order generalizing n with
  | nil => exact Nat.le_refl n
  | cons a rest ih => exact Nat.le_trans (Nat.le_of_lt (lt_nextAsk shows n a)) (ih _)

/-- A loader is asked after the call began, and its turn is over when the call ends. -/
theorem reading_asks {shows : Nat → Nat} {n : Nat} {t : Turn} (h : t ∈ asks shows n order) :
    n ≤ t.reading ∧ nextAsk shows t.reading t.loader ≤ order.foldl (nextAsk shows) n := by
  induction order generalizing n with
  | nil => exact absurd h List.not_mem_nil
  | cons a rest ih =>
    rcases List.mem_cons.mp h with rfl | h
    · exact ⟨Nat.le_refl n, le_foldl_nextAsk shows _ rest⟩
    · obtain ⟨hle, hend⟩ := ih h
      exact ⟨Nat.le_trans (Nat.le_of_lt (lt_nextAsk shows n a)) hle, hend⟩

/-- The turn of a loader is over when the next one is asked. -/
theorem pairwise_asks (shows : Nat → Nat) (n : Nat) (order : List ActiveLoader) :
    (asks shows n order).Pairwise fun t u => nextAsk shows t.reading t.loader ≤ u.reading := by
  induction order generalizing n with
  | nil => exact .nil
  | cons a rest ih => exact .cons (fun t ht => (reading_asks ht).1) (ih _)

theorem mem_readyTurns {shows : Nat → Nat} {asked : List Turn} {t : Turn} :
    t ∈ readyTurns shows asked ↔ ∃ u ∈ asked, u.loader.readyAt (shows u.reading) = true ∧
      t = ⟨u.loader, u.reading + 1⟩ := by
  constructor
  · intro h
    obtain ⟨u, hu, rfl⟩ := List.mem_map.mp h
    obtain ⟨hmem, hready⟩ := List.mem_filter.mp hu
    exact ⟨u, hmem, hready, rfl⟩
  · rintro ⟨u, hmem, hready, rfl⟩
    exact List.mem_map.mpr ⟨u, List.mem_filter.mpr ⟨hmem, hready⟩, rfl⟩

theorem readyTurns_cons (shows : Nat → Nat) (t : Turn) (asked : List Turn) :
    readyTurns shows (t :: asked) = readyTurns shows [t] ++ readyTurns shows asked := by
  cases h : t.loader.readyAt (shows t.reading) <;> simp [readyTurns, h]

theorem askAndDispatch_idle (hn : s.names.Nodup) (ha : a.batch.Idle) (hmem : a ∈ s.loaders)
    (hp : a.predicate.isSome = true) :
    (if s.isReady a.state.name then s.tick.dispatch a.state.name else (s.tick, none)) =
      (s.afterTurns (readyTurns s.clock.shows [⟨a, s.clock.reads⟩])
          (nextAsk s.clock.shows s.clock.reads a),
        if a.readyAt s.now then some a.state.depth else none) := by
  rw [isReady_eq hn hmem hp]
  by_cases hr : a.readyAt s.now = true
  · have hr' : a.readyAt (s.clock.shows s.clock.reads) = true := hr
    have htick : s.tick = s.afterTurns [] (s.clock.reads + 1) := (afterTurns_nil s _).symm
    have hdispatch := dispatch_idle (s := s.tick) hn ha hmem
    rw [if_pos hr, if_pos hr, hdispatch, htick, afterTurns_append (by simp)]
    simp [readyTurns, nextAsk, hr', atReading]
  · have hr' : ¬ a.readyAt (s.clock.shows s.clock.reads) = true := hr
    rw [if_neg hr, if_neg hr]
    simp [readyTurns, nextAsk, hr']
    rfl

theorem dispatchGroups_idle (hn : s.names.Nodup) (hidle : ∀ a ∈ s.loaders, a.batch.Idle)
    (hmem : order ⊆ s.loaders) (horder : (order.map (·.state.name)).Nodup)
    (hp : ∀ a ∈ order, a.predicate.isSome = true) :
    s.dispatchGroups (order.map (·.state.name)) =
      (s.afterTurns (readyTurns s.clock.shows (asks s.clock.shows s.clock.reads order))
          (order.foldl (nextAsk s.clock.shows) s.clock.reads),
        ((readyTurns s.clock.shows (asks s.clock.shows s.clock.reads order)).map
          (·.loader.state.depth)).sum) := by
  induction order generalizing s with
  | nil => simp [dispatchGroups, asks, readyTurns, atReading]
  | cons a rest ih =>
    have ha := hmem List.mem_cons_self
    have hself : ∀ t ∈ readyTurns s.clock.shows [⟨a, s.clock.reads⟩], t.loader = a := by
      intro t ht
      obtain ⟨u, hu, -, rfl⟩ := mem_readyTurns.mp ht
      rw [List.mem_singleton.mp hu]
    have hlater : ∀ t ∈ readyTurns s.clock.shows (asks s.clock.shows
        (nextAsk s.clock.shows s.clock.reads a) rest), t.loader ∈ rest := by
      intro t ht
      obtain ⟨u, hu, -, rfl⟩ := mem_readyTurns.mp ht
      exact map_loader_asks s.clock.shows _ rest ▸ List.mem_map.mpr ⟨u, hu, rfl⟩
    have hrest := ih (s := s.afterTurns (readyTurns s.clock.shows [⟨a, s.clock.reads⟩])
        (nextAsk s.clock.shows s.clock.reads a))
      ((names_afterTurns s _ _).symm ▸ hn) (idle_afterTurns hidle _ _)
      (subset_afterTurns hmem horder hself _) (List.nodup_cons.mp horder).2
      fun b hb => hp b (List.mem_cons_of_mem a hb)
    rw [shows_afterTurns, reads_afterTurns,
      afterTurns_append (name_notMem_of_order horder hself hlater)] at hrest
    have hsum : (if a.readyAt s.now then some a.state.depth else none).getD 0 =
        ((readyTurns s.clock.shows [⟨a, s.clock.reads⟩]).map (·.loader.state.depth)).sum := by
      by_cases hr : a.readyAt (s.clock.shows s.clock.reads) = true <;>
        simp [readyTurns, hr, now, Clock.now]
    rw [List.map_cons, dispatchGroups,
      askAndDispatch_idle hn (hidle a ha) ha (hp a List.mem_cons_self)]
    simp only [hrest, hsum, asks, List.foldl_cons]
    rw [readyTurns_cons s.clock.shows _ (asks _ _ rest), List.map_append, List.sum_append]

end Order

end Session

end SchemaAssembly
