import SchemaAssembly.Proofs.Assembly.Registering
import SchemaAssembly.Proofs.Loader.Turns

/-!
The loaders of a request in groups. Loaders with a predicate and loaders without one are together
all loaders of the table, so dispatching all of them reaches each loader once. Dispatching the ready
ones asks each predicate when its turn comes: the loaders before it were dispatched by then, and
time has passed, but its own loader is as it was.
-/

set_option autoImplicit false

namespace SchemaAssembly

/-- The tables into which these definitions were registered, in this order. -/
inductive LoaderTable.Registers : LoaderTable → List LoaderDefinition → Prop where
  | start (instrumentation : List LoaderInstrumentation) :
      Registers { instrumentation := instrumentation } []
  | register {t t' : LoaderTable} {ds : List LoaderDefinition} {d : LoaderDefinition}
      (h : Registers t ds) (hd : t.register d = .ok t') : Registers t' (ds ++ [d])

theorem LoaderTable.register_eq_ok_iff {t t' : LoaderTable} {d : LoaderDefinition} :
    t.register d = .ok t' ↔
      d.name ∉ t.names ∧ t' = { t with definitions := t.definitions ++ [d] } := by
  rw [← LoaderTable.get?_eq_none_iff, LoaderTable.register]
  cases t.get? d.name with
  | none => simp [eq_comm]
  | some first => simp

theorem LoaderTable.Registers.definitions_eq {t : LoaderTable} {ds : List LoaderDefinition}
    (h : t.Registers ds) : t.definitions = ds := by
  induction h with
  | start => rfl
  | register _ hd ih => rw [(register_eq_ok_iff.mp hd).2, ih]

theorem LoaderTable.Registers.nodup {t : LoaderTable} {ds : List LoaderDefinition}
    (h : t.Registers ds) : (ds.map (·.name)).Nodup := by
  induction h with
  | start => exact List.nodup_nil
  | register h hd ih =>
    have hnew := (register_eq_ok_iff.mp hd).1
    rw [names, h.definitions_eq] at hnew
    rw [List.map_append, List.map_singleton, List.nodup_append]
    refine ⟨ih, List.nodup_singleton _, ?_⟩
    intro a ha b hb hab
    rw [hab, List.mem_singleton.mp hb] at ha
    exact hnew ha

/-- The predicate looks at its own loader only, and not at the clock. -/
def DispatchPredicate.Steady (p : DispatchPredicate) : Prop :=
  ∀ l now later, p.holds l now = p.holds l later

theorem ActiveLoader.readyAt_of_steady {a : ActiveLoader} (h : ∀ p ∈ a.predicate, p.Steady)
    (now later : Nat) : a.readyAt now = a.readyAt later := by
  cases hp : a.predicate with
  | none => simp [readyAt, hp]
  | some p => simpa [readyAt, hp] using h p hp a.state now later

namespace Session

/-- The sessions of a table: its loaders took any steps, calls were noted and time went by. -/
inductive Reachable (t : LoaderTable) : Session → Prop where
  | start (clock : Clock) (context : RequestContext) : Reachable t (ofTable t clock context)
  | step {s : Session} (h : Reachable t s) (name : String) (a : LoaderStep) :
      Reachable t (s.modify name fun l => l.step a)
  | called {s : Session} (h : Reachable t s) (label : String) (keys : List Json) :
      Reachable t { s with calls := s.calls ++ [(label, keys)] }
  | dropped {s : Session} (h : Reachable t s) : Reachable t s.drop
  | ticked {s : Session} (h : Reachable t s) : Reachable t s.tick

variable {s : Session} {t : LoaderTable} {name : String} {a b : ActiveLoader}
  {chosen other : ActiveLoader → Bool} {turns : List Turn} {r : Session × Nat}

/-- What becomes of a session when the chosen loaders are dispatched, each of them once. -/
structure DispatchesOnce (s : Session) (chosen : ActiveLoader → Bool) (turns : List Turn)
    (r : Session × Nat) : Prop where
  /-- Each chosen loader has one turn, and the turns come one after the other during the call. -/
  reaches : (turns.map (·.loader)).Perm (s.loaders.filter chosen)
  inTurn : turns.Pairwise fun t u => t.reading < u.reading
  within : ∀ t ∈ turns, s.clock.reads ≤ t.reading ∧ t.reading < r.1.clock.reads
  /-- Each batch function is called for the chunks of its own queue. -/
  calls : r.1.calls = s.calls ++ turns.flatMap fun t => callsFor t.loader t.loader.state.nextChunks
  number : r.2 = ((s.loaders.filter chosen).map (·.state.depth)).sum
  names : r.1.names = s.names
  /-- A chosen loader is as a dispatch of it alone leaves it, at the time of its turn. -/
  taken : ∀ t ∈ turns, r.1.find? t.name =
      ((s.atReading t.reading).dispatch t.name).1.find? t.name ∧
    ∃ b, r.1.find? t.name = some b ∧ b.state.queue = []
  others : ∀ a ∈ s.loaders, chosen a = false → r.1.find? a.state.name = some a

theorem DispatchesOnce.congr (h : DispatchesOnce s chosen turns r)
    (heq : ∀ a ∈ s.loaders, chosen a = other a) : DispatchesOnce s other turns r := by
  have hfilter : s.loaders.filter chosen = s.loaders.filter other := List.filter_congr heq
  exact { h with
    reaches := hfilter ▸ h.reaches
    number := hfilter ▸ h.number
    others := fun a ha hother => h.others a ha (heq a ha ▸ hother) }

theorem dispatchesOnce (hn : s.names.Nodup) (hidle : ∀ a ∈ s.loaders, a.batch.Idle) {reads : Nat}
    (hreaches : (turns.map (·.loader)).Perm (s.loaders.filter chosen))
    (hturn : turns.Pairwise fun t u => t.reading < u.reading)
    (hwithin : ∀ t ∈ turns, s.clock.reads ≤ t.reading ∧ t.reading < reads) :
    DispatchesOnce s chosen turns
      (s.afterTurns turns reads, (turns.map (·.loader.state.depth)).sum) := by
  have hmem : ∀ t ∈ turns, t.loader ∈ s.loaders ∧ chosen t.loader = true := fun t ht =>
    List.mem_filter.mp (hreaches.mem_iff.mp (List.mem_map.mpr ⟨t, ht, rfl⟩))
  have hnodup : (turns.map Turn.name).Nodup := by
    rw [map_name_turns]
    exact (hreaches.map _).nodup_iff.mpr (hn.sublist (List.filter_sublist.map _))
  refine ⟨hreaches, hturn, hwithin, rfl, ?_, names_afterTurns s turns reads, ?_, ?_⟩
  · rw [← (hreaches.map _).sum_eq, List.map_map]
    rfl
  · intro t ht
    have hafter : (s.afterTurns turns reads).find? t.name =
        some (s.dispatched t.loader t.reading) := by
      rw [Turn.name, find?_afterTurns hn (hmem t ht).1, afterTurn_of_mem hnodup ht]
    have halone := dispatch_idle (s := s.atReading t.reading) hn (hidle _ (hmem t ht).1)
      (hmem t ht).1
    refine ⟨?_, s.dispatched t.loader t.reading, hafter, queue_dispatched s t.loader t.reading⟩
    rw [hafter, Turn.name, halone, find?_afterTurns (s := s.atReading t.reading) hn (hmem t ht).1]
    have hturn : (s.atReading t.reading).afterTurn [⟨t.loader, t.reading⟩] t.loader =
        (s.atReading t.reading).dispatched t.loader t.reading :=
      afterTurn_of_mem (List.nodup_singleton _) List.mem_cons_self
    exact congrArg some hturn.symm
  · intro a ha hc
    rw [find?_afterTurns hn ha, afterTurn_of_notMem]
    intro hname
    obtain ⟨t, ht, heq⟩ := List.mem_map.mp hname
    have ht' := hmem t ht
    rw [eq_of_name hn ht'.1 ha heq, hc] at ht'
    exact Bool.false_ne_true ht'.2

/-- Loaders with predicates are asked one after the other during a call, and those that are ready
are dispatched at once. -/
structure AsksInTurn (s : Session) (asked : String → Nat) (turns : List Turn) (r : Session × Nat) :
    Prop where
  within : ∀ a ∈ s.loaders, a.predicate.isSome = true →
    s.clock.reads ≤ asked a.state.name ∧ asked a.state.name < r.1.clock.reads
  atOnce : ∀ t ∈ turns, t.loader.predicate.isSome = true → t.reading = asked t.name + 1
  /-- A loader is asked after the turns of those that were registered before it. -/
  inTurn : (s.loaders.filter fun a => a.predicate.isSome).Pairwise fun a b =>
    asked a.state.name < asked b.state.name ∧
      ∀ t ∈ turns, t.loader = a → t.reading < asked b.state.name

theorem depth_eq_sum (s : Session) : s.depth = (s.loaders.map (·.state.depth)).sum := by
  have hfrom : ∀ (loaders : List ActiveLoader) (n : Nat),
      loaders.foldl (fun n a => n + a.state.depth) n = n + (loaders.map (·.state.depth)).sum := by
    intro loaders
    induction loaders with
    | nil => simp
    | cons a rest ih =>
      intro n
      simp [ih, Nat.add_assoc]
  rw [depth, hfrom, Nat.zero_add]

theorem statistics_eq_sums (s : Session) :
    s.statistics = {
      loads := (s.loaders.map (·.state.statistics.loads)).sum
      batches := (s.loaders.map (·.state.statistics.batches)).sum
      batchLoads := (s.loaders.map (·.state.statistics.batchLoads)).sum
      cacheHits := (s.loaders.map (·.state.statistics.cacheHits)).sum
      errors := (s.loaders.map (·.state.statistics.errors)).sum } := by
  have hfrom : ∀ (loaders : List ActiveLoader) (total : Statistics),
      loaders.foldl (fun total a => total.add a.state.statistics) total = {
        loads := total.loads + (loaders.map (·.state.statistics.loads)).sum
        batches := total.batches + (loaders.map (·.state.statistics.batches)).sum
        batchLoads := total.batchLoads + (loaders.map (·.state.statistics.batchLoads)).sum
        cacheHits := total.cacheHits + (loaders.map (·.state.statistics.cacheHits)).sum
        errors := total.errors + (loaders.map (·.state.statistics.errors)).sum } := by
    intro loaders
    induction loaders with
    | nil => simp
    | cons a rest ih =>
      intro total
      rw [List.foldl_cons, ih]
      simp [Statistics.add, Nat.add_assoc]
  rw [statistics, hfrom]
  simp

def grouped (s : Session) : List ActiveLoader := s.loaders.filter fun a => a.predicate.isSome

def ungrouped (s : Session) : List ActiveLoader := s.loaders.filter fun a => a.predicate.isNone

theorem grouped_append_ungrouped (s : Session) : (s.grouped ++ s.ungrouped).Perm s.loaders := by
  have hsplit := List.filter_append_perm (fun a : ActiveLoader => a.predicate.isSome) s.loaders
  simpa [grouped, ungrouped] using hsplit

theorem nodup_grouped_append_ungrouped (hn : s.names.Nodup) :
    (s.grouped.map (·.state.name) ++ s.ungrouped.map (·.state.name)).Nodup := by
  rw [← List.map_append]
  exact (s.grouped_append_ungrouped.map _).nodup_iff.mpr hn

theorem dispatchAll_once (hn : s.names.Nodup) (hidle : ∀ a ∈ s.loaders, a.batch.Idle) :
    ∃ turns, DispatchesOnce s (fun _ => true) turns s.dispatchAll := by
  have horder := s.grouped_append_ungrouped
  have hreaches : ((turnsFrom s.clock.reads (s.grouped ++ s.ungrouped)).map (·.loader)).Perm
      (s.loaders.filter fun _ => true) := by
    rwa [map_loader_turnsFrom, List.filter_true]
  have honce := dispatchesOnce hn hidle hreaches (pairwise_turnsFrom _ _) fun _ ht =>
    reading_turnsFrom ht
  have heach := dispatchEach_idle hn hidle horder.subset ((horder.map _).nodup_iff.mpr hn)
  refine ⟨turnsFrom s.clock.reads (s.grouped ++ s.ungrouped), ?_⟩
  rw [map_depth_turns, map_loader_turnsFrom, ← heach, List.map_append] at honce
  exact honce

theorem dispatchAll_depth (hn : s.names.Nodup) (hidle : ∀ a ∈ s.loaders, a.batch.Idle) :
    s.dispatchAll.2 = s.depth ∧ s.dispatchAll.1.depth = 0 := by
  obtain ⟨turns, honce⟩ := dispatchAll_once hn hidle
  have hreaches := honce.reaches
  rw [List.filter_true] at hreaches
  refine ⟨?_, ?_⟩
  · rw [honce.number, List.filter_true, depth_eq_sum]
  · have hempty : ∀ b ∈ s.dispatchAll.1.loaders, b.state.depth = 0 := by
      intro b hb
      have hname : b.state.name ∈ s.names := honce.names ▸ List.mem_map.mpr ⟨b, hb, rfl⟩
      obtain ⟨a, ha, heq⟩ := List.mem_map.mp hname
      obtain ⟨t, ht, rfl⟩ := List.mem_map.mp (hreaches.mem_iff.mpr ha)
      obtain ⟨-, c, hc, hqueue⟩ := honce.taken t ht
      rw [Turn.name, heq, (find?_eq_some_iff (honce.names ▸ hn)).mpr ⟨hb, rfl⟩] at hc
      rw [Option.some.inj hc, Loader.depth, hqueue, List.length_nil]
    rw [depth_eq_sum, List.map_congr_left hempty]
    simp

/-- When the loaders with a predicate are asked. -/
def questions (s : Session) : List Turn := asks s.clock.shows s.clock.reads s.grouped

def questionsEnd (s : Session) : Nat := s.grouped.foldl (nextAsk s.clock.shows) s.clock.reads

def readyOrder (s : Session) : List Turn :=
  readyTurns s.clock.shows s.questions ++ turnsFrom s.questionsEnd s.ungrouped

def askedAt (s : Session) (name : String) : Nat :=
  ((s.questions.find? fun u => u.name == name).map (·.reading)).getD 0

/-- Loaders without a predicate are dispatched, those with a predicate if it holds when they are
asked. -/
def readyWhenAsked (s : Session) (a : ActiveLoader) : Bool :=
  a.readyAt (s.clock.shows (s.askedAt a.state.name))

theorem map_loader_questions (s : Session) : s.questions.map (·.loader) = s.grouped :=
  map_loader_asks _ _ _

theorem askedAt_of_mem (hn : s.names.Nodup) {u : Turn} (hu : u ∈ s.questions) :
    s.askedAt u.name = u.reading := by
  have hnodup : (s.questions.map Turn.name).Nodup := by
    rw [map_name_turns, map_loader_questions]
    exact (List.nodup_append.mp (nodup_grouped_append_ungrouped hn)).1
  have hfind : (s.questions.find? fun t => t.name == u.name) = some u :=
    find?_key Turn.name hnodup hu
  rw [askedAt, hfind]
  rfl

theorem exists_question (ha : a ∈ s.grouped) : ∃ u ∈ s.questions, u.loader = a :=
  List.mem_map.mp (s.map_loader_questions ▸ ha)

theorem askedAt_within (hn : s.names.Nodup) (ha : a ∈ s.grouped) :
    s.clock.reads ≤ s.askedAt a.state.name ∧
      nextAsk s.clock.shows (s.askedAt a.state.name) a ≤ s.questionsEnd := by
  obtain ⟨u, hu, rfl⟩ := exists_question ha
  have hreading := askedAt_of_mem hn hu
  rw [Turn.name] at hreading
  rw [hreading]
  exact reading_asks hu

theorem pairwise_askedAt (hn : s.names.Nodup) : s.grouped.Pairwise fun a b =>
    nextAsk s.clock.shows (s.askedAt a.state.name) a ≤ s.askedAt b.state.name := by
  rw [← map_loader_questions, List.pairwise_map]
  refine (pairwise_asks _ _ _).imp_of_mem fun ht hu hle => ?_
  have hfirst := askedAt_of_mem hn ht
  have hsecond := askedAt_of_mem hn hu
  rw [Turn.name] at hfirst hsecond
  rwa [hfirst, hsecond]

theorem nextAsk_of_ready (h : s.readyWhenAsked a = true) :
    nextAsk s.clock.shows (s.askedAt a.state.name) a = s.askedAt a.state.name + 2 :=
  if_pos h

/-- A loader with a predicate is dispatched at the reading after its question. -/
theorem mem_readyTurns_questions (hn : s.names.Nodup) {u : Turn}
    (h : u ∈ readyTurns s.clock.shows s.questions) :
    u.loader ∈ s.grouped ∧ s.readyWhenAsked u.loader = true ∧
      u.reading = s.askedAt u.name + 1 := by
  obtain ⟨v, hv, hready, rfl⟩ := mem_readyTurns.mp h
  have hreading := askedAt_of_mem hn hv
  refine ⟨s.map_loader_questions ▸ List.mem_map.mpr ⟨v, hv, rfl⟩, ?_, ?_⟩
  · rw [← hreading] at hready
    exact hready
  · exact congrArg (· + 1) hreading.symm

theorem reaches_readyOrder (hn : s.names.Nodup) :
    (s.readyOrder.map (·.loader)).Perm (s.loaders.filter s.readyWhenAsked) := by
  have hgrouped : (readyTurns s.clock.shows s.questions).map (·.loader) =
      s.grouped.filter s.readyWhenAsked := by
    rw [← map_loader_questions, List.filter_map, readyTurns, List.map_map]
    refine congrArg (List.map _) (List.filter_congr fun u hu => ?_)
    exact congrArg (fun n => u.loader.readyAt (s.clock.shows n)) (askedAt_of_mem hn hu).symm
  have hungrouped : s.ungrouped = s.ungrouped.filter s.readyWhenAsked := by
    refine (List.filter_eq_self.mpr fun a ha => ?_).symm
    have hnone : a.predicate = none := by simpa using (List.mem_filter.mp ha).2
    simp [readyWhenAsked, ActiveLoader.readyAt, hnone]
  rw [readyOrder, List.map_append, map_loader_turnsFrom, hgrouped, hungrouped, ← List.filter_append]
  exact s.grouped_append_ungrouped.filter _

theorem reading_readyOrder (hn : s.names.Nodup) {u : Turn} (h : u ∈ s.readyOrder) :
    s.clock.reads ≤ u.reading ∧ u.reading < s.questionsEnd + s.ungrouped.length := by
  rcases List.mem_append.mp h with h | h
  · obtain ⟨hmem, hready, hreading⟩ := mem_readyTurns_questions hn h
    obtain ⟨hle, hend⟩ := askedAt_within hn hmem
    rw [nextAsk_of_ready hready] at hend
    rw [Turn.name] at hreading
    omega
  · have hbegin : s.clock.reads ≤ s.questionsEnd := le_foldl_nextAsk _ _ _
    have hwithin := reading_turnsFrom h
    omega

theorem pairwise_readyOrder (hn : s.names.Nodup) :
    s.readyOrder.Pairwise fun t u => t.reading < u.reading := by
  rw [readyOrder, List.pairwise_append]
  refine ⟨?_, pairwise_turnsFrom _ _, fun t ht u hu => ?_⟩
  · rw [readyTurns, List.pairwise_map]
    refine ((pairwise_asks _ _ _).imp fun hle => ?_).filter _
    exact Nat.succ_lt_succ (Nat.lt_of_lt_of_le (lt_nextAsk _ _ _) hle)
  · obtain ⟨hmem, hready, hreading⟩ := mem_readyTurns_questions hn ht
    have hend := (askedAt_within hn hmem).2
    have hlater := (reading_turnsFrom hu).1
    rw [nextAsk_of_ready hready] at hend
    rw [Turn.name] at hreading
    omega

theorem dispatchReady_eq (hn : s.names.Nodup) (hidle : ∀ a ∈ s.loaders, a.batch.Idle) :
    s.dispatchReady =
      (s.afterTurns s.readyOrder (s.questionsEnd + s.ungrouped.length),
        (s.readyOrder.map (·.loader.state.depth)).sum) := by
  have hnodup := nodup_grouped_append_ungrouped hn
  rw [List.nodup_append] at hnodup
  have hpredicates : ∀ a ∈ s.grouped, a.predicate.isSome = true := fun a ha =>
    (List.mem_filter.mp ha).2
  have hgroups := dispatchGroups_idle hn hidle (List.filter_subset_self _) hnodup.1 hpredicates
  -- Loaders outside all groups are untouched by the turns of the groups, and are dispatched after
  -- them.
  have hturned : ∀ b ∈ s.ungrouped,
      b.state.name ∉ (readyTurns s.clock.shows s.questions).map Turn.name := by
    intro b hb hname
    obtain ⟨u, hu, heq⟩ := List.mem_map.mp hname
    have hmem := (mem_readyTurns_questions hn hu).1
    exact hnodup.2.2 _ (List.mem_map.mpr ⟨_, hmem, rfl⟩) _ (List.mem_map.mpr ⟨b, hb, rfl⟩) heq
  have hsub : s.ungrouped ⊆ (s.afterTurns (readyTurns s.clock.shows s.questions)
      s.questionsEnd).loaders := fun b hb =>
    mem_afterTurns (List.mem_of_mem_filter hb) (hturned b hb) _
  have hdefault := dispatchEach_idle (s := s.afterTurns (readyTurns s.clock.shows s.questions)
    s.questionsEnd) ((names_afterTurns s _ _).symm ▸ hn) (idle_afterTurns hidle _ _) hsub hnodup.2.1
  have hlater : ∀ t ∈ turnsFrom s.questionsEnd s.ungrouped,
      t.name ∉ (readyTurns s.clock.shows s.questions).map Turn.name := fun t ht =>
    hturned t.loader (map_loader_turnsFrom s.questionsEnd s.ungrouped ▸
      List.mem_map.mpr ⟨t, ht, rfl⟩)
  rw [reads_afterTurns, afterTurns_append hlater] at hdefault
  have hready : s.dispatchReady =
      (((s.dispatchGroups s.groups).1.dispatchEach (s.dispatchGroups s.groups).1.defaultGroup).1,
        (s.dispatchGroups s.groups).2 +
          ((s.dispatchGroups s.groups).1.dispatchEach
            (s.dispatchGroups s.groups).1.defaultGroup).2) := rfl
  have hgroup : s.dispatchGroups s.groups =
      (s.afterTurns (readyTurns s.clock.shows s.questions) s.questionsEnd,
        ((readyTurns s.clock.shows s.questions).map (·.loader.state.depth)).sum) := hgroups
  have hungroup : s.defaultGroup = s.ungrouped.map (·.state.name) := rfl
  rw [hready, hgroup, defaultGroup_afterTurns, hungroup, hdefault, readyOrder, List.map_append,
    List.sum_append, map_depth_turns (turnsFrom _ _), map_loader_turnsFrom]

theorem dispatchReady_once (hn : s.names.Nodup) (hidle : ∀ a ∈ s.loaders, a.batch.Idle) :
    DispatchesOnce s s.readyWhenAsked s.readyOrder s.dispatchReady := by
  rw [dispatchReady_eq hn hidle]
  exact dispatchesOnce hn hidle (reaches_readyOrder hn) (pairwise_readyOrder hn)
    fun _ hu => reading_readyOrder hn hu

theorem dispatchReady_inTurn (hn : s.names.Nodup) (hidle : ∀ a ∈ s.loaders, a.batch.Idle) :
    AsksInTurn s s.askedAt s.readyOrder s.dispatchReady := by
  have hnodup := nodup_grouped_append_ungrouped hn
  have hatOnce : ∀ t ∈ s.readyOrder, t.loader.predicate.isSome = true →
      s.readyWhenAsked t.loader = true ∧ t.reading = s.askedAt t.name + 1 := by
    intro t ht hp
    rcases List.mem_append.mp ht with h | h
    · exact (mem_readyTurns_questions hn h).2
    · have hmem : t.loader ∈ s.ungrouped :=
        map_loader_turnsFrom s.questionsEnd s.ungrouped ▸ List.mem_map.mpr ⟨t, h, rfl⟩
      have hnone := (List.mem_filter.mp hmem).2
      simp only [Option.isNone_iff_eq_none] at hnone
      simp [hnone] at hp
  refine ⟨fun a ha hp => ?_, fun t ht hp => (hatOnce t ht hp).2, ?_⟩
  · have hwithin := askedAt_within hn (List.mem_filter.mpr ⟨ha, hp⟩)
    have hlt := lt_nextAsk s.clock.shows (s.askedAt a.state.name) a
    rw [dispatchReady_eq hn hidle, reads_afterTurns]
    omega
  · refine (pairwise_askedAt hn).imp_of_mem fun {a b} ha _ hle => ⟨?_, ?_⟩
    · exact Nat.lt_of_lt_of_le (lt_nextAsk _ _ _) hle
    · rintro t ht rfl
      obtain ⟨hready, hreading⟩ := hatOnce t ht (List.mem_filter.mp ha).2
      rw [nextAsk_of_ready hready] at hle
      rw [Turn.name] at hreading
      omega

theorem modify_eq (h : s.find? name = some a) (f : Loader → Loader) :
    s.modify name f = s.update (f a.state) := by
  simp [modify, loader?, h]

theorem traits_startLoaders (t : LoaderTable) (ds : List LoaderDefinition) (clock : Clock) :
    (startLoaders t clock ds).map (fun a => (a.state.name, a.batch, a.predicate)) =
      ds.map fun d => (d.name, t.instrumented d, d.predicate) := by
  induction ds generalizing clock with
  | nil => rfl
  | cons d rest ih => rw [startLoaders, List.map_cons, List.map_cons, ih]

theorem Reachable.traits_eq (h : Reachable t s) :
    s.traits = t.definitions.map fun d => (d.name, t.instrumented d, d.predicate) := by
  induction h with
  | start clock context => exact traits_startLoaders t t.definitions clock
  | @step s _ name a ih =>
    cases hl : s.find? name with
    | none => simpa [modify, loader?, hl] using ih
    | some b => rw [modify_eq hl, traits_update, ih]
  | called _ label keys ih => exact ih
  | dropped _ ih => exact ih
  | ticked _ ih => exact ih

theorem Reachable.names_eq (h : Reachable t s) : s.names = t.names := by
  rw [names_eq_of_traits, h.traits_eq, List.map_map]
  rfl

theorem Reachable.idle (h : Reachable t s)
    (hidle : ∀ d ∈ t.definitions, (t.instrumented d).Idle) : ∀ a ∈ s.loaders, a.batch.Idle := by
  rw [idle_iff_traits, h.traits_eq]
  intro p hp
  obtain ⟨d, hd, rfl⟩ := List.mem_map.mp hp
  exact hidle d hd

theorem Reachable.update (h : Reachable t s) (hfind : s.find? name = some a) (c : LoaderStep) :
    Reachable t (s.update (a.state.step c)) := by
  rw [← modify_eq hfind fun l => l.step c]
  exact h.step name c

theorem Reachable.load (h : Reachable t s) (name : String) (key : Json) :
    Reachable t (s.load name key).1 := by
  cases hl : s.find? name with
  | none => simpa [Session.load, loader?, hl] using h
  | some a =>
    have hload : (s.load name key).1 = s.update (a.state.step (.load key)) := by
      simp [Session.load, loader?, hl, Loader.step]
    rw [hload]
    exact h.update hl (.load key)

theorem find?_update_step (hfind : s.find? name = some a) (c : LoaderStep) :
    (s.update (a.state.step c)).find? name = some { a with state := a.state.step c } := by
  simp [find?_update, hfind, (a.state.effect_step c).name_eq]

theorem Reachable.runChunks (h : Reachable t s)
    (hidle : ∀ d ∈ t.definitions, (t.instrumented d).Idle) (hfind : s.find? name = some a)
    (depth : Nat) (chunks : List Chunk) :
    Reachable t (runChunks (callWithin (depth + 1)) name s chunks) := by
  induction chunks generalizing s a with
  | nil => exact h
  | cons c rest ih =>
    have ha : a.batch.Idle := h.idle hidle a (List.mem_of_find?_eq_some hfind)
    have hnext := (h.update hfind (.complete c.id (s.answer a c.keys))).called a.batch.label c.keys
    have hfound := find?_update_step hfind (.complete c.id (s.answer a c.keys))
    rw [runChunks_cons_idle ha hfind]
    exact ih hnext hfound

theorem Reachable.dispatch (h : Reachable t s)
    (hidle : ∀ d ∈ t.definitions, (t.instrumented d).Idle) (name : String) :
    Reachable t (s.dispatch name).1 := by
  cases hfind : s.find? name with
  | none => simpa [Session.dispatch, dispatchBy, loader?, hfind] using h
  | some a =>
    have hticked : s.tick.find? name = some a := hfind
    rw [Session.dispatch, dispatchBy_eq _ ⟨a, hfind, rfl, rfl⟩]
    exact (h.ticked.update hticked (.start s.now)).runChunks hidle
      (find?_update_step hticked (.start s.now)) _ _

theorem Reachable.dispatchEach (h : Reachable t s)
    (hidle : ∀ d ∈ t.definitions, (t.instrumented d).Idle) (names : List String) :
    Reachable t (s.dispatchEach names).1 := by
  induction names generalizing s with
  | nil => exact h
  | cons name rest ih => exact ih (h.dispatch hidle name)

theorem Reachable.dispatchGroups (h : Reachable t s)
    (hidle : ∀ d ∈ t.definitions, (t.instrumented d).Idle) (names : List String) :
    Reachable t (s.dispatchGroups names).1 := by
  induction names generalizing s with
  | nil => exact h
  | cons name rest ih =>
    rw [Session.dispatchGroups]
    by_cases hready : s.isReady name = true
    · rw [if_pos hready]
      exact ih (h.ticked.dispatch hidle name)
    · rw [if_neg hready]
      exact ih h.ticked

/-- In every reachable session the loaders are those of the definitions, each one once and in
their order, and the counters are added up. Dispatching all of them reaches every loader once, gives
the number of queued keys, and leaves none. Dispatching the ready ones reaches the loaders without a
predicate and those whose predicates hold when they are asked, and no other; for predicates that
look at nothing but their loaders, these are the ones that hold when the call begins. -/
theorem dispatch_groups {ds : List LoaderDefinition} (ht : t.Registers ds)
    (hidle : ∀ d ∈ ds, (t.instrumented d).Idle) (hs : Reachable t s) :
    s.names = ds.map (·.name) ∧ s.names.Nodup ∧
      s.loaders.map (·.predicate) = ds.map (·.predicate) ∧
      s.statistics = {
        loads := (s.loaders.map (·.state.statistics.loads)).sum
        batches := (s.loaders.map (·.state.statistics.batches)).sum
        batchLoads := (s.loaders.map (·.state.statistics.batchLoads)).sum
        cacheHits := (s.loaders.map (·.state.statistics.cacheHits)).sum
        errors := (s.loaders.map (·.state.statistics.errors)).sum } ∧
      ((∃ turns, DispatchesOnce s (fun _ => true) turns s.dispatchAll) ∧
        s.dispatchAll.2 = s.depth ∧ s.dispatchAll.1.depth = 0 ∧ Reachable t s.dispatchAll.1) ∧
      (∃ asked turns, AsksInTurn s asked turns s.dispatchReady ∧
        DispatchesOnce s (fun a => a.readyAt (s.clock.shows (asked a.state.name))) turns
          s.dispatchReady) ∧
      ((∀ d ∈ ds, ∀ p ∈ d.predicate, p.Steady) →
        ∃ turns, DispatchesOnce s (fun a => a.readyAt s.now) turns s.dispatchReady) ∧
      Reachable t s.dispatchReady.1 := by
  have hds := ht.definitions_eq
  have hnames : s.names = ds.map (·.name) := by rw [hs.names_eq, LoaderTable.names, hds]
  have hn : s.names.Nodup := hnames ▸ ht.nodup
  have hpredicates : s.loaders.map (·.predicate) = ds.map (·.predicate) := by
    have htraits := congrArg (List.map fun p => p.2.2) hs.traits_eq
    simpa [traits, hds, Function.comp_def] using htraits
  rw [← hds] at hidle
  have hall := hs.idle hidle
  have hready := dispatchReady_once hn hall
  obtain ⟨hnumber, hempty⟩ := dispatchAll_depth hn hall
  refine ⟨hnames, hn, hpredicates, s.statistics_eq_sums,
    ⟨dispatchAll_once hn hall, hnumber, hempty, hs.dispatchEach hidle _⟩,
    ⟨s.askedAt, s.readyOrder, dispatchReady_inTurn hn hall, hready⟩, fun hsteady => ?_,
    (hs.dispatchGroups hidle _).dispatchEach hidle _⟩
  refine ⟨s.readyOrder, hready.congr fun a ha => a.readyAt_of_steady ?_ _ _⟩
  have hmem : a.predicate ∈ ds.map (·.predicate) := hpredicates ▸ List.mem_map.mpr ⟨a, ha, rfl⟩
  obtain ⟨d, hd, heq⟩ := List.mem_map.mp hmem
  exact heq ▸ hsteady d hd

/-- One loader has the two keys it waits for. Its dispatch takes time, so another one, which is not
ready at the beginning, is ready when it is asked. -/
theorem dispatch_groups_of_two :
    let batch : BatchLoader := { load := fun _ keys => .done (.ok keys) }
    let ds : List LoaderDefinition :=
      [{ name := "shows", batch := batch },
        { name := "reviews", batch := batch, predicate := some (.depth 2) },
        { name := "ratings", batch := batch, predicate := some (.elapsed 5) }]
    let t : LoaderTable := { definitions := ds }
    let clock : Clock :=
      { shows := fun n => 2 * n, monotone := fun _ _ h => Nat.mul_le_mul_left 2 h }
    let s := ((((ofTable t clock .empty).loadMany "reviews" [.int 1, .int 2]).1.load "shows"
      (.str "a")).1.load "ratings" (.int 3)).1
    t.Registers ds ∧ Reachable t s ∧ s.names = ["shows", "reviews", "ratings"] ∧
      s.dispatchAll.2 = 4 ∧ s.isReady "ratings" = false ∧ s.dispatchReady.2 = 4 ∧
      ∃ asked turns, AsksInTurn s asked turns s.dispatchReady ∧
        DispatchesOnce s (fun a => a.readyAt (s.clock.shows (asked a.state.name))) turns
          s.dispatchReady := by
  intro batch ds t clock s
  have ht : t.Registers ds :=
    (((LoaderTable.Registers.start []).register rfl).register rfl).register rfl
  have hs : Reachable t s := (((((Reachable.start clock .empty).load "reviews" (.int 1)).load
    "reviews" (.int 2)).load "shows" (.str "a"))).load "ratings" (.int 3)
  have hidle : ∀ d ∈ ds, (t.instrumented d).Idle := by
    intro d hd environment keys
    have hbatch : d.batch = batch := by
      simp only [ds, List.mem_cons, List.not_mem_nil, or_false] at hd
      rcases hd with rfl | rfl | rfl <;> rfl
    exact ⟨.ok keys, by rw [LoaderTable.instrumented, hbatch]; rfl⟩
  obtain ⟨hnames, -, -, -, ⟨-, hall, -⟩, hready, -⟩ := dispatch_groups ht hidle hs
  refine ⟨ht, hs, hnames, ?_, ?_, ?_, hready⟩
  · rw [hall]
    decide +kernel
  · decide +kernel
  · decide +kernel

end Session

end SchemaAssembly
