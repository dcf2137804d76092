import SchemaAssembly.Proofs.Json.TextInjective
import SchemaAssembly.Proofs.Loader.Invariant

/-!
Every load that misses the cache has one waiter, which is settled once, with the result of its own
key, in whatever order dispatches start and end.
-/

set_option autoImplicit false

namespace SchemaAssembly

/-- What the waiters of the key at a position of a chunk get for an answer. -/
inductive KeyResult (loader : String) (keys position : Nat) :
    Except HandlerError (List Json) → Except LoaderError Json → Prop where
  | value {values : List Json} {v : Json} (hlen : values.length = keys)
      (hv : values[position]? = some v) : KeyResult loader keys position (.ok values) (.ok v)
  | mismatch {values : List Json} (hlen : values.length ≠ keys) :
      KeyResult loader keys position (.ok values)
        (.error (.lengthMismatch loader keys values.length))
  | failed {e : HandlerError} :
      KeyResult loader keys position (.error e) (.error (.failed loader e))

namespace Loader

variable {l t : Loader} {a : LoaderStep} {w : Nat} {key : Json} {r : Except LoaderError Json}

theorem keyResult_of_outcomes {keys i : Nat} {answer : Except HandlerError (List Json)}
    (h : (l.outcomes keys answer)[i]? = some r) : KeyResult l.name keys i answer r := by
  cases answer with
  | error e =>
    simp only [outcomes, checkAnswer, List.getElem?_replicate, Option.ite_none_right_eq_some,
      Option.some.injEq] at h
    rw [← h.2]
    exact .failed
  | ok values =>
    by_cases hlen : values.length = keys
    · simp only [outcomes, checkAnswer, hlen, if_true, List.getElem?_map,
        Option.map_eq_some_iff] at h
      obtain ⟨v, hv, rfl⟩ := h
      exact .value hlen hv
    · simp only [outcomes, checkAnswer, hlen, if_false, List.getElem?_replicate,
        Option.ite_none_right_eq_some, Option.some.injEq] at h
      rw [← h.2]
      exact .mismatch hlen

theorem Effect.name_eq (h : Effect l a t) : t.name = l.name := by
  cases h <;> rfl

theorem Effect.options_eq (h : Effect l a t) : t.options = l.options := by
  cases h <;> rfl

theorem Effect.waiterCount_le (h : Effect l a t) : l.waiterCount ≤ t.waiterCount := by
  cases h with
  | keep => exact Nat.le_refl _
  | join => exact Nat.le_succ _
  | enqueue => exact Nat.le_succ _
  | start => exact Nat.le_refl _
  | settle => exact Nat.le_refl _

theorem waiterCount_le_run (l : Loader) (steps : List LoaderStep) :
    l.waiterCount ≤ (l.run steps).waiterCount :=
  run_induction (P := fun s => l.waiterCount ≤ s.waiterCount)
    (fun s a hs => Nat.le_trans hs (effect_step s a).waiterCount_le) steps (Nat.le_refl _)

@[simp] theorem name_run (l : Loader) (steps : List LoaderStep) : (l.run steps).name = l.name :=
  run_induction (fun s a hs => (effect_step s a).name_eq.trans hs) steps rfl

@[simp] theorem options_run (l : Loader) (steps : List LoaderStep) :
    (l.run steps).options = l.options :=
  run_induction (fun s a hs => (effect_step s a).options_eq.trans hs) steps rfl

def openEntries (l : Loader) : List QueueEntry := l.queue ++ l.inFlight.flatMap (·.entries)

theorem mem_waiters_of_open {e : QueueEntry} (he : e ∈ l.openEntries) (hw : w ∈ e.waiters) :
    w ∈ l.waiters := by
  have hopen : w ∈ waitersOf l.openEntries := List.mem_flatMap.mpr ⟨e, he, hw⟩
  rw [openEntries, waitersOf_append] at hopen
  exact List.mem_append_left _ hopen

/-- Entries come from loads only; nothing but a load adds a waiter to one. -/
theorem Effect.mem_open (h : Effect l a t) {e : QueueEntry} (he : e ∈ t.openEntries) :
    e ∈ l.openEntries ∨
      (∃ k i d, a = .load k ∧ l.slot? k = some i ∧ l.queue[i]? = some d ∧
        e = d.join l.waiterCount) ∨
      ∃ k, a = .load k ∧ e = ⟨k, [l.waiterCount]⟩ := by
  cases h with
  | keep => exact .inl he
  | @join k i statistics hb hs =>
    rcases List.mem_append.mp he with he | he
    · rcases mem_modify_join he with he | ⟨d, hd, rfl⟩
      · exact .inl (List.mem_append_left _ he)
      · exact .inr (.inl ⟨k, i, d, rfl, hs, hd, rfl⟩)
    · exact .inl (List.mem_append_right _ he)
  | @enqueue k statistics hb hs =>
    rcases List.mem_append.mp he with he | he
    · rcases List.mem_append.mp he with he | he
      · exact .inl (List.mem_append_left _ he)
      · exact .inr (.inr ⟨k, rfl, List.mem_singleton.mp he⟩)
    · exact .inl (List.mem_append_right _ he)
  | start now statistics =>
    simp only [openEntries, List.nil_append, List.flatMap_append, flatMap_entries_nextChunks] at he
    exact .inl (List.mem_append.mpr (List.mem_append.mp he).symm)
  | settle cache statistics hf =>
    rcases List.mem_append.mp he with he | he
    · exact .inl (List.mem_append_left _ he)
    · obtain ⟨c, hc, he⟩ := List.mem_flatMap.mp he
      have hin : c ∈ l.inFlight := List.mem_of_mem_filter hc
      exact .inl (List.mem_append_right _ (List.mem_flatMap.mpr ⟨c, hin, he⟩))

/-- Wherever the waiter waits, it waits for the key. -/
def WaitsFor (l : Loader) (w : Nat) (key : Json) : Prop :=
  ∀ e ∈ l.openEntries, w ∈ e.waiters → e.key = key

theorem WaitsFor.effect (h : l.WaitsFor w key) (hw : w < l.waiterCount) (ht : Effect l a t) :
    t.WaitsFor w key := by
  intro e he hmem
  rcases ht.mem_open he with hold | ⟨k, i, d, -, -, hd, rfl⟩ | ⟨k, -, rfl⟩
  · exact h e hold hmem
  · have hopen : d ∈ l.openEntries :=
      List.mem_append_left _ (List.mem_iff_getElem?.mpr ⟨i, hd⟩)
    rcases List.mem_append.mp hmem with hmem | hmem
    · exact h d hopen hmem
    · -- Only a new waiter joins an entry, and ours is older.
      have hnew : w = l.waiterCount := List.mem_singleton.mp hmem
      omega
  · have hnew : w = l.waiterCount := List.mem_singleton.mp hmem
    omega

theorem WaitsFor.run (h : l.WaitsFor w key) (hw : w < l.waiterCount) (steps : List LoaderStep) :
    (l.run steps).WaitsFor w key := by
  refine (run_induction (P := fun s => s.WaitsFor w key ∧ w < s.waiterCount) ?_ steps ⟨h, hw⟩).1
  intro s a hs
  have heff := effect_step s a
  exact ⟨hs.1.effect hs.2 heff, Nat.lt_of_lt_of_le hs.2 heff.waiterCount_le⟩

/-- A new waiter waits for the key of its load. An entry of the queue is shared only by loads of
one text, and values of one text are equal. -/
theorem WellFormed.waitsFor_load (h : l.WellFormed) (key : Json) :
    (l.load key).1.WaitsFor l.waiterCount key := by
  intro e he hmem
  rcases (effect_load l key).mem_open he with hold | ⟨k, i, d, hk, hs, hd, rfl⟩ | ⟨k, hk, rfl⟩
  · exact absurd (mem_waiters_of_open hold hmem) h.waiterCount_notMem
  · cases hk
    obtain ⟨d', hd', htext⟩ := h.slot_some hs
    have hdd : d' = d := Option.some.inj (hd'.symm.trans hd)
    rw [hdd] at htext
    exact Json.text_injective htext
  · cases hk
    rfl

def Delivers (l : Loader) (id : Nat) (answer : Except HandlerError (List Json)) (w : Nat)
    (key : Json) (r : Except LoaderError Json) : Prop :=
  ∃ c i e, c ∈ l.inFlight ∧ c.id = id ∧ c.entries[i]? = some e ∧ w ∈ e.waiters ∧ e.key = key ∧
    KeyResult l.name c.entries.length i answer r

theorem mem_open_of_chunk {c : Chunk} {e : QueueEntry} (hc : c ∈ l.inFlight)
    (he : e ∈ c.entries) : e ∈ l.openEntries :=
  List.mem_append_right _ (List.mem_flatMap.mpr ⟨c, hc, he⟩)

theorem WaitsFor.delivers {id : Nat} {c : Chunk} {answer : Except HandlerError (List Json)}
    (h : l.WaitsFor w key) (hf : (l.inFlight.find? fun c => c.id == id) = some c)
    (hr : (w, r) ∈ settlements c.entries (l.outcomes c.entries.length answer)) :
    l.Delivers id answer w key r := by
  obtain ⟨i, e, he, hr, hw⟩ := mem_settlements.mp hr
  have hc : c ∈ l.inFlight := List.mem_of_find?_eq_some hf
  have hid : c.id = id := by simpa using List.find?_some hf
  have hkey : e.key = key := h e (mem_open_of_chunk hc (List.mem_of_getElem? he)) hw
  exact ⟨c, i, e, hc, hid, he, hw, hkey, keyResult_of_outcomes hr⟩

/-- Settled waiters stay settled, and only the end of a chunk in flight settles any. -/
theorem Effect.settled (h : Effect l a t) :
    t.settled = l.settled ∨
      ∃ id answer c, a = .complete id answer ∧
        (l.inFlight.find? fun c => c.id == id) = some c ∧
        t.settled = l.settled ++ settlements c.entries (l.outcomes c.entries.length answer) := by
  cases h with
  | keep => exact .inl rfl
  | join => exact .inl rfl
  | enqueue => exact .inl rfl
  | start => exact .inl rfl
  | @settle id c answer cache statistics hf => exact .inr ⟨id, answer, c, rfl, hf, rfl⟩

theorem settled_subset_run (l : Loader) (steps : List LoaderStep) :
    l.settled ⊆ (l.run steps).settled := by
  refine run_induction (P := fun s => l.settled ⊆ s.settled) ?_ steps (List.Subset.refl _)
  intro s a hs
  rcases (effect_step s a).settled with heq | ⟨id, answer, c, -, -, heq⟩
  · rwa [heq]
  · rw [heq]
    exact List.subset_append_of_subset_left _ hs

/-- Every result was delivered by the end of a chunk. -/
theorem WaitsFor.delivered (h : l.WaitsFor w key) (hw : w < l.waiterCount)
    (steps : List LoaderStep) (hr : (w, r) ∈ (l.run steps).settled) :
    (w, r) ∈ l.settled ∨
      ∃ earlier id answer later, steps = earlier ++ .complete id answer :: later ∧
        (l.run earlier).Delivers id answer w key r := by
  induction steps generalizing l with
  | nil => exact .inl hr
  | cons a rest ih =>
    -- Either a later step delivered the result, or it was there after the first one.
    have heff := effect_step l a
    have hstep := h.effect hw heff
    rcases ih hstep (Nat.lt_of_lt_of_le hw heff.waiterCount_le) hr with
      hold | ⟨earlier, id, answer, later, heq, hd⟩
    · rcases heff.settled with hs | ⟨id, answer, c, rfl, hf, hs⟩
      · rw [hs] at hold
        exact .inl hold
      · rw [hs] at hold
        rcases List.mem_append.mp hold with hold | hnew
        · exact .inl hold
        · exact .inr ⟨[], id, answer, rest, rfl, h.delivers hf hnew⟩
    · exact .inr ⟨a :: earlier, id, answer, later, by rw [heq]; rfl, hd⟩

theorem settledWaiters_step (l : Loader) (a : LoaderStep) :
    l.settledWaiters ⊆ (l.step a).settledWaiters :=
  List.map_subset _ (settled_subset_run l [a])

theorem WellFormed.nodup_settled (h : l.WellFormed) : (l.settled.map (·.1)).Nodup :=
  (List.nodup_append.mp (h.waiters.nodup_iff.mpr List.nodup_range)).2.1

theorem WellFormed.result?_of_mem (h : l.WellFormed) (hr : (w, r) ∈ l.settled) :
    l.result? w = some r := by
  have hfind : (l.settled.find? fun s => s.1 == w) = some (w, r) :=
    find?_key Prod.fst h.nodup_settled hr
  rw [result?, hfind]
  rfl

theorem WellFormed.complete_settles (h : l.WellFormed) (hwait : l.WaitsFor w key) {c : Chunk}
    (hc : c ∈ l.inFlight) (hw : w ∈ waitersOf c.entries)
    (answer : Except HandlerError (List Json)) :
    ∃ r, l.Delivers c.id answer w key r ∧ (l.complete c.id answer).result? w = some r := by
  have hf := find?_key Chunk.id h.chunkIds hc
  obtain ⟨e, he, hwe⟩ := List.mem_flatMap.mp hw
  obtain ⟨i, hi⟩ := List.mem_iff_getElem?.mp he
  have hlt : i < (l.outcomes c.entries.length answer).length := by
    rw [length_outcomes]
    exact (List.getElem?_eq_some_iff.mp hi).1
  have hmem : (w, (l.outcomes c.entries.length answer)[i]) ∈
      settlements c.entries (l.outcomes c.entries.length answer) :=
    mem_settlements.mpr ⟨i, e, hi, List.getElem?_eq_getElem hlt, hwe⟩
  refine ⟨_, hwait.delivers hf hmem, ?_⟩
  have hwf : (l.complete c.id answer).WellFormed := h.step (.complete c.id answer)
  apply hwf.result?_of_mem
  rw [complete_found hf]
  exact List.mem_append_right _ hmem

/-- The life of the waiter of a load for a key, over steps after the load. -/
structure WaiterHistory (s : Loader) (w : Nat) (key : Json) (steps : List LoaderStep) : Prop where
  /-- The waiter is in one entry of the queue, in one entry of one chunk in flight, or settled, and
  it is settled once. -/
  one_place : (s.run steps).queuedWaiters.count w + (s.run steps).inFlightWaiters.count w +
    (s.run steps).settledWaiters.count w = 1
  own_key : (s.run steps).WaitsFor w key
  /-- A dispatch sends the waiter off with the whole queue. -/
  taken : w ∈ (s.run steps).queuedWaiters →
    ∀ now, w ∈ ((s.run steps).step (.start now)).inFlightWaiters
  /-- The end of its chunk settles the waiter. -/
  settles : ∀ c ∈ (s.run steps).inFlight, w ∈ waitersOf c.entries → ∀ answer, ∃ r,
    (s.run steps).Delivers c.id answer w key r ∧
      ((s.run steps).step (.complete c.id answer)).result? w = some r
  /-- Nothing else settles the waiter. -/
  delivered : ∀ r, (w, r) ∈ (s.run steps).settled → ∃ earlier id answer later,
    steps = earlier ++ .complete id answer :: later ∧ (s.run earlier).Delivers id answer w key r
  stays : ∀ r, (w, r) ∈ (s.run steps).settled → ∀ more, (s.run (steps ++ more)).result? w = some r

theorem WellFormed.queued_of_miss (h : l.WellFormed) (hb : l.options.batching = true)
    (hmiss : l.cached? key = none) :
    (l.load key).2 = .queued l.name l.waiterCount ∧
      (l.load key).1.queuedWaiters.Perm (l.queuedWaiters ++ [l.waiterCount]) ∧
      (l.load key).1.waiterCount = l.waiterCount + 1 ∧ (l.load key).1.settled = l.settled := by
  cases hs : l.slot? key with
  | some i =>
    obtain ⟨e, he, -⟩ := h.slot_some hs
    rw [load_shared hmiss hb hs]
    exact ⟨rfl, waitersOf_modify_join _ (List.getElem?_eq_some_iff.mp he).1, rfl, rfl⟩
  | none =>
    rw [load_queued hmiss hb hs]
    exact ⟨rfl, by simp [queuedWaiters], rfl, rfl⟩

theorem WellFormed.waiterHistory (h : l.WellFormed) (hwait : l.WaitsFor w key)
    (hw : w < l.waiterCount) (hopen : ∀ r, (w, r) ∉ l.settled) (steps : List LoaderStep) :
    WaiterHistory l w key steps := by
  have hwf := h.run steps
  have hwaitrun := hwait.run hw steps
  have hle := l.waiterCount_le_run steps
  refine ⟨hwf.count_waiter (Nat.lt_of_lt_of_le hw hle), hwaitrun, ?_, ?_, ?_, ?_⟩
  · intro hmem now
    simp only [Loader.step, startDispatch_eq, inFlightWaiters, List.flatMap_append,
      waitersOf_append, flatMap_entries_nextChunks]
    exact List.mem_append_right _ hmem
  · intro c hc hmem answer
    exact hwf.complete_settles hwaitrun hc hmem answer
  · intro r hr
    rcases hwait.delivered hw steps hr with hold | hd
    · exact absurd hold (hopen r)
    · exact hd
  · intro r hr more
    rw [run_append]
    exact (hwf.run more).result?_of_mem (settled_subset_run _ more hr)

/-- Every load of a batching loader that misses the cache gets a new waiter of its own, and over
any steps that follow, the waiter is in one place and is settled with the result of its key. -/
theorem waiterHistory_of_miss (name : String) (options : LoaderOptions) (created : Nat)
    (hb : options.batching = true) (before : List LoaderStep) (key : Json)
    (hmiss : ((fresh name options created).run before).cached? key = none)
    (after : List LoaderStep) :
    let s := (fresh name options created).run before
    (s.load key).2 = .queued name s.waiterCount ∧ s.waiterCount ∉ s.waiters ∧
      (s.load key).1.queuedWaiters.Perm (s.queuedWaiters ++ [s.waiterCount]) ∧
      WaiterHistory (s.load key).1 s.waiterCount key after := by
  intro s
  have hwf : s.WellFormed := (wellFormed_fresh name options created).run before
  have hbs : s.options.batching = true := by rw [options_run]; exact hb
  have hname : s.name = name := name_run _ _
  obtain ⟨hticket, hqueued, hcount, hsettled⟩ := hwf.queued_of_miss hbs hmiss
  refine ⟨by rw [hticket, hname], hwf.waiterCount_notMem, hqueued, ?_⟩
  refine (hwf.step (.load key)).waiterHistory (hwf.waitsFor_load key) ?_ ?_ after
  · simp only [step]
    omega
  · intro r hr
    simp only [step, hsettled] at hr
    exact hwf.waiterCount_notMem (mem_waiters_of_settled hr)

theorem waiterHistory_of_miss_in_flight :
    let s := (fresh "ids" {}).run [.load (.int 1), .start]
    s.waiters = [0] ∧ (s.load (.int 1)).2 = .queued "ids" 1 ∧
      WaiterHistory (s.load (.int 1)).1 1 (.int 1)
        [.start, .complete 1 (.ok [.int 7]), .complete 0 (.error (.ofMessage "late"))] := by
  have h := waiterHistory_of_miss "ids" {} 0 rfl [.load (.int 1), .start] (.int 1) rfl
    [.start, .complete 1 (.ok [.int 7]), .complete 0 (.error (.ofMessage "late"))]
  exact ⟨rfl, h.1, h.2.2.2⟩

end Loader

end SchemaAssembly
