import Mathlib.Data.List.Basic
import SchemaAssembly.Loader.State

/-!
A loader as a transition system. Its steps are the actions on its state that no other action can
interrupt; every history of a loader is a run of steps from a new loader.
-/

set_option autoImplicit false

namespace SchemaAssembly

inductive LoaderStep where
  | load (key : Json)
  /-- The queue is taken and the batch function is called for its chunks. -/
  | start (now : Nat := 0)
  /-- The batch function answers for a chunk in flight. -/
  | complete (id : Nat) (answer : Except HandlerError (List Json))
  /-- The batch function is called for one key alone. -/
  | startDirect
  | completeDirect (key : Json) (answer : Except HandlerError (List Json))
  | prime (key value : Json)
  | clear
  | clearKey (key : Json)

def QueueEntry.join (w : Nat) (e : QueueEntry) : QueueEntry := { e with waiters := e.waiters ++ [w] }

/-- What the waiters of entries are settled with, one result for each entry. -/
def settlements (entries : List QueueEntry) (results : List (Except LoaderError Json)) :
    List (Nat × Except LoaderError Json) :=
  (entries.zip results).flatMap fun p => p.1.waiters.map fun w => (w, p.2)

@[simp] theorem settlements_nil (results : List (Except LoaderError Json)) :
    settlements [] results = [] := rfl

@[simp] theorem settlements_cons (e : QueueEntry) (entries : List QueueEntry)
    (r : Except LoaderError Json) (results : List (Except LoaderError Json)) :
    settlements (e :: entries) (r :: results) =
      (e.waiters.map fun w => (w, r)) ++ settlements entries results := rfl

theorem mem_settlements {entries : List QueueEntry} {results : List (Except LoaderError Json)}
    {w : Nat} {r : Except LoaderError Json} :
    (w, r) ∈ settlements entries results ↔
      ∃ (i : Nat) (e : QueueEntry),
        entries[i]? = some e ∧ results[i]? = some r ∧ w ∈ e.waiters := by
  simp only [settlements, List.mem_flatMap, List.mem_map, Prod.mk.injEq]
  constructor
  · rintro ⟨p, hp, w', hw, rfl, rfl⟩
    obtain ⟨i, hi⟩ := List.mem_iff_getElem?.mp hp
    obtain ⟨he, hr⟩ := List.getElem?_zip_eq_some.mp hi
    exact ⟨i, p.1, he, hr, hw⟩
  · rintro ⟨i, e, he, hr, hw⟩
    have hp : (e, r) ∈ entries.zip results :=
      List.mem_iff_getElem?.mpr ⟨i, List.getElem?_zip_eq_some.mpr ⟨he, hr⟩⟩
    exact ⟨(e, r), hp, w, hw, rfl, rfl⟩

def cacheAll : Entries Json → List QueueEntry → List Json → Entries Json
  | cache, e :: entries, v :: values => cacheAll (cache.put e.key.text v) entries values
  | cache, _, _ => cache

namespace Loader

def fresh (name : String) (options : LoaderOptions) (created : Nat := 0) : Loader where
  name := name
  options := options
  lastDispatch := created

def step (l : Loader) : LoaderStep → Loader
  | .load key => (l.load key).1
  | .start now => (l.startDispatch now).1
  | .complete id answer => l.complete id answer
  | .startDirect => l.countCalls 1 1
  | .completeDirect key answer => l.completeDirect key answer
  | .prime key value => l.prime key value
  | .clear => l.clear
  | .clearKey key => l.clearKey key

def run (l : Loader) (steps : List LoaderStep) : Loader := steps.foldl step l

@[simp] theorem run_nil (l : Loader) : l.run [] = l := rfl

@[simp] theorem run_cons (l : Loader) (a : LoaderStep) (steps : List LoaderStep) :
    l.run (a :: steps) = (l.step a).run steps := rfl

theorem run_append (l : Loader) (xs ys : List LoaderStep) :
    l.run (xs ++ ys) = (l.run xs).run ys := List.foldl_append

theorem run_induction {P : Loader → Prop} (hstep : ∀ l a, P l → P (l.step a)) {l : Loader}
    (steps : List LoaderStep) (h : P l) : P (l.run steps) := by
  induction steps generalizing l with
  | nil => exact h
  | cons a rest ih => exact ih (hstep l a h)

section Load

variable {l : Loader} {key : Json}

/-- The state in which a load looks for its key. -/
def countLoad (l : Loader) : Loader :=
  { l with statistics := { l.statistics with loads := l.statistics.loads + 1 } }

theorem load_eq (l : Loader) (key : Json) :
    l.load key =
      match l.cached? key with
      | some value =>
        ({ l with statistics := { l.statistics with
          loads := l.statistics.loads + 1, cacheHits := l.statistics.cacheHits + 1 } },
          .answered value)
      | none =>
        if l.options.batching then l.countLoad.enqueue key
        else ({ l.countLoad with directs := l.directs ++ [key.text] }, .direct l.name key) := rfl

theorem load_hit {value : Json} (h : l.cached? key = some value) :
    l.load key = ({ l with statistics := { l.statistics with
      loads := l.statistics.loads + 1, cacheHits := l.statistics.cacheHits + 1 } },
      .answered value) := by
  rw [load_eq, h]

theorem load_direct (h : l.cached? key = none) (hb : l.options.batching = false) :
    l.load key =
      ({ l.countLoad with directs := l.directs ++ [key.text] }, .direct l.name key) := by
  simp [load_eq, h, hb]

theorem load_batched (h : l.cached? key = none) (hb : l.options.batching = true) :
    l.load key = l.countLoad.enqueue key := by
  simp [load_eq, h, hb]

theorem load_shared {i : Nat} (h : l.cached? key = none) (hb : l.options.batching = true)
    (hs : l.slot? key = some i) :
    l.load key = ({ l.countLoad with
      queue := l.queue.modify i (QueueEntry.join l.waiterCount)
      waiterCount := l.waiterCount + 1 }, .queued l.name l.waiterCount) := by
  have hc : l.countLoad.slot? key = some i := hs
  rw [load_batched h hb]
  simp only [enqueue, hc]
  rfl

theorem load_queued (h : l.cached? key = none) (hb : l.options.batching = true)
    (hs : l.slot? key = none) :
    l.load key = ({ l.countLoad with
      queue := l.queue ++ [⟨key, [l.waiterCount]⟩]
      slots := if l.options.caching then l.slots.put key.text l.queue.length else l.slots
      waiterCount := l.waiterCount + 1 }, .queued l.name l.waiterCount) := by
  have hc : l.countLoad.slot? key = none := hs
  rw [load_batched h hb]
  simp only [enqueue, hc]
  rfl

@[simp] theorem cache_load (l : Loader) (key : Json) : (l.load key).1.cache = l.cache := by
  cases hc : l.cached? key with
  | some value => rw [load_hit hc]
  | none =>
    cases hb : l.options.batching with
    | false => rw [load_direct hc hb, countLoad]
    | true =>
      cases hs : l.slot? key with
      | some i => rw [load_shared hc hb hs, countLoad]
      | none => rw [load_queued hc hb hs, countLoad]

end Load

section Start

variable {α : Type}

@[simp] theorem pieces_nil (limit : Option Nat) : pieces limit ([] : List α) = [] := rfl

theorem pieces_unlimited {xs : List α} (h : xs ≠ []) : pieces none xs = [xs] := by
  cases xs with
  | nil => exact absurd rfl h
  | cons x rest => simp [pieces, piecesFrom]

theorem flatten_piecesFrom {size : Nat} (hs : size ≠ 0) (fuel : Nat) (xs : List α)
    (h : xs.length ≤ fuel) : (piecesFrom size fuel xs).flatten = xs := by
  induction fuel generalizing xs with
  | zero =>
    have hx : xs = [] := List.length_eq_zero_iff.mp (by omega)
    simp [piecesFrom, hx]
  | succ fuel ih =>
    by_cases hle : xs.length ≤ size
    · simp [piecesFrom, hle]
    · have hd : (xs.drop size).length ≤ fuel := by
        rw [List.length_drop]
        omega
      simp [piecesFrom, hle, ih _ hd]

/-- Nothing is lost and nothing is moved when a queue is cut. -/
theorem flatten_pieces {limit : Option Nat} (hl : limit ≠ some 0) (xs : List α) :
    (pieces limit xs).flatten = xs := by
  cases limit with
  | none =>
    by_cases hx : xs = []
    · simp [hx]
    · simp [pieces_unlimited hx]
  | some size =>
    have hs : size ≠ 0 := fun h => hl (congrArg some h)
    exact flatten_piecesFrom hs xs.length xs (Nat.le_refl _)

@[simp] theorem map_entries_numberChunks (first : Nat) (parts : List (List QueueEntry)) :
    (numberChunks first parts).map (·.entries) = parts := by
  induction parts generalizing first with
  | nil => rfl
  | cons p rest ih => simp [numberChunks, ih]

@[simp] theorem map_id_numberChunks (first : Nat) (parts : List (List QueueEntry)) :
    (numberChunks first parts).map (·.id) = List.range' first parts.length := by
  induction parts generalizing first with
  | nil => rfl
  | cons p rest ih => simp [numberChunks, ih, List.range'_succ]

def nextChunks (l : Loader) : List Chunk :=
  numberChunks l.chunkCount (pieces l.options.maxBatchSize l.queue)

@[simp] theorem length_numberChunks (first : Nat) (parts : List (List QueueEntry)) :
    (numberChunks first parts).length = parts.length := by
  rw [← List.length_map (fun c : Chunk => c.entries), map_entries_numberChunks]

theorem startDispatch_eq (l : Loader) (now : Nat) :
    l.startDispatch now =
      ({ l.countCalls l.nextChunks.length l.queue.length with
        queue := []
        slots := []
        inFlight := l.inFlight ++ l.nextChunks
        chunkCount := l.chunkCount + l.nextChunks.length
        lastDispatch := now },
      l.nextChunks) := by
  simp [startDispatch, nextChunks]

theorem flatMap_entries_nextChunks (l : Loader) :
    l.nextChunks.flatMap (·.entries) = l.queue := by
  rw [nextChunks, List.flatMap_def, map_entries_numberChunks,
    flatten_pieces l.options.maxBatchSize_ne_zero]

theorem id_nextChunks {l : Loader} {c : Chunk} (h : c ∈ l.nextChunks) :
    l.chunkCount ≤ c.id ∧ c.id < l.chunkCount + l.nextChunks.length := by
  have hm : c.id ∈ l.nextChunks.map (·.id) := List.mem_map_of_mem h
  rw [nextChunks, map_id_numberChunks, List.mem_range'_1] at hm
  rwa [nextChunks, length_numberChunks]

end Start

section Complete

variable {l : Loader} {answer : Except HandlerError (List Json)}

theorem deliver_eq (entries : List QueueEntry) (values : List Json) (l : Loader) :
    l.deliver entries values = { l with
      cache := if l.options.caching then cacheAll l.cache entries values else l.cache
      settled := l.settled ++ settlements entries (values.map .ok) } := by
  induction entries generalizing values l with
  | nil => simp [deliver, cacheAll, settlements]
  | cons e rest ih =>
    cases values with
    | nil => simp [deliver, cacheAll, settlements]
    | cons v more =>
      cases hc : l.options.caching <;>
        simp [deliver, ih, remember, settle, cacheAll, settlements, hc]

theorem settle_all_eq (e : LoaderError) (entries : List QueueEntry) (l : Loader) :
    entries.foldl (fun l entry => l.settle (.error e) entry) l = { l with
      settled := l.settled ++
        settlements entries (List.replicate entries.length (.error e)) } := by
  induction entries generalizing l with
  | nil => simp [settlements]
  | cons entry rest ih =>
    rw [List.foldl_cons, ih]
    simp [settle, List.replicate_succ]

/-- The results for the keys of a chunk of so many keys. -/
def outcomes (l : Loader) (keys : Nat) (answer : Except HandlerError (List Json)) :
    List (Except LoaderError Json) :=
  match l.checkAnswer keys answer with
  | .ok values => values.map .ok
  | .error e => List.replicate keys (.error e)

def cacheAfter (l : Loader) (entries : List QueueEntry)
    (answer : Except HandlerError (List Json)) : Entries Json :=
  match l.checkAnswer entries.length answer with
  | .ok values => if l.options.caching then cacheAll l.cache entries values else l.cache
  | .error _ => l.cache

def statisticsAfter (l : Loader) (keys : Nat) (answer : Except HandlerError (List Json)) :
    Statistics :=
  match l.checkAnswer keys answer with
  | .ok _ => l.statistics
  | .error _ => { l.statistics with errors := l.statistics.errors + 1 }

theorem checkAnswer_ok {keys : Nat} {values : List Json}
    (h : l.checkAnswer keys answer = .ok values) : answer = .ok values ∧ values.length = keys := by
  cases answer with
  | error e => simp [checkAnswer] at h
  | ok given =>
    by_cases hl : given.length = keys
    · simp only [checkAnswer, hl, if_true, Except.ok.injEq] at h
      subst h
      exact ⟨rfl, hl⟩
    · simp [checkAnswer, hl] at h

@[simp] theorem length_outcomes (keys : Nat) : (l.outcomes keys answer).length = keys := by
  cases h : l.checkAnswer keys answer with
  | ok values => simp [outcomes, h, (checkAnswer_ok h).2]
  | error e => simp [outcomes, h]

theorem complete_missing {id : Nat} (h : (l.inFlight.find? fun c => c.id == id) = none) :
    l.complete id answer = l := by
  simp [complete, h]

theorem complete_found {id : Nat} {c : Chunk}
    (h : (l.inFlight.find? fun c => c.id == id) = some c) :
    l.complete id answer = { l with
      inFlight := l.inFlight.filter fun c => c.id != id
      statistics := l.statisticsAfter c.entries.length answer
      cache := l.cacheAfter c.entries answer
      settled := l.settled ++ settlements c.entries (l.outcomes c.entries.length answer) } := by
  have hcheck : ({ l with inFlight := l.inFlight.filter fun c => c.id != id } : Loader).checkAnswer
      c.entries.length answer = l.checkAnswer c.entries.length answer := rfl
  simp only [complete, h, hcheck]
  cases ha : l.checkAnswer c.entries.length answer with
  | ok values => simp [deliver_eq, outcomes, cacheAfter, statisticsAfter, ha]
  | error e => simp [settle_all_eq, outcomes, cacheAfter, statisticsAfter, countError, ha]

end Complete

/-- What a step does to a loader. Cache, counters and the keys that are loaded alone may change in
any step. -/
inductive Effect (l : Loader) : LoaderStep → Loader → Prop where
  | keep (a : LoaderStep) (cache : Entries Json) (statistics : Statistics)
      (directs : List String) :
      Effect l a { l with cache := cache, statistics := statistics, directs := directs }
  | join {key : Json} {i : Nat} (statistics : Statistics) (hb : l.options.batching = true)
      (hs : l.slot? key = some i) :
      Effect l (.load key) { l with
        queue := l.queue.modify i (QueueEntry.join l.waiterCount)
        statistics := statistics
        waiterCount := l.waiterCount + 1 }
  | enqueue {key : Json} (statistics : Statistics) (hb : l.options.batching = true)
      (hs : l.slot? key = none) :
      Effect l (.load key) { l with
        queue := l.queue ++ [⟨key, [l.waiterCount]⟩]
        slots := if l.options.caching then l.slots.put key.text l.queue.length else l.slots
        statistics := statistics
        waiterCount := l.waiterCount + 1 }
  | start (now : Nat) (statistics : Statistics) :
      Effect l (.start now) { l with
        queue := []
        slots := []
        statistics := statistics
        inFlight := l.inFlight ++ l.nextChunks
        chunkCount := l.chunkCount + l.nextChunks.length
        lastDispatch := now }
  | settle {id : Nat} {c : Chunk} {answer : Except HandlerError (List Json)}
      (cache : Entries Json) (statistics : Statistics)
      (hf : (l.inFlight.find? fun c => c.id == id) = some c) :
      Effect l (.complete id answer) { l with
        cache := cache
        statistics := statistics
        inFlight := l.inFlight.filter fun c => c.id != id
        settled := l.settled ++ settlements c.entries (l.outcomes c.entries.length answer) }

theorem effect_load (l : Loader) (key : Json) : Effect l (.load key) (l.load key).1 := by
  cases hc : l.cached? key with
  | some value =>
    rw [load_hit hc]
    exact .keep _ _ _ _
  | none =>
    cases hb : l.options.batching with
    | false =>
      rw [load_direct hc hb]
      exact .keep _ _ _ _
    | true =>
      cases hs : l.slot? key with
      | some i =>
        rw [load_shared hc hb hs]
        exact .join _ hb hs
      | none =>
        rw [load_queued hc hb hs]
        exact .enqueue _ hb hs

theorem effect_complete (l : Loader) (id : Nat) (answer : Except HandlerError (List Json)) :
    Effect l (.complete id answer) (l.complete id answer) := by
  cases hf : l.inFlight.find? fun c => c.id == id with
  | none =>
    rw [complete_missing hf]
    exact .keep _ _ _ _
  | some c =>
    rw [complete_found hf]
    exact .settle _ _ hf

section CompleteDirect

variable {l : Loader} {key : Json} {answer : Except HandlerError (List Json)}

theorem completeDirect_of_notMem (h : key.text ∉ l.directs) :
    l.completeDirect key answer = l := by
  simp [completeDirect, h]

/-- An answer for one key acts on cache and counters as one for a chunk of that key. -/
theorem completeDirect_of_mem (h : key.text ∈ l.directs) :
    l.completeDirect key answer = { l with
      cache := l.cacheAfter [⟨key, []⟩] answer
      statistics := l.statisticsAfter 1 answer
      directs := l.directs.erase key.text } := by
  have hcheck : ({ l with directs := l.directs.erase key.text } : Loader).directResult answer =
      l.directResult answer := rfl
  simp only [completeDirect, List.contains_iff_mem, h, if_true, hcheck]
  simp only [directResult, cacheAfter, statisticsAfter, List.length_singleton]
  cases ha : l.checkAnswer 1 answer with
  | error e => rfl
  | ok values =>
    obtain ⟨v, rfl⟩ := List.length_eq_one_iff.mp (checkAnswer_ok ha).2
    cases hc : l.options.caching <;> simp [Except.map, remember, cacheAll, hc]

theorem effect_completeDirect (l : Loader) (key : Json)
    (answer : Except HandlerError (List Json)) :
    Effect l (.completeDirect key answer) (l.completeDirect key answer) := by
  by_cases h : key.text ∈ l.directs
  · rw [completeDirect_of_mem h]
    exact .keep _ _ _ _
  · rw [completeDirect_of_notMem h]
    exact .keep _ _ _ _

end CompleteDirect

theorem effect_step (l : Loader) (a : LoaderStep) : Effect l a (l.step a) := by
  cases a with
  | load key => exact effect_load l key
  | start now =>
    simp only [step, startDispatch_eq]
    exact .start _ _
  | complete id answer => exact effect_complete l id answer
  | startDirect => exact .keep _ _ _ _
  | completeDirect key answer => exact effect_completeDirect l key answer
  | prime key value =>
    simp only [step, prime]
    split
    · exact .keep _ _ _ _
    · exact .keep _ _ _ _
  | clear => exact .keep _ _ _ _
  | clearKey key => exact .keep _ _ _ _

end Loader

end SchemaAssembly
