import Mathlib.Data.List.Nodup
import Mathlib.Data.List.Range
import SchemaAssembly.Proofs.Loader.Steps

/-!
The invariant of loaders. The slots are exactly the positions of the queued keys, chunks in flight
have numbers of their own, and the waiters in the queue, in flight and settled are together all
waiters that were ever numbered, each one once.
-/

set_option autoImplicit false

namespace SchemaAssembly

/-- Where texts stand in a list. -/
def positions (first : Nat) : List String → Entries Nat
  | [] => []
  | t :: rest => (t, first) :: positions (first + 1) rest

theorem get?_positions_some {text : String} {i : Nat} {texts : List String} {first : Nat}
    (h : (positions first texts).get? text = some i) :
    first ≤ i ∧ texts[i - first]? = some text := by
  induction texts generalizing first with
  | nil => simp [positions, Entries.get?] at h
  | cons t rest ih =>
    by_cases ht : t = text
    · simp only [positions, Entries.get?, ht, if_true, Option.some.injEq] at h
      subst h
      simp [ht]
    · simp only [positions, Entries.get?, ht, if_false] at h
      obtain ⟨hle, hget⟩ := ih h
      have hi : i - first = i - (first + 1) + 1 := by omega
      refine ⟨by omega, ?_⟩
      rw [hi, List.getElem?_cons_succ, hget]

theorem get?_positions_none {text : String} {texts : List String} {first : Nat} :
    (positions first texts).get? text = none ↔ text ∉ texts := by
  induction texts generalizing first with
  | nil => simp [positions, Entries.get?]
  | cons t rest ih =>
    by_cases ht : t = text
    · simp [positions, Entries.get?, ht]
    · simp [positions, Entries.get?, ht, ih, Ne.symm ht]

theorem get?_positions_of_getElem? {text : String} {i : Nat} {texts : List String} (first : Nat)
    (hn : texts.Nodup) (h : texts[i]? = some text) :
    (positions first texts).get? text = some (first + i) := by
  induction texts generalizing first i with
  | nil => simp at h
  | cons t rest ih =>
    rw [List.nodup_cons] at hn
    cases i with
    | zero => simp_all [positions, Entries.get?]
    | succ i =>
      rw [List.getElem?_cons_succ] at h
      have hne : t ≠ text := fun ht => hn.1 (ht ▸ List.mem_of_getElem? h)
      rw [positions, Entries.get?, if_neg hne, ih (first + 1) hn.2 h]
      congr 1
      omega

theorem put_positions {text : String} {texts : List String} (first : Nat) (h : text ∉ texts) :
    (positions first texts).put text (first + texts.length) =
      positions first (texts ++ [text]) := by
  induction texts generalizing first with
  | nil => simp [positions, Entries.put]
  | cons t rest ih =>
    rw [List.mem_cons, not_or] at h
    have hlen : first + (t :: rest).length = first + 1 + rest.length := by
      rw [List.length_cons]
      omega
    rw [hlen]
    simp [positions, Entries.put, Ne.symm h.1, ih (first + 1) h.2]

def textsOf (entries : List QueueEntry) : List String := entries.map fun e => e.key.text

def waitersOf (entries : List QueueEntry) : List Nat := entries.flatMap (·.waiters)

@[simp] theorem textsOf_nil : textsOf [] = [] := rfl

@[simp] theorem textsOf_cons (e : QueueEntry) (rest : List QueueEntry) :
    textsOf (e :: rest) = e.key.text :: textsOf rest := rfl

@[simp] theorem textsOf_append (xs ys : List QueueEntry) :
    textsOf (xs ++ ys) = textsOf xs ++ textsOf ys := List.map_append

@[simp] theorem length_textsOf (entries : List QueueEntry) :
    (textsOf entries).length = entries.length := List.length_map _

@[simp] theorem textsOf_modify_join (w i : Nat) (entries : List QueueEntry) :
    textsOf (entries.modify i (QueueEntry.join w)) = textsOf entries := by
  induction entries generalizing i with
  | nil => cases i <;> rfl
  | cons e rest ih =>
    cases i with
    | zero => rfl
    | succ i => simpa [textsOf, List.modify_succ_cons] using ih i

@[simp] theorem waitersOf_nil : waitersOf [] = [] := rfl

@[simp] theorem waitersOf_cons (e : QueueEntry) (rest : List QueueEntry) :
    waitersOf (e :: rest) = e.waiters ++ waitersOf rest := rfl

@[simp] theorem waitersOf_append (xs ys : List QueueEntry) :
    waitersOf (xs ++ ys) = waitersOf xs ++ waitersOf ys := List.flatMap_append

theorem waitersOf_modify_join {i : Nat} {entries : List QueueEntry} (w : Nat)
    (hi : i < entries.length) :
    (waitersOf (entries.modify i (QueueEntry.join w))).Perm (waitersOf entries ++ [w]) := by
  induction entries generalizing i with
  | nil => simp at hi
  | cons e rest ih =>
    cases i with
    | zero =>
      rw [List.modify_zero_cons, waitersOf_cons, waitersOf_cons, List.append_assoc]
      simp only [QueueEntry.join, List.append_assoc]
      exact (List.perm_append_comm).append_left e.waiters
    | succ i =>
      rw [List.modify_succ_cons, waitersOf_cons, waitersOf_cons, List.append_assoc]
      exact (ih (by simpa using hi)).append_left e.waiters

theorem mem_modify_join {w i : Nat} {entries : List QueueEntry} {e : QueueEntry}
    (h : e ∈ entries.modify i (QueueEntry.join w)) :
    e ∈ entries ∨ ∃ d, entries[i]? = some d ∧ e = d.join w := by
  obtain ⟨j, hj⟩ := List.mem_iff_getElem?.mp h
  rw [List.getElem?_modify] at hj
  by_cases hij : i = j
  · subst hij
    simp only [if_true, Option.map_eq_map, Option.map_eq_some_iff] at hj
    obtain ⟨d, hd, he⟩ := hj
    exact .inr ⟨d, hd, he.symm⟩
  · have hget : entries[j]? = some e := by simpa [hij] using hj
    exact .inl (List.mem_iff_getElem?.mpr ⟨j, hget⟩)

theorem map_fst_settlements {entries : List QueueEntry}
    {results : List (Except LoaderError Json)} (h : results.length = entries.length) :
    (settlements entries results).map (·.1) = waitersOf entries := by
  induction entries generalizing results with
  | nil => rfl
  | cons e rest ih =>
    cases results with
    | nil => simp at h
    | cons r more =>
      rw [settlements_cons, List.map_append, ih (by simpa using h), List.map_map, waitersOf_cons]
      simp [Function.comp_def]

theorem perm_filter_chunks {id : Nat} {c : Chunk} {chunks : List Chunk}
    (hn : (chunks.map (·.id)).Nodup) (h : (chunks.find? fun c => c.id == id) = some c) :
    chunks.Perm (c :: chunks.filter fun c => c.id != id) := by
  induction chunks with
  | nil => simp at h
  | cons d rest ih =>
    rw [List.map_cons, List.nodup_cons] at hn
    by_cases hd : d.id = id
    · have hc : d = c := by simpa [hd] using h
      have hrest : (rest.filter fun c => c.id != id) = rest := by
        rw [List.filter_eq_self]
        intro x hx
        have hne : x.id ≠ id := by
          intro he
          exact hn.1 (List.mem_map.mpr ⟨x, hx, he.trans hd.symm⟩)
        simpa using hne
      rw [List.filter_cons_of_neg (by simp [hd]), hrest, hc]
    · have hf : (rest.find? fun c => c.id == id) = some c := by simpa [hd] using h
      have hkeep : ((d :: rest).filter fun c => c.id != id) =
          d :: rest.filter fun c => c.id != id := by simp [hd]
      rw [hkeep]
      exact ((ih hn.2 hf).cons d).trans (.swap c d _)

namespace Loader

def queuedWaiters (l : Loader) : List Nat := waitersOf l.queue

def inFlightWaiters (l : Loader) : List Nat := waitersOf (l.inFlight.flatMap (·.entries))

def settledWaiters (l : Loader) : List Nat := l.settled.map (·.1)

def waiters (l : Loader) : List Nat := l.queuedWaiters ++ l.inFlightWaiters ++ l.settledWaiters

structure WellFormed (l : Loader) : Prop where
  slots : l.slots = if l.options.caching then positions 0 (textsOf l.queue) else []
  distinct : l.options.caching = true → (textsOf l.queue).Nodup
  unbatched : l.options.batching = false → l.queue = [] ∧ l.inFlight = []
  waited : ∀ e ∈ l.queue, e.waiters ≠ []
  chunkIds : (l.inFlight.map (·.id)).Nodup
  chunkCount : ∀ c ∈ l.inFlight, c.id < l.chunkCount
  waiters : l.waiters.Perm (List.range l.waiterCount)

theorem wellFormed_fresh (name : String) (options : LoaderOptions) (created : Nat) :
    (fresh name options created).WellFormed where
  slots := (ite_self []).symm
  distinct _ := List.nodup_nil
  unbatched _ := ⟨rfl, rfl⟩
  waited _ he := absurd he List.not_mem_nil
  chunkIds := List.nodup_nil
  chunkCount _ hc := absurd hc List.not_mem_nil
  waiters := .refl _

theorem WellFormed.count_waiter {l : Loader} (h : l.WellFormed) {w : Nat}
    (hw : w < l.waiterCount) :
    l.queuedWaiters.count w + l.inFlightWaiters.count w + l.settledWaiters.count w = 1 := by
  have hone : (List.range l.waiterCount).count w = 1 :=
    List.count_eq_one_of_mem List.nodup_range (List.mem_range.mpr hw)
  have hcount := h.waiters.count_eq w
  rw [hone, Loader.waiters, List.count_append, List.count_append] at hcount
  exact hcount

theorem WellFormed.mem_waiters {l : Loader} (h : l.WellFormed) {w : Nat} :
    w ∈ l.waiters ↔ w < l.waiterCount := by
  rw [h.waiters.mem_iff, List.mem_range]

theorem WellFormed.waiterCount_notMem {l : Loader} (h : l.WellFormed) :
    l.waiterCount ∉ l.waiters := by
  rw [h.mem_waiters]
  exact Nat.lt_irrefl _

theorem mem_waiters_of_settled {l : Loader} {w : Nat} {r : Except LoaderError Json}
    (h : (w, r) ∈ l.settled) : w ∈ l.waiters :=
  List.mem_append_right _ (List.mem_map.mpr ⟨(w, r), h, rfl⟩)

section Preservation

variable {l : Loader}

/-- The cache, the counters and the keys that are loaded alone are not part of the invariant. -/
theorem WellFormed.keep (h : l.WellFormed) (cache : Entries Json) (statistics : Statistics)
    (directs : List String) :
    ({ l with cache := cache, statistics := statistics, directs := directs } : Loader).WellFormed :=
  ⟨h.slots, h.distinct, h.unbatched, h.waited, h.chunkIds, h.chunkCount, h.waiters⟩

theorem WellFormed.slot_some {key : Json} {i : Nat} (h : l.WellFormed)
    (hs : l.slot? key = some i) : ∃ e, l.queue[i]? = some e ∧ e.key.text = key.text := by
  cases hc : l.options.caching with
  | false => simp [slot?, hc] at hs
  | true =>
    have hget : (positions 0 (textsOf l.queue)).get? key.text = some i := by
      simpa [slot?, hc, h.slots] using hs
    obtain ⟨-, ht⟩ := get?_positions_some hget
    rw [Nat.sub_zero, textsOf, List.getElem?_map, Option.map_eq_some_iff] at ht
    exact ht

theorem WellFormed.slot_none {key : Json} (h : l.WellFormed) (hc : l.options.caching = true)
    (hs : l.slot? key = none) : key.text ∉ textsOf l.queue := by
  have hget : (positions 0 (textsOf l.queue)).get? key.text = none := by
    simpa [slot?, hc, h.slots] using hs
  exact get?_positions_none.mp hget

theorem WellFormed.shared {i : Nat} (h : l.WellFormed) (hb : l.options.batching = true)
    (hi : i < l.queue.length) :
    ({ l with
      queue := l.queue.modify i (QueueEntry.join l.waiterCount)
      waiterCount := l.waiterCount + 1 } : Loader).WellFormed where
  slots := by simpa using h.slots
  distinct hc := by simpa using h.distinct hc
  unbatched hu := by
    have hb' : l.options.batching = false := hu
    simp [hb] at hb'
  waited e he := by
    rcases mem_modify_join he with he | ⟨d, -, rfl⟩
    · exact h.waited e he
    · simp [QueueEntry.join]
  chunkIds := h.chunkIds
  chunkCount := h.chunkCount
  waiters := by
    have hq := waitersOf_modify_join l.waiterCount hi
    have hw := h.waiters
    simp only [Loader.waiters, queuedWaiters, inFlightWaiters, settledWaiters,
      List.append_assoc] at hw ⊢
    rw [List.range_succ]
    refine (hq.append_right _).trans ?_
    rw [List.append_assoc]
    refine (List.perm_middle.trans ?_)
    exact ((hw.cons l.waiterCount).trans (List.perm_append_singleton _ _).symm)

theorem WellFormed.queued {key : Json} (h : l.WellFormed) (hb : l.options.batching = true)
    (hs : l.slot? key = none) :
    ({ l with
      queue := l.queue ++ [⟨key, [l.waiterCount]⟩]
      slots := if l.options.caching then l.slots.put key.text l.queue.length else l.slots
      waiterCount := l.waiterCount + 1 } : Loader).WellFormed where
  slots := by
    cases hc : l.options.caching with
    | false => simpa [hc] using h.slots
    | true =>
      have hput := put_positions 0 (h.slot_none hc hs)
      rw [length_textsOf, Nat.zero_add] at hput
      simp only [if_true, h.slots, hc, hput, textsOf_append]
      rfl
  distinct hc := by
    have hn : (textsOf l.queue ++ [key.text]).Nodup :=
      List.nodup_append.mpr ⟨h.distinct hc, List.nodup_singleton _, by
        intro a ha b hb hab
        rw [List.mem_singleton.mp hb] at hab
        exact h.slot_none hc hs (hab ▸ ha)⟩
    simpa using hn
  unbatched hu := by
    have hb' : l.options.batching = false := hu
    simp [hb] at hb'
  waited e he := by
    rcases List.mem_append.mp he with he | he
    · exact h.waited e he
    · simp [List.mem_singleton.mp he]
  chunkIds := h.chunkIds
  chunkCount := h.chunkCount
  waiters := by
    have hw := h.waiters
    simp only [Loader.waiters, queuedWaiters, inFlightWaiters, settledWaiters,
      List.append_assoc, waitersOf_append, waitersOf_cons, waitersOf_nil,
      List.append_nil] at hw ⊢
    rw [List.range_succ]
    refine List.perm_middle.trans ?_
    exact (hw.cons l.waiterCount).trans (List.perm_append_singleton _ _).symm

theorem WellFormed.start (h : l.WellFormed) (now : Nat) :
    ({ l with
      queue := []
      slots := []
      inFlight := l.inFlight ++ l.nextChunks
      chunkCount := l.chunkCount + l.nextChunks.length
      lastDispatch := now } : Loader).WellFormed where
  slots := (ite_self []).symm
  distinct _ := List.nodup_nil
  unbatched hb := by
    obtain ⟨hq, hf⟩ := h.unbatched hb
    refine ⟨rfl, ?_⟩
    simp [nextChunks, hq, hf, numberChunks]
  waited _ he := absurd he List.not_mem_nil
  chunkIds := by
    rw [List.map_append, List.nodup_append]
    refine ⟨h.chunkIds, ?_, ?_⟩
    · rw [nextChunks, map_id_numberChunks]
      exact List.nodup_range'
    · intro a ha b hb hab
      obtain ⟨c, hc, rfl⟩ := List.mem_map.mp ha
      obtain ⟨d, hd, rfl⟩ := List.mem_map.mp hb
      have hlt := h.chunkCount c hc
      have hle := (id_nextChunks hd).1
      omega
  chunkCount c hc := by
    rcases List.mem_append.mp hc with hc | hc
    · have hlt := h.chunkCount c hc
      change c.id < l.chunkCount + _
      omega
    · exact (id_nextChunks hc).2
  waiters := by
    have hw := h.waiters
    simp only [Loader.waiters, queuedWaiters, inFlightWaiters, settledWaiters] at hw
    simp only [Loader.waiters, queuedWaiters, inFlightWaiters, settledWaiters,
      List.flatMap_append, waitersOf_append, flatMap_entries_nextChunks, waitersOf_nil,
      List.nil_append]
    exact (List.perm_append_comm.append_right _).trans hw

theorem WellFormed.settle {id : Nat} {c : Chunk} {results : List (Except LoaderError Json)}
    (h : l.WellFormed) (hf : (l.inFlight.find? fun c => c.id == id) = some c)
    (hlen : results.length = c.entries.length) :
    ({ l with
      inFlight := l.inFlight.filter fun c => c.id != id
      settled := l.settled ++ settlements c.entries results } : Loader).WellFormed where
  slots := h.slots
  distinct := h.distinct
  unbatched hb := by
    obtain ⟨hq, hi⟩ := h.unbatched hb
    exact ⟨hq, by simp [hi]⟩
  waited := h.waited
  chunkIds := h.chunkIds.sublist (List.filter_sublist.map _)
  chunkCount d hd := h.chunkCount d (List.filter_sublist.subset hd)
  waiters := by
    -- The waiters of the chunk move from the chunks in flight to the settled ones.
    have hperm := perm_filter_chunks h.chunkIds hf
    have hflat := (hperm.flatMap_right (·.entries)).flatMap_right (·.waiters)
    refine List.Perm.trans ?_ h.waiters
    rw [List.perm_iff_count]
    intro w
    have hcount := hflat.count_eq w
    simp only [Loader.waiters, queuedWaiters, inFlightWaiters, settledWaiters, waitersOf,
      List.map_append, List.flatMap_cons, List.flatMap_append, List.count_append,
      map_fst_settlements hlen] at hcount ⊢
    omega

theorem WellFormed.effect {a : LoaderStep} {t : Loader} (h : l.WellFormed) (ht : Effect l a t) :
    t.WellFormed := by
  cases ht with
  | keep a cache statistics directs => exact h.keep cache statistics directs
  | join statistics hb hs =>
    obtain ⟨e, he, -⟩ := h.slot_some hs
    obtain ⟨hi, -⟩ := List.getElem?_eq_some_iff.mp he
    exact (h.keep l.cache statistics l.directs).shared hb hi
  | enqueue statistics hb hs => exact (h.keep l.cache statistics l.directs).queued hb hs
  | start now statistics => exact (h.keep l.cache statistics l.directs).start now
  | settle cache statistics hf =>
    exact (h.keep cache statistics l.directs).settle hf (length_outcomes _)

theorem WellFormed.step (h : l.WellFormed) (a : LoaderStep) : (l.step a).WellFormed :=
  h.effect (effect_step l a)

theorem WellFormed.run (h : l.WellFormed) (steps : List LoaderStep) : (l.run steps).WellFormed :=
  run_induction (fun _ a hl => hl.step a) steps h

end Preservation

end Loader

end SchemaAssembly
