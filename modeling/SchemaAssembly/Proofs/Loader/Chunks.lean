import SchemaAssembly.Proofs.Loader.Waiters

/-!
The chunks of a dispatch. A queue is cut into consecutive parts of one size, and the ends of the
chunks, in whatever order they come, together settle all waiters of the queue.
-/

set_option autoImplicit false

namespace SchemaAssembly

section Cut

variable {α : Type}

/-- Consecutive parts of a list. Under a limit all of them have that length but for the last one,
which is not empty; without one there is one part. -/
structure CutsInto (limit : Option Nat) (xs : List α) (parts : List (List α)) : Prop where
  flatten : parts.flatten = xs
  full : ∀ p ∈ parts.dropLast, limit = some p.length
  last : ∀ p ∈ parts.getLast?, p ≠ [] ∧ ∀ size ∈ limit, p.length ≤ size
  whole : limit = none → xs ≠ [] → parts = [xs]

theorem cutsInto_nil (limit : Option Nat) : CutsInto limit ([] : List α) [] where
  flatten := rfl
  full _ hp := absurd hp List.not_mem_nil
  last _ hp := by cases hp
  whole _ hne := absurd rfl hne

theorem cutsInto_single {limit : Option Nat} {xs : List α} (hne : xs ≠ [])
    (hlen : ∀ size ∈ limit, xs.length ≤ size) : CutsInto limit xs [xs] where
  flatten := by simp
  full p hp := by simp at hp
  last p hp := by
    obtain rfl : xs = p := by simpa using hp
    exact ⟨hne, hlen⟩
  whole _ _ := rfl

theorem CutsInto.cons {size : Nat} {xs : List α} {parts : List (List α)}
    (hlen : size < xs.length) (h : CutsInto (some size) (xs.drop size) parts) :
    CutsInto (some size) xs (xs.take size :: parts) := by
  have hne : parts ≠ [] := by
    rintro rfl
    have hdrop : xs.drop size = [] := h.flatten.symm
    rw [List.drop_eq_nil_iff] at hdrop
    omega
  refine ⟨?_, ?_, ?_, nofun⟩
  · rw [List.flatten_cons, h.flatten, List.take_append_drop]
  · intro p hp
    rw [List.dropLast_cons_of_ne_nil hne] at hp
    rcases List.mem_cons.mp hp with rfl | hp
    · rw [List.length_take, Nat.min_eq_left (Nat.le_of_lt hlen)]
    · exact h.full p hp
  · intro p hp
    rw [List.getLast?_cons_of_ne_nil hne] at hp
    exact h.last p hp

theorem cutsInto_piecesFrom {size : Nat} (hs : size ≠ 0) (fuel : Nat) {xs : List α} (hne : xs ≠ [])
    (hfuel : xs.length ≤ fuel) : CutsInto (some size) xs (piecesFrom size fuel xs) := by
  induction fuel generalizing xs with
  | zero => exact absurd (List.length_eq_zero_iff.mp (by omega)) hne
  | succ fuel ih =>
    by_cases hle : xs.length ≤ size
    · simp only [piecesFrom, hle, if_true]
      exact cutsInto_single hne fun _ h => Option.some.inj h ▸ hle
    · have hrest : xs.drop size ≠ [] := by
        rw [ne_eq, List.drop_eq_nil_iff]
        omega
      have hlen : (xs.drop size).length ≤ fuel := by
        rw [List.length_drop]
        omega
      simp only [piecesFrom, hle, if_false]
      exact (ih hrest hlen).cons (by omega)

theorem cutsInto_pieces {limit : Option Nat} (hl : limit ≠ some 0) (xs : List α) :
    CutsInto limit xs (pieces limit xs) := by
  by_cases hne : xs = []
  · subst hne
    exact cutsInto_nil limit
  · cases limit with
    | none =>
      rw [Loader.pieces_unlimited hne]
      exact cutsInto_single hne nofun
    | some size =>
      exact cutsInto_piecesFrom (fun h => hl (congrArg some h)) xs.length hne (Nat.le_refl _)

end Cut

namespace Entries

variable {α : Type} {name : String} {value : α} {t pairs : Entries α}

def putAll (t : Entries α) (pairs : Entries α) : Entries α :=
  pairs.foldl (fun t p => t.put p.1 p.2) t

theorem putAll_append (t pairs more : Entries α) :
    t.putAll (pairs ++ more) = (t.putAll pairs).putAll more := List.foldl_append

theorem get?_putAll_of_notMem (h : name ∉ pairs.map (·.1)) :
    (t.putAll pairs).get? name = t.get? name := by
  induction pairs generalizing t with
  | nil => rfl
  | cons p rest ih =>
    rw [List.map_cons, List.mem_cons, not_or] at h
    rw [putAll, List.foldl_cons, ← putAll, ih h.2, get?_put_of_ne _ _ h.1]

theorem exists_get?_putAll (h : name ∈ pairs.map (·.1)) :
    ∃ value, (name, value) ∈ pairs ∧ (t.putAll pairs).get? name = some value := by
  induction pairs generalizing t with
  | nil => exact absurd h List.not_mem_nil
  | cons p rest ih =>
    by_cases hrest : name ∈ rest.map (·.1)
    · obtain ⟨value, hmem, hget⟩ := ih hrest
      exact ⟨value, List.mem_cons_of_mem p hmem, hget⟩
    · obtain rfl : name = p.1 := (List.mem_cons.mp h).resolve_right hrest
      refine ⟨p.2, List.mem_cons_self, ?_⟩
      rw [putAll, List.foldl_cons, ← putAll, get?_putAll_of_notMem hrest, get?_put_self]

/-- Under distinct names, no value displaces another one. -/
theorem get?_putAll_of_mem (hn : (pairs.map (·.1)).Nodup) (h : (name, value) ∈ pairs) :
    (t.putAll pairs).get? name = some value := by
  induction pairs generalizing t with
  | nil => exact absurd h List.not_mem_nil
  | cons p rest ih =>
    rw [List.map_cons, List.nodup_cons] at hn
    rw [putAll, List.foldl_cons, ← putAll]
    rcases List.mem_cons.mp h with rfl | h
    · rw [get?_putAll_of_notMem hn.1, get?_put_self]
    · exact ih hn.2 h

end Entries

theorem cacheAll_eq (cache : Entries Json) (entries : List QueueEntry) (values : List Json) :
    cacheAll cache entries values = cache.putAll ((textsOf entries).zip values) := by
  induction entries generalizing cache values with
  | nil => simp [cacheAll, Entries.putAll]
  | cons e rest ih =>
    cases values with
    | nil => simp [cacheAll, Entries.putAll]
    | cons v more => simp [cacheAll, ih, Entries.putAll]

@[simp] theorem Chunk.length_keys (c : Chunk) : c.keys.length = c.entries.length :=
  List.length_map _

theorem Chunk.getElem?_keys_eq_some_iff {c : Chunk} {i : Nat} {key : Json} :
    c.keys[i]? = some key ↔ ∃ e, c.entries[i]? = some e ∧ e.key = key := by
  rw [keys, List.getElem?_map, Option.map_eq_some_iff]

/-- The values of an answer that has one for each of so many keys. -/
def valuesFor? (keys : Nat) : Except HandlerError (List Json) → Option (List Json)
  | .ok values => if values.length = keys then some values else none
  | .error _ => none

theorem valuesFor?_eq_some_iff {keys : Nat} {answer : Except HandlerError (List Json)}
    {values : List Json} :
    valuesFor? keys answer = some values ↔ answer = .ok values ∧ values.length = keys := by
  cases answer with
  | error e => simp [valuesFor?]
  | ok given =>
    rw [valuesFor?, Option.ite_none_right_eq_some, Option.some.injEq, Except.ok.injEq, and_comm]
    exact and_congr_right fun h => by rw [h]

theorem length_of_valuesFor? {keys : Nat} {answer : Except HandlerError (List Json)}
    {values : List Json} (h : valuesFor? keys answer = some values) : values.length = keys :=
  (valuesFor?_eq_some_iff.mp h).2

def chunkEnds (answers : Nat → Except HandlerError (List Json)) (chunks : List Chunk) :
    List LoaderStep :=
  chunks.map fun c => .complete c.id (answers c.id)

def broughtBy (answers : Nat → Except HandlerError (List Json)) (chunks : List Chunk) :
    Entries Json :=
  chunks.flatMap fun c =>
    (textsOf c.entries).zip ((valuesFor? c.entries.length (answers c.id)).getD [])

/-- How many chunks have an answer that is an error or has a wrong number of values. -/
def failures (answers : Nat → Except HandlerError (List Json)) (chunks : List Chunk) : Nat :=
  chunks.countP fun c => (valuesFor? c.entries.length (answers c.id)).isNone

section Brought

variable {answers : Nat → Except HandlerError (List Json)} {chunks : List Chunk}

theorem broughtBy_cons (c : Chunk) (rest : List Chunk) :
    broughtBy answers (c :: rest) =
      (textsOf c.entries).zip ((valuesFor? c.entries.length (answers c.id)).getD []) ++
        broughtBy answers rest := rfl

theorem failures_cons (c : Chunk) (rest : List Chunk) :
    failures answers (c :: rest) =
      (if (valuesFor? c.entries.length (answers c.id)).isNone then 1 else 0) +
        failures answers rest := by
  rw [failures, List.countP_cons, Nat.add_comm, failures]

theorem mem_broughtBy {c : Chunk} {i : Nat} {e : QueueEntry} {values : List Json} {v : Json}
    (hc : c ∈ chunks) (hvalues : valuesFor? c.entries.length (answers c.id) = some values)
    (he : c.entries[i]? = some e) (hv : values[i]? = some v) :
    (e.key.text, v) ∈ broughtBy answers chunks := by
  refine List.mem_flatMap.mpr ⟨c, hc, ?_⟩
  rw [hvalues, Option.getD_some]
  refine List.mem_iff_getElem?.mpr ⟨i, List.getElem?_zip_eq_some.mpr ⟨?_, hv⟩⟩
  rw [textsOf, List.getElem?_map, he, Option.map_some]

theorem exists_of_mem_broughtBy {text : String} (h : text ∈ (broughtBy answers chunks).map (·.1)) :
    ∃ c ∈ chunks, (valuesFor? c.entries.length (answers c.id)).isSome ∧
      text ∈ textsOf c.entries := by
  obtain ⟨p, hp, rfl⟩ := List.mem_map.mp h
  obtain ⟨c, hc, hp⟩ := List.mem_flatMap.mp hp
  refine ⟨c, hc, ?_, (List.of_mem_zip hp).1⟩
  cases hv : valuesFor? c.entries.length (answers c.id) with
  | none => simp [hv] at hp
  | some values => rfl

theorem nodup_broughtBy (h : (textsOf (chunks.flatMap (·.entries))).Nodup) :
    ((broughtBy answers chunks).map (·.1)).Nodup := by
  refine h.sublist ?_
  clear h
  induction chunks with
  | nil => exact .slnil
  | cons c rest ih =>
    rw [broughtBy_cons, List.map_append, List.flatMap_cons, textsOf_append]
    refine List.Sublist.append ?_ ih
    cases hv : valuesFor? c.entries.length (answers c.id) with
    | none => simp
    | some values =>
      rw [Option.getD_some, List.map_fst_zip (by rw [length_textsOf, length_of_valuesFor? hv])]

end Brought

namespace Loader

variable {l : Loader} {answers : Nat → Except HandlerError (List Json)}

theorem cached?_of_caching (hc : l.options.caching = true) (key : Json) :
    l.cached? key = l.cache.get? key.text := by
  simp [cached?, hc]

theorem checkAnswer_eq_ok_iff {keys : Nat} {answer : Except HandlerError (List Json)}
    {values : List Json} :
    l.checkAnswer keys answer = .ok values ↔ valuesFor? keys answer = some values := by
  cases answer with
  | error e => simp [checkAnswer, valuesFor?]
  | ok given => by_cases hlen : given.length = keys <;> simp [checkAnswer, valuesFor?, hlen]

theorem cacheAfter_eq (l : Loader) (entries : List QueueEntry)
    (answer : Except HandlerError (List Json)) :
    l.cacheAfter entries answer =
      if l.options.caching then
        l.cache.putAll ((textsOf entries).zip ((valuesFor? entries.length answer).getD []))
      else l.cache := by
  cases hcheck : l.checkAnswer entries.length answer with
  | ok values =>
    simp only [cacheAfter, hcheck, checkAnswer_eq_ok_iff.mp hcheck, Option.getD_some, cacheAll_eq]
  | error e =>
    have hnone : valuesFor? entries.length answer = none := by
      rw [Option.eq_none_iff_forall_ne_some]
      intro values hvalues
      rw [checkAnswer_eq_ok_iff.mpr hvalues] at hcheck
      cases hcheck
    simp [cacheAfter, hcheck, hnone, Entries.putAll]

theorem statisticsAfter_eq (l : Loader) (keys : Nat) (answer : Except HandlerError (List Json)) :
    l.statisticsAfter keys answer = { l.statistics with
      errors := l.statistics.errors + if (valuesFor? keys answer).isNone then 1 else 0 } := by
  cases answer with
  | error e => simp [statisticsAfter, checkAnswer, valuesFor?]
  | ok given =>
    by_cases hlen : given.length = keys <;> simp [statisticsAfter, checkAnswer, valuesFor?, hlen]

/-- A loader after the ends of chunks that were in flight. -/
def afterEnds (l : Loader) (answers : Nat → Except HandlerError (List Json))
    (chunks : List Chunk) : Loader :=
  { l with
    inFlight := l.inFlight.filter fun c => c.id ∉ chunks.map (·.id)
    statistics := { l.statistics with errors := l.statistics.errors + failures answers chunks }
    cache := if l.options.caching then l.cache.putAll (broughtBy answers chunks) else l.cache
    settled := l.settled ++ chunks.flatMap fun c =>
      settlements c.entries (l.outcomes c.entries.length (answers c.id)) }

theorem afterEnds_cons {c : Chunk} {rest : List Chunk}
    (hf : (l.inFlight.find? fun d => d.id == c.id) = some c) :
    (l.complete c.id (answers c.id)).afterEnds answers rest = l.afterEnds answers (c :: rest) := by
  have hin : ((l.inFlight.filter fun d => d.id != c.id).filter fun d =>
      d.id ∉ rest.map (·.id)) = l.inFlight.filter fun d => d.id ∉ (c :: rest).map (·.id) := by
    rw [List.filter_filter]
    refine List.filter_congr fun d _ => ?_
    by_cases hd : d.id = c.id <;> simp [hd]
  have hcache : (if l.options.caching then
      (l.cacheAfter c.entries (answers c.id)).putAll (broughtBy answers rest)
      else l.cacheAfter c.entries (answers c.id)) =
        if l.options.caching then l.cache.putAll (broughtBy answers (c :: rest)) else l.cache := by
    cases hc : l.options.caching <;>
      simp [cacheAfter_eq, hc, broughtBy_cons, Entries.putAll_append]
  rw [complete_found hf]
  simp only [afterEnds, hin, hcache, statisticsAfter_eq, failures_cons, List.flatMap_cons,
    List.append_assoc, Nat.add_assoc]
  rfl

theorem run_chunkEnds {chunks : List Chunk} (hl : (l.inFlight.map (·.id)).Nodup)
    (hin : chunks ⊆ l.inFlight) (hn : (chunks.map (·.id)).Nodup) :
    l.run (chunkEnds answers chunks) = l.afterEnds answers chunks := by
  induction chunks generalizing l with
  | nil => simp [chunkEnds, afterEnds, broughtBy, failures, Entries.putAll]
  | cons c rest ih =>
    have hf := find?_key Chunk.id hl (hin List.mem_cons_self)
    rw [List.map_cons, List.nodup_cons] at hn
    have hrest : rest ⊆ (l.complete c.id (answers c.id)).inFlight := by
      rw [complete_found hf]
      intro d hd
      refine List.mem_filter.mpr ⟨hin (List.mem_cons_of_mem c hd), ?_⟩
      have hne : d.id ≠ c.id := fun heq => hn.1 (List.mem_map.mpr ⟨d, hd, heq⟩)
      simpa using hne
    have hids : ((l.complete c.id (answers c.id)).inFlight.map (·.id)).Nodup := by
      rw [complete_found hf]
      exact hl.sublist (List.filter_sublist.map _)
    rw [← afterEnds_cons hf, ← ih hids hrest hn.2]
    rfl

end Loader

end SchemaAssembly
