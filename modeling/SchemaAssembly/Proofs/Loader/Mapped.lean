import SchemaAssembly.Proofs.Loader.Fetching
import SchemaAssembly.Proofs.Loader.SideBySide

/-!
Batch functions that answer with a table. A key takes its entry out of the table, so every position
gets the entry of its key where no key repeats, and of a key that repeats only the first position
gets it.
-/

set_option autoImplicit false

namespace SchemaAssembly

def entryFor (found : Entries Json) (key : Json) : Json := (found.get? key.text).getD .null

/-- The values of keys where each key takes its entry with it. -/
structure TakenOnce (found : Entries Json) (keys values : List Json) : Prop where
  length : values.length = keys.length
  first : ∀ (i : Nat) (key : Json), keys[i]? = some key → key ∉ keys.take i →
    values[i]? = some (entryFor found key)
  again : ∀ (i : Nat) (key : Json), keys[i]? = some key → key ∈ keys.take i →
    values[i]? = some .null

section Take

variable {found : Entries Json} {keys values : List Json} {key k : Json} {i : Nat}

theorem takeEach_cons (found : Entries Json) (key : Json) (rest : List Json) :
    takeEach found (key :: rest) = entryFor found key :: takeEach (found.erase key.text) rest := rfl

theorem length_takeEach (found : Entries Json) (keys : List Json) :
    (takeEach found keys).length = keys.length := by
  induction keys generalizing found with
  | nil => rfl
  | cons k rest ih => rw [takeEach_cons, List.length_cons, List.length_cons, ih]

theorem entryFor_erase_of_ne (h : key ≠ k) :
    entryFor (found.erase k.text) key = entryFor found key := by
  have hne : key.text ≠ k.text := fun htext => h (Json.text_injective htext)
  rw [entryFor, entryFor, Entries.get?_erase_of_ne _ hne]

theorem entryFor_erase_self (hn : (found.map (·.1)).Nodup) :
    entryFor (found.erase key.text) key = .null := by
  rw [entryFor, Entries.get?_erase_self hn, Option.getD_none]

theorem entryFor_erase_of_null (hn : (found.map (·.1)).Nodup) (h : entryFor found key = .null) :
    entryFor (found.erase k.text) key = .null := by
  by_cases hk : key = k
  · rw [hk, entryFor_erase_self hn]
  · rw [entryFor_erase_of_ne hk, h]

theorem getElem?_takeEach_first (hi : keys[i]? = some key) (hfirst : key ∉ keys.take i) :
    (takeEach found keys)[i]? = some (entryFor found key) := by
  induction keys generalizing found i with
  | nil => simp at hi
  | cons k rest ih =>
    cases i with
    | zero =>
      obtain rfl : k = key := by simpa using hi
      rfl
    | succ i =>
      rw [List.take_succ_cons, List.mem_cons, not_or] at hfirst
      rw [List.getElem?_cons_succ] at hi
      rw [takeEach_cons, List.getElem?_cons_succ, ih hi hfirst.2, entryFor_erase_of_ne hfirst.1]

theorem getElem?_takeEach_of_null (hn : (found.map (·.1)).Nodup)
    (hnull : entryFor found key = .null) (hi : keys[i]? = some key) :
    (takeEach found keys)[i]? = some .null := by
  induction keys generalizing found i with
  | nil => simp at hi
  | cons k rest ih =>
    cases i with
    | zero =>
      obtain rfl : k = key := by simpa using hi
      rw [takeEach_cons, List.getElem?_cons_zero, hnull]
    | succ i =>
      rw [List.getElem?_cons_succ] at hi
      rw [takeEach_cons, List.getElem?_cons_succ]
      exact ih (Entries.nodup_keys_erase hn) (entryFor_erase_of_null hn hnull) hi

theorem getElem?_takeEach_again (hn : (found.map (·.1)).Nodup) (hi : keys[i]? = some key)
    (hagain : key ∈ keys.take i) : (takeEach found keys)[i]? = some .null := by
  induction keys generalizing found i with
  | nil => simp at hi
  | cons k rest ih =>
    cases i with
    | zero => simp at hagain
    | succ i =>
      have hrest : ((found.erase k.text).map (·.1)).Nodup := Entries.nodup_keys_erase hn
      rw [List.getElem?_cons_succ] at hi
      rw [takeEach_cons, List.getElem?_cons_succ]
      rcases List.mem_cons.mp hagain with rfl | hagain
      · exact getElem?_takeEach_of_null hrest (entryFor_erase_self hn) hi
      · exact ih hrest hi hagain

theorem takenOnce_takeEach (hn : (found.map (·.1)).Nodup) (keys : List Json) :
    TakenOnce found keys (takeEach found keys) where
  length := length_takeEach found keys
  first _ _ hi hfirst := getElem?_takeEach_first hi hfirst
  again _ _ hi hagain := getElem?_takeEach_again hn hi hagain

/-- Of keys that do not repeat, each one is asked for a first time. -/
theorem TakenOnce.entry_of_nodup (h : TakenOnce found keys values) (hk : keys.Nodup)
    (hi : keys[i]? = some key) : values[i]? = some (entryFor found key) := by
  refine h.first i key hi fun hmem => ?_
  obtain ⟨j, hj, hget⟩ := List.mem_take_iff_getElem.mp hmem
  obtain ⟨hlt, hat⟩ := List.getElem?_eq_some_iff.mp hi
  have hij : j = i := hk.getElem_inj_iff.mp (hget.trans hat.symm)
  omega

/-- All positions get the entries of their keys just if no key that repeats has one. -/
theorem TakenOnce.entries_iff (h : TakenOnce found keys values) :
    values = keys.map (entryFor found) ↔
      ∀ (i : Nat) (key : Json), keys[i]? = some key → key ∈ keys.take i →
        entryFor found key = .null := by
  constructor
  · rintro rfl i key hi hagain
    have hnull := h.again i key hi hagain
    rw [List.getElem?_map, hi, Option.map_some, Option.some.injEq] at hnull
    exact hnull
  · intro hnull
    refine List.ext_getElem? fun i => ?_
    rw [List.getElem?_map]
    cases hi : keys[i]? with
    | none =>
      rw [List.getElem?_eq_none_iff, ← h.length] at hi
      rw [Option.map_none, List.getElem?_eq_none_iff]
      exact hi
    | some key =>
      by_cases hagain : key ∈ keys.take i
      · rw [h.again i key hi hagain, Option.map_some, hnull i key hi hagain]
      · rw [h.first i key hi hagain, Option.map_some]

end Take

namespace Session

variable {α β : Type} {call : Caller} {s : Session}

theorem advanceBy_map (f : α → β) (w : Work α) :
    advanceBy call s (w.map f) = ((advanceBy call s w).1, (advanceBy call s w).2.map f) := by
  induction w generalizing s with
  | done a => rfl
  | load n key next ih => exact ih _
  | dispatch n next ih => exact ih _
  | await tickets next ih =>
    rw [Work.map_await, advanceBy_await, advanceBy_await]
    cases (askFirst call s 0 tickets).2 with
    | none => rfl
    | some p => exact ih p.1 p.2

end Session

namespace BatchLoader

variable {find : LoaderEnvironment → List Json → Work (Except HandlerError (Entries Json))}
  {call : Session.Caller} {s s' : Session} {environment : LoaderEnvironment} {keys : List Json}
  {found : Entries Json}

theorem advanceBy_mapped
    (h : Session.advanceBy call s (find environment keys) = (s', .done (.ok found))) :
    Session.advanceBy call s ((mapped find).load environment keys) =
      (s', .done (.ok (takeEach found keys))) := by
  rw [mapped, Session.advanceBy_map, h]
  rfl

/-- The first position of a key gets the entry that the table has for it, and every later one gets
null, so all positions get the entries of their keys just if no key that repeats has one. The loads
of the keys in a dispatch get what their positions get; with caching, keys do not repeat, and every
load gets the entry of its key. -/
theorem mapped_takes_once
    (hfound : Session.advanceBy call s (find environment keys) = (s', .done (.ok found)))
    (hn : (found.map (·.1)).Nodup) :
    ∃ values, Session.advanceBy call s ((mapped find).load environment keys) =
        (s', .done (.ok values)) ∧
      TakenOnce found keys values ∧
      (values = keys.map (entryFor found) ↔
        ∀ (i : Nat) (key : Json), keys[i]? = some key → key ∈ keys.take i →
          entryFor found key = .null) ∧
      ∀ (name : String) (options : LoaderOptions) (created now : Nat) (before : List LoaderStep)
        (answers : Nat → Except HandlerError (List Json)) (order : List Chunk),
        let l := (Loader.fresh name options created).run before
        order.Perm l.nextChunks → ∀ c ∈ l.nextChunks, c.keys = keys → answers c.id = .ok values →
          ∀ (i : Nat) e, c.entries[i]? = some e → ∀ w ∈ e.waiters, ∃ v, values[i]? = some v ∧
            (l.run (.start now :: chunkEnds answers order)).result? w = some (.ok v) ∧
            (options.caching = true → v = entryFor found e.key) := by
  have htaken := takenOnce_takeEach hn keys
  refine ⟨takeEach found keys, advanceBy_mapped hfound, htaken, htaken.entries_iff, ?_⟩
  intro name options created now before answers order l horder c hc hkeys hanswer i e he w hw
  have hwf : l.WellFormed := (Loader.wellFormed_fresh name options created).run before
  have hd : l.Dispatched answers (l.run (.start now :: chunkEnds answers order)) :=
    hwf.dispatched horder now
  obtain ⟨r, hr, hresult⟩ := hd.delivered c hc i e he w hw
  rw [hanswer] at hr
  have hlen : (takeEach found keys).length = c.entries.length := by
    rw [htaken.length, ← hkeys, Chunk.length_keys]
  cases hr with
  | mismatch hne => exact absurd hlen hne
  | @value _ v _ hv =>
    refine ⟨v, hv, hresult, fun hcaching => ?_⟩
    have hcl : l.options.caching = true := by rw [Loader.options_run, Loader.fresh, hcaching]
    have hnodup : keys.Nodup := by
      rw [← hkeys]
      exact (List.nodup_flatMap.mp (hwf.nodup_keys hcl)).1 c hc
    have hat : keys[i]? = some e.key := by
      rw [← hkeys]
      exact Chunk.getElem?_keys_eq_some_iff.mpr ⟨e, he, rfl⟩
    rw [htaken.entry_of_nodup hnodup hat] at hv
    exact (Option.some.inj hv).symm

theorem mapped_takes_once_of_three :
    let find : LoaderEnvironment → List Json → Work (Except HandlerError (Entries Json)) :=
      fun _ _ => .done (.ok [("1", .str "one"), ("2", .str "two")])
    let s := Session.ofLoader "numbers" (mapped find) { caching := false } .stopped .empty
    let environment : LoaderEnvironment := ⟨"numbers", .empty, none⟩
    ∃ values, Session.advanceBy s.call s
        ((mapped find).load environment [.int 1, .int 2, .int 1]) = (s, .done (.ok values)) ∧
      values[0]? = some (.str "one") ∧ values[1]? = some (.str "two") ∧
        values[2]? = some .null := by
  intro find s environment
  have hfound : Session.advanceBy s.call s (find environment [.int 1, .int 2, .int 1]) =
      (s, .done (.ok [("1", .str "one"), ("2", .str "two")])) := rfl
  obtain ⟨values, hvalues, htaken, -⟩ := mapped_takes_once hfound (by decide)
  exact ⟨values, hvalues, htaken.first 0 (.int 1) rfl (by simp),
    htaken.first 1 (.int 2) rfl (by simp), htaken.again 2 (.int 1) rfl (by simp)⟩

/-- Two loads of one key in a dispatch without caching: the second one gets null. -/
theorem mapped_repeated_key_gets_null :
    let batch := mapped fun _ _ => .done (.ok [("1", .str "one")])
    let s := Session.ofLoader "numbers" batch { caching := false } .stopped .empty
    let c := Client.performAll "numbers" { session := s } [.loadMany [.int 1, .int 1], .dispatch]
    c.loads.map c.poll = [some [.ok (.str "one"), .ok .null]] := by
  rfl

end BatchLoader

end SchemaAssembly
