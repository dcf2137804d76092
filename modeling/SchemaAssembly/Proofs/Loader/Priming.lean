import SchemaAssembly.Proofs.Loader.Chunks
import SchemaAssembly.Proofs.Loader.Freshness

/-!
Primed values. A primed key stays cached until it is cleared, so nobody queues it any more; but the
calls for loads that came before the prime still enter what they bring when they end.
-/

set_option autoImplicit false

namespace SchemaAssembly

namespace Loader

variable {s t l : Loader} {a : LoaderStep} {key v : Json}

/-- The step ends a call that brings a value for the key: the call for a chunk with an entry of the
key that was open in the state `s`, or a call for the key alone that was open in that state. -/
inductive BringsFor (s l : Loader) (key v : Json) : LoaderStep → Prop where
  | chunk {c : Chunk} {values : List Json} (hc : c ∈ l.inFlight) (hbrings : Brings c values key v)
      (hopen : ∃ e ∈ c.entries, e.key = key ∧ e ∈ s.openEntries) :
      BringsFor s l key v (.complete c.id (.ok values))
  | alone (hd : key.text ∈ l.directs) (hopen : key.text ∈ s.directs) :
      BringsFor s l key v (.completeDirect key (.ok [v]))

theorem BringsFor.mono (h : BringsFor t l key v a)
    (hopen : ∀ e ∈ t.openEntries, e.key = key → e ∈ s.openEntries)
    (hdirect : key.text ∈ t.directs → key.text ∈ s.directs) : BringsFor s l key v a := by
  cases h with
  | chunk hc hbrings hold =>
    obtain ⟨e, he, hkey, hin⟩ := hold
    exact .chunk hc hbrings ⟨e, he, hkey, hopen e hin hkey⟩
  | alone hd hold => exact .alone hd (hdirect hold)

/-- An entry of a chunk in flight is open as long as the chunk is in flight. -/
theorem BringsFor.self (h : BringsFor s l key v a) : BringsFor l l key v a := by
  cases h with
  | chunk hc hbrings hopen =>
    obtain ⟨e, he, hkey, -⟩ := hopen
    exact .chunk hc hbrings ⟨e, he, hkey, mem_open_of_chunk hc he⟩
  | alone hd _ => exact .alone hd hd

/-- The value of a cached key after a step. -/
inductive ValueAfter (l : Loader) (key v : Json) (a : LoaderStep) : Json → Prop where
  | kept (hnone : ∀ w, ¬ BringsFor l l key w a) : ValueAfter l key v a v
  | brought {u : Json} (hbrings : BringsFor l l key u a) : ValueAfter l key v a u

/-- No step of a run brings a value for the key. -/
def BringsNone (s : Loader) (key : Json) : Loader → List LoaderStep → Prop
  | _, [] => True
  | l, a :: rest => (∀ v, ¬ BringsFor s l key v a) ∧ BringsNone s key (l.step a) rest

section Step

theorem brings_iff {c : Chunk} {values : List Json} (hlen : values.length = c.entries.length) :
    Brings c values key v ↔ (key.text, v) ∈ (textsOf c.entries).zip values := by
  have hkeys : values.length = c.keys.length := by rw [hlen, Chunk.length_keys]
  have hget : ∀ i : Nat, c.keys[i]? = some key ↔ (textsOf c.entries)[i]? = some key.text := by
    intro i
    rw [Chunk.getElem?_keys_eq_some_iff, textsOf, List.getElem?_map, Option.map_eq_some_iff]
    exact exists_congr fun e => and_congr_right fun _ => ⟨congrArg Json.text, Json.text_injective⟩
  simp only [Brings, hkeys, true_and, hget, List.mem_iff_getElem?, List.getElem?_zip_eq_some]

theorem bringsFor_of_brings {c : Chunk} {values : List Json} (hc : c ∈ l.inFlight)
    (h : Brings c values key v) : BringsFor l l key v (.complete c.id (.ok values)) := by
  obtain ⟨i, hi, -⟩ := h.2
  obtain ⟨e, he, hkey⟩ := Chunk.getElem?_keys_eq_some_iff.mp hi
  have hmem : e ∈ c.entries := List.mem_of_getElem? he
  exact .chunk hc h ⟨e, hmem, hkey, mem_open_of_chunk hc hmem⟩

theorem BringsFor.brings {id : Nat} {answer : Except HandlerError (List Json)} {c : Chunk}
    (h : BringsFor s l key v (.complete id answer)) (hl : l.WellFormed)
    (hf : (l.inFlight.find? fun c => c.id == id) = some c) :
    ∃ values, answer = .ok values ∧ Brings c values key v := by
  cases h with
  | @chunk d values hd hbrings _ =>
    rw [find?_key Chunk.id hl.chunkIds hd, Option.some.injEq] at hf
    exact ⟨values, rfl, hf ▸ hbrings⟩

theorem cached?_complete (hl : l.WellFormed) (hc : l.options.caching = true)
    (hv : l.cache.get? key.text = some v) (id : Nat)
    (answer : Except HandlerError (List Json)) :
    ∃ u, (l.complete id answer).cache.get? key.text = some u ∧
      ValueAfter l key v (.complete id answer) u := by
  cases hf : l.inFlight.find? fun c => c.id == id with
  | none =>
    refine ⟨v, by rw [complete_missing hf, hv], .kept fun w hbrings => ?_⟩
    cases hbrings with
    | chunk hin _ _ => simpa using List.find?_eq_none.mp hf _ hin
  | some c =>
    obtain rfl : c.id = id := by simpa using List.find?_some hf
    simp only [complete_found hf, cacheAfter_eq, hc, if_true]
    cases hvalues : valuesFor? c.entries.length answer with
    | none =>
      refine ⟨v, by simpa [Entries.putAll] using hv, .kept fun w hbrings => ?_⟩
      obtain ⟨values, rfl, hlen, -⟩ := hbrings.brings hl hf
      rw [Chunk.length_keys] at hlen
      rw [valuesFor?_eq_some_iff.mpr ⟨rfl, hlen⟩] at hvalues
      cases hvalues
    | some values =>
      obtain ⟨rfl, hlen⟩ := valuesFor?_eq_some_iff.mp hvalues
      rw [Option.getD_some]
      by_cases hmem : key.text ∈ ((textsOf c.entries).zip values).map (·.1)
      · obtain ⟨u, hu, hget⟩ := Entries.exists_get?_putAll hmem
        exact ⟨u, hget, .brought (bringsFor_of_brings (List.mem_of_find?_eq_some hf)
          ((brings_iff hlen).mpr hu))⟩
      · refine ⟨v, by rw [Entries.get?_putAll_of_notMem hmem, hv], .kept fun w hbrings => ?_⟩
        obtain ⟨_, heq, hbrings⟩ := hbrings.brings hl hf
        rw [← Except.ok.inj heq] at hbrings
        exact hmem (List.mem_map.mpr ⟨_, (brings_iff hlen).mp hbrings, rfl⟩)

theorem cached?_completeDirect (hc : l.options.caching = true)
    (hv : l.cache.get? key.text = some v) (k : Json) (answer : Except HandlerError (List Json)) :
    ∃ u, (l.completeDirect k answer).cache.get? key.text = some u ∧
      ValueAfter l key v (.completeDirect k answer) u := by
  by_cases hd : k.text ∈ l.directs
  · simp only [completeDirect_of_mem hd, cacheAfter_eq, hc, if_true, List.length_singleton]
    cases hvalues : valuesFor? 1 answer with
    | none =>
      refine ⟨v, by simpa [Entries.putAll] using hv, .kept fun w hbrings => ?_⟩
      cases hbrings with
      | alone => cases hvalues
    | some values =>
      obtain ⟨rfl, hlen⟩ := valuesFor?_eq_some_iff.mp hvalues
      obtain ⟨u, rfl⟩ := List.length_eq_one_iff.mp hlen
      by_cases hk : key = k
      · subst hk
        exact ⟨u, Entries.get?_put_self _ _ _, .brought (.alone hd hd)⟩
      · have hne : key.text ≠ k.text := fun htext => hk (Json.text_injective htext)
        refine ⟨v, (Entries.get?_put_of_ne _ _ hne).trans hv, .kept fun w hbrings => ?_⟩
        cases hbrings with
        | alone => exact hk rfl
  · refine ⟨v, by rw [completeDirect_of_notMem hd, hv], .kept fun w hbrings => ?_⟩
    cases hbrings with
    | alone hin _ => exact hd hin

/-- A cached key stays cached until it is cleared. The end of a call that brings a value for it
changes its value, and no other step does. -/
theorem WellFormed.cached?_step (hl : l.WellFormed) (hc : l.options.caching = true)
    (hv : l.cached? key = some v) (hclear : a ≠ .clear) (hkey : a ≠ .clearKey key) :
    ∃ u, (l.step a).cached? key = some u ∧ ValueAfter l key v a u := by
  have hct : (l.step a).options.caching = true := by rw [(effect_step l a).options_eq, hc]
  rw [cached?_of_caching hc] at hv
  rw [cached?_of_caching hct]
  cases a with
  | load k =>
    exact ⟨v, by rw [Loader.step, cache_load, hv], .kept fun _ hbrings => by cases hbrings⟩
  | start => exact ⟨v, hv, .kept fun _ hbrings => by cases hbrings⟩
  | complete id answer => exact cached?_complete hl hc hv id answer
  | startDirect => exact ⟨v, hv, .kept fun _ hbrings => by cases hbrings⟩
  | completeDirect k answer => exact cached?_completeDirect hc hv k answer
  | prime k w =>
    refine ⟨v, ?_, .kept fun _ hbrings => by cases hbrings⟩
    simp only [Loader.step, prime]
    split
    · next hprime =>
      -- Only a key that is not cached is primed.
      have hne : key.text ≠ k.text := by
        intro htext
        simp [hc, Entries.contains, ← htext, hv] at hprime
      rw [Entries.get?_put_of_ne _ _ hne, hv]
    · exact hv
  | clear => exact absurd rfl hclear
  | clearKey k =>
    have hne : key.text ≠ k.text := fun htext => hkey (by rw [Json.text_injective htext])
    exact ⟨v, by rw [Loader.step, clearKey, Entries.get?_erase_of_ne _ hne, hv],
      .kept fun _ hbrings => by cases hbrings⟩

theorem WellFormed.mem_open_step (h : l.WellFormed) (hv : l.cached? key = some v)
    {e : QueueEntry} (he : e ∈ (l.step a).openEntries) (hkey : e.key = key) :
    e ∈ l.openEntries := by
  rcases (effect_step l a).mem_open he with hold | ⟨k, i, d, rfl, hs, hd, rfl⟩ | ⟨k, rfl, rfl⟩
  · exact hold
  · obtain ⟨d', hd', htext⟩ := h.slot_some hs
    obtain rfl : d' = d := Option.some.inj (hd'.symm.trans hd)
    have hk : k = key := (Json.text_injective htext).symm.trans hkey
    rw [Loader.step, hk, load_hit hv] at he
    exact he
  · obtain rfl : k = key := hkey
    rw [Loader.step, load_hit hv] at he
    exact he

theorem mem_directs_step (hv : l.cached? key = some v) (hd : key.text ∈ (l.step a).directs) :
    key.text ∈ l.directs := by
  cases a with
  | load k =>
    cases hc : l.cached? k with
    | some w => rwa [Loader.step, load_hit hc] at hd
    | none =>
      -- A direct call is for a key that is not cached, so it is for another key.
      have hne : key ≠ k := by
        rintro rfl
        rw [hv] at hc
        cases hc
      cases hb : l.options.batching with
      | false =>
        simp only [Loader.step, load_direct hc hb, List.mem_append, List.mem_singleton] at hd
        exact hd.resolve_right fun htext => hne (Json.text_injective htext)
      | true =>
        cases hs : l.slot? k with
        | some i => rwa [Loader.step, load_shared hc hb hs] at hd
        | none => rwa [Loader.step, load_queued hc hb hs] at hd
  | start now => rwa [Loader.step, startDispatch_eq] at hd
  | complete id answer =>
    cases hf : l.inFlight.find? fun c => c.id == id with
    | none => rwa [Loader.step, complete_missing hf] at hd
    | some c => rwa [Loader.step, complete_found hf] at hd
  | startDirect => exact hd
  | completeDirect k answer =>
    by_cases hk : k.text ∈ l.directs
    · rw [Loader.step, completeDirect_of_mem hk] at hd
      exact List.mem_of_mem_erase hd
    · rwa [Loader.step, completeDirect_of_notMem hk] at hd
  | prime k w =>
    simp only [Loader.step, prime] at hd
    split at hd
    · exact hd
    · exact hd
  | clear => exact hd
  | clearKey k => exact hd

end Step

/-- A state after a prime of the key in the state `s`, with no clear since. -/
structure Primed (s l : Loader) (key : Json) : Prop where
  wellFormed : l.WellFormed
  caching : l.options.caching = true
  openBefore : ∀ e ∈ l.openEntries, e.key = key → e ∈ s.openEntries
  directsBefore : key.text ∈ l.directs → key.text ∈ s.directs

theorem Primed.step (h : Primed s l key) (hv : l.cached? key = some v) (a : LoaderStep) :
    Primed s (l.step a) key where
  wellFormed := h.wellFormed.step a
  caching := by rw [(effect_step l a).options_eq, h.caching]
  openBefore e he hkey := h.openBefore e (h.wellFormed.mem_open_step hv he hkey) hkey
  directsBefore hd := h.directsBefore (mem_directs_step hv hd)

/-- The value of a primed key is the last one that was brought for it. -/
theorem Primed.run {steps : List LoaderStep} (h : Primed s l key) (hv : l.cached? key = some v)
    (hclear : .clear ∉ steps) (hkey : .clearKey key ∉ steps) :
    ∃ u, (l.run steps).cached? key = some u ∧
      (u = v ∧ BringsNone s key l steps ∨ ∃ earlier a later, steps = earlier ++ a :: later ∧
        BringsFor s (l.run earlier) key u a ∧
          BringsNone s key ((l.run earlier).step a) later) := by
  induction steps generalizing l v with
  | nil => exact ⟨v, hv, .inl ⟨rfl, trivial⟩⟩
  | cons a rest ih =>
    rw [List.mem_cons, not_or] at hclear hkey
    obtain ⟨w, hw, hfirst⟩ :=
      h.wellFormed.cached?_step h.caching hv (Ne.symm hclear.1) (Ne.symm hkey.1)
    obtain ⟨u, hu, hrest⟩ := ih (h.step hv a) hw hclear.2 hkey.2
    refine ⟨u, hu, ?_⟩
    rcases hrest with ⟨rfl, hnone⟩ | ⟨earlier, b, later, rfl, hb⟩
    · cases hfirst with
      | kept hstep => exact .inl ⟨rfl, fun w hbrings => hstep w hbrings.self, hnone⟩
      | brought hbrings => exact .inr ⟨[], a, rest, rfl, hbrings.mono h.openBefore h.directsBefore, hnone⟩
    · exact .inr ⟨a :: earlier, b, later, rfl, hb⟩

theorem primed_prime (hwf : l.WellFormed) (hc : l.options.caching = true)
    (hmiss : l.cached? key = none) (v : Json) :
    Primed l (l.step (.prime key v)) key ∧ (l.step (.prime key v)).cached? key = some v := by
  have hget : l.cache.get? key.text = none := by rw [← cached?_of_caching hc, hmiss]
  have hprime : l.step (.prime key v) = { l with cache := l.cache.put key.text v } := by
    simp [Loader.step, prime, hc, Entries.contains, hget]
  have hct : (l.step (.prime key v)).options.caching = true := by rw [hprime, hc]
  refine ⟨⟨hwf.step _, hct, ?_, ?_⟩, ?_⟩
  · rw [hprime]
    exact fun e he _ => he
  · rw [hprime]
    exact id
  · rw [cached?_of_caching hct, hprime, Entries.get?_put_self]

/-- Every load of a primed key is answered from the cache until the key is cleared. It gives the
last value that a call has brought since for a load from before the prime, or the primed value where
none has; where no such load was open, it gives the primed value. -/
theorem primed_value_stays (name : String) {options : LoaderOptions} (created : Nat)
    (hc : options.caching = true) (before between : List LoaderStep) (key value : Json)
    (hmiss : ((fresh name options created).run before).cached? key = none)
    (hclear : .clear ∉ between) (hkey : .clearKey key ∉ between) :
    let s := (fresh name options created).run before
    let primed := s.step (.prime key value)
    ∃ v, ((primed.run between).load key).2 = .answered v ∧
      (v = value ∧ BringsNone s key primed between ∨
        ∃ earlier a later, between = earlier ++ a :: later ∧
          BringsFor s (primed.run earlier) key v a ∧
            BringsNone s key ((primed.run earlier).step a) later) ∧
      ((∀ e ∈ s.openEntries, e.key ≠ key) → key.text ∉ s.directs → v = value) := by
  intro s primed
  have hwf : s.WellFormed := (wellFormed_fresh name options created).run before
  have hcs : s.options.caching = true := by rw [options_run, fresh, hc]
  obtain ⟨hprimed, hvalue⟩ := primed_prime hwf hcs hmiss value
  obtain ⟨v, hv, hcases⟩ := hprimed.run hvalue hclear hkey
  refine ⟨v, by rw [load_hit hv], hcases, ?_⟩
  intro hnone halone
  rcases hcases with ⟨rfl, -⟩ | ⟨earlier, a, later, -, hbrings, -⟩
  · rfl
  · cases hbrings with
    | chunk _ _ hopen =>
      obtain ⟨e, -, hkey, he⟩ := hopen
      exact absurd hkey (hnone e he)
    | alone _ hopen => exact absurd hopen halone

theorem primed_value_stays_beside_dispatch :
    let s := (fresh "ids" {}).run [.load (.int 2)]
    let primed := s.step (.prime (.int 1) (.str "early"))
    ((primed.run [.load (.int 1), .start, .complete 0 (.ok [.int 7])]).load (.int 1)).2 =
      .answered (.str "early") := by
  intro s primed
  have hcaching : ({} : LoaderOptions).caching = true := rfl
  obtain ⟨v, hv, -, hstays⟩ := primed_value_stays "ids" 0 hcaching [.load (.int 2)]
    [.load (.int 1), .start, .complete 0 (.ok [.int 7])] (.int 1) (.str "early") rfl
    (by simp) (by simp)
  have hother : ∀ e ∈ s.openEntries, e.key ≠ .int 1 := by
    intro e he hkey
    obtain rfl : e = ⟨.int 2, [0]⟩ := List.mem_singleton.mp he
    cases hkey
  rw [hv, hstays hother List.not_mem_nil]

/-- A call for a load from before the prime displaces the primed value when it ends. -/
theorem primed_value_displaced :
    let s := (fresh "ids" {}).run [.load (.int 1)]
    let t := (s.step (.prime (.int 1) (.str "late"))).run [.start, .complete 0 (.ok [.int 7])]
    s.cached? (.int 1) = none ∧
      ((s.step (.prime (.int 1) (.str "late"))).load (.int 1)).2 = .answered (.str "late") ∧
      (t.load (.int 1)).2 = .answered (.int 7) := by
  exact ⟨rfl, rfl, rfl⟩

end Loader

end SchemaAssembly
