import SchemaAssembly.Proofs.Loader.Waiters

/-!
A loader whose batch function computes one value for each key. Whatever steps it takes, its cache
and the results of its waiters are the computed values.
-/

set_option autoImplicit false

namespace SchemaAssembly

theorem mem_cacheAll {cache : Entries Json} {entries : List QueueEntry} {values : List Json}
    {p : String × Json} (h : p ∈ cacheAll cache entries values) :
    p ∈ cache ∨ ∃ (i : Nat) (e : QueueEntry) (v : Json),
      entries[i]? = some e ∧ values[i]? = some v ∧ p = (e.key.text, v) := by
  induction entries generalizing cache values with
  | nil => exact .inl h
  | cons e rest ih =>
    cases values with
    | nil => exact .inl h
    | cons v more =>
      rcases ih h with h | ⟨i, d, u, hd, hu, hp⟩
      · rcases Entries.mem_put h with hp | h
        · exact .inr ⟨0, e, v, rfl, rfl, hp⟩
        · exact .inl h
      · exact .inr ⟨i + 1, d, u, hd, hu, hp⟩

namespace Loader

section Reach

/-- A step in which the batch function answers its keys as it should and nothing is primed. -/
def Allows (P : List Json → Except HandlerError (List Json) → Prop) (l : Loader) :
    LoaderStep → Prop
  | .complete id answer => ∀ c ∈ l.inFlight, c.id = id → P c.keys answer
  | .completeDirect key answer => P [key] answer
  | .prime _ _ => False
  | _ => True

inductive Reach (P : List Json → Except HandlerError (List Json) → Prop) (l : Loader) :
    Loader → Prop where
  | refl : Reach P l l
  | tail {t : Loader} {a : LoaderStep} (h : Reach P l t) (ha : t.Allows P a) :
      Reach P l (t.step a)

variable {P : List Json → Except HandlerError (List Json) → Prop} {l t u : Loader}

theorem Reach.single {a : LoaderStep} (ha : l.Allows P a) : Reach P l (l.step a) :=
  .tail .refl ha

theorem Reach.trans (h : Reach P l t) (h' : Reach P t u) : Reach P l u := by
  induction h' with
  | refl => exact h
  | tail _ ha ih => exact .tail ih ha

theorem Reach.invariant {Q : Loader → Prop} (h : Reach P l t)
    (hstep : ∀ (s : Loader) (a : LoaderStep), Q s → s.Allows P a → Q (s.step a)) (hl : Q l) :
    Q t := by
  induction h with
  | refl => exact hl
  | tail _ ha ih => exact hstep _ _ ih ha

theorem Reach.exists_run (h : Reach P l t) : ∃ steps, t = l.run steps := by
  induction h with
  | refl => exact ⟨[], rfl⟩
  | tail _ _ ih =>
    obtain ⟨steps, rfl⟩ := ih
    exact ⟨steps ++ [_], by rw [run_append, run_cons, run_nil]⟩

theorem Reach.wellFormed (h : Reach P l t) (hl : l.WellFormed) : t.WellFormed :=
  h.invariant (fun _ a hs _ => hs.step a) hl

theorem Reach.options_eq (h : Reach P l t) : t.options = l.options :=
  h.invariant (Q := fun s => s.options = l.options)
    (fun s a hs _ => (effect_step s a).options_eq.trans hs) rfl

end Reach

section Chunks

variable {l t : Loader} {a : LoaderStep} {c : Chunk}

/-- The number of the chunk is taken, by no other chunk in flight. -/
def Knows (l : Loader) (c : Chunk) : Prop :=
  c.id < l.chunkCount ∧ ∀ d ∈ l.inFlight, d.id = c.id → d = c

theorem Knows.effect (h : l.Knows c) (ht : Effect l a t) : t.Knows c := by
  cases ht with
  | keep => exact h
  | join => exact h
  | enqueue => exact h
  | start statistics =>
    refine ⟨Nat.lt_of_lt_of_le h.1 (Nat.le_add_right _ _), ?_⟩
    intro d hd hid
    rcases List.mem_append.mp hd with hd | hd
    · exact h.2 d hd hid
    · have hle := (id_nextChunks hd).1
      have hlt := h.1
      omega
  | settle cache statistics hf =>
    exact ⟨h.1, fun d hd hid => h.2 d (List.mem_of_mem_filter hd) hid⟩

theorem WellFormed.knows (h : l.WellFormed) (hc : c ∈ l.inFlight) : l.Knows c := by
  refine ⟨h.chunkCount c hc, ?_⟩
  intro d hd hid
  have hfd := find?_key Chunk.id h.chunkIds hd
  rw [hid, find?_key Chunk.id h.chunkIds hc] at hfd
  exact (Option.some.inj hfd).symm

/-- A chunk stays in flight until its waiters are settled. -/
theorem Knows.settles (h : l.Knows c) {w : Nat} (hw : w ∈ waitersOf c.entries)
    (hin : c ∈ l.inFlight ∨ w ∈ l.settledWaiters) (ht : Effect l a t) :
    c ∈ t.inFlight ∨ w ∈ t.settledWaiters := by
  cases ht with
  | keep => exact hin
  | join => exact hin
  | enqueue => exact hin
  | start => exact hin.imp_left (List.mem_append_left _)
  | @settle id d answer cache statistics hf =>
    simp only [settledWaiters, List.map_append]
    rcases hin with hin | hin
    · by_cases hid : c.id = id
      · have hdid : d.id = id := by simpa using List.find?_some hf
        have hdc : d = c := h.2 d (List.mem_of_find?_eq_some hf) (hdid.trans hid.symm)
        rw [hdc, map_fst_settlements (length_outcomes _)]
        exact .inr (List.mem_append_right _ hw)
      · exact .inl (List.mem_filter.mpr ⟨hin, by simpa using hid⟩)
    · exact .inr (List.mem_append_left _ hin)

variable {P : List Json → Except HandlerError (List Json) → Prop} {w : Nat}

theorem Reach.knows (h : Reach P l t) (hk : l.Knows c) : t.Knows c :=
  h.invariant (Q := fun s => s.Knows c) (fun s a hs _ => hs.effect (s.effect_step a)) hk

theorem Reach.chunk_settled (h : Reach P l t) (hk : l.Knows c) (hw : w ∈ waitersOf c.entries)
    (hin : c ∈ l.inFlight ∨ w ∈ l.settledWaiters) : c ∈ t.inFlight ∨ w ∈ t.settledWaiters :=
  (h.invariant (Q := fun s => s.Knows c ∧ (c ∈ s.inFlight ∨ w ∈ s.settledWaiters))
    (fun s a hs _ => ⟨hs.1.effect (s.effect_step a), hs.1.settles hw hs.2 (s.effect_step a)⟩)
    ⟨hk, hin⟩).2

theorem Reach.settledWaiters_subset (h : Reach P l t) : l.settledWaiters ⊆ t.settledWaiters :=
  h.invariant (Q := fun s => l.settledWaiters ⊆ s.settledWaiters)
    (fun s a hs _ => List.Subset.trans hs (s.settledWaiters_step a))
    (List.Subset.refl _)

end Chunks

def Computed (g : Json → Json) (keys : List Json) (answer : Except HandlerError (List Json)) :
    Prop := answer = .ok (keys.map g)

/-- A loader that remembers computed values only. -/
structure Computing (g : Json → Json) (l : Loader) : Prop where
  wellFormed : l.WellFormed
  cache : ∀ p ∈ l.cache, ∀ key : Json, key.text = p.1 → p.2 = g key

def Issued (g : Json → Json) (l : Loader) (key : Json) : Ticket → Prop
  | .answered value => value = g key
  | .queued loader w =>
    loader = l.name ∧ l.options.batching = true ∧ w < l.waiterCount ∧ l.WaitsFor w key ∧
      ∀ r, (w, r) ∈ l.settled → r = .ok (g key)
  | .direct loader k => loader = l.name ∧ l.options.batching = false ∧ k = key

section Computing

variable {g : Json → Json} {l t : Loader} {a : LoaderStep} {key : Json}

theorem computing_fresh (g : Json → Json) (name : String) (options : LoaderOptions)
    (created : Nat) : (fresh name options created).Computing g where
  wellFormed := wellFormed_fresh name options created
  cache _ hp := absurd hp List.not_mem_nil

theorem Computing.cached (h : l.Computing g) {value : Json} (hc : l.cached? key = some value) :
    value = g key := by
  cases hcaching : l.options.caching with
  | false => simp [cached?, hcaching] at hc
  | true =>
    have hget : l.cache.get? key.text = some value := by simpa [cached?, hcaching] using hc
    exact h.cache _ (Entries.mem_of_get? hget) key rfl

theorem Computing.mem_cacheAfter (h : l.Computing g) {entries : List QueueEntry}
    {p : String × Json}
    (hp : p ∈ l.cacheAfter entries (.ok ((entries.map (·.key)).map g))) (hkey : key.text = p.1) :
    p.2 = g key := by
  have hcheck : l.checkAnswer entries.length (.ok ((entries.map (·.key)).map g)) =
      .ok ((entries.map (·.key)).map g) := by simp [checkAnswer]
  have hmem : p ∈ cacheAll l.cache entries ((entries.map (·.key)).map g) ∨ p ∈ l.cache := by
    rw [cacheAfter, hcheck] at hp
    cases hc : l.options.caching with
    | true => exact .inl (by simpa [hc] using hp)
    | false => exact .inr (by simpa [hc] using hp)
  rcases hmem with hmem | hmem
  · rcases mem_cacheAll hmem with hmem | ⟨i, e, v, he, hv, rfl⟩
    · exact h.cache p hmem key hkey
    · have hv' : g e.key = v := by simpa [he] using hv
      have hk : key = e.key := Json.text_injective hkey
      rw [hk, hv']
  · exact h.cache p hmem key hkey

theorem Computing.step (h : l.Computing g) (ha : l.Allows (Computed g) a) :
    (l.step a).Computing g := by
  refine ⟨h.wellFormed.step a, ?_⟩
  cases a with
  | load k =>
    intro p hp
    simp only [Loader.step, cache_load] at hp
    exact h.cache p hp
  | start => exact h.cache
  | complete id answer =>
    intro p hp key hkey
    cases hf : l.inFlight.find? fun c => c.id == id with
    | none =>
      simp only [Loader.step, complete_missing hf] at hp
      exact h.cache p hp key hkey
    | some c =>
      -- The batch function gives what `g` gives, and so that is what is entered.
      have hid : c.id = id := by simpa using List.find?_some hf
      have hans : answer = .ok (c.keys.map g) := ha c (List.mem_of_find?_eq_some hf) hid
      simp only [Loader.step, complete_found hf] at hp
      subst hans
      exact h.mem_cacheAfter hp hkey
  | startDirect => exact h.cache
  | completeDirect k answer =>
    intro p hp key hkey
    have hans : answer = .ok [g k] := ha
    subst hans
    by_cases hk : k.text ∈ l.directs
    · simp only [Loader.step, completeDirect_of_mem hk] at hp
      exact h.mem_cacheAfter hp hkey
    · simp only [Loader.step, completeDirect_of_notMem hk] at hp
      exact h.cache p hp key hkey
  | prime k value => exact absurd ha id
  | clear => exact fun p hp => absurd hp List.not_mem_nil
  | clearKey k => exact fun p hp => h.cache p (Entries.erase_subset _ _ hp)

theorem Computing.reach (h : l.Computing g) (ht : Reach (Computed g) l t) : t.Computing g :=
  ht.invariant (fun _ _ hs ha => hs.step ha) h

theorem Computing.issued_load (h : l.Computing g) (key : Json) :
    (l.load key).1.Issued g key (l.load key).2 := by
  cases hc : l.cached? key with
  | some value =>
    rw [load_hit hc]
    exact h.cached hc
  | none =>
    cases hb : l.options.batching with
    | false =>
      rw [load_direct hc hb]
      exact ⟨rfl, hb, rfl⟩
    | true =>
      have hwait := h.wellFormed.waitsFor_load key
      obtain ⟨hticket, -, hcount, hsettled⟩ := h.wellFormed.queued_of_miss hb hc
      have heff := effect_load l key
      rw [hticket]
      refine ⟨heff.name_eq.symm, by rw [heff.options_eq, hb], by omega, hwait, ?_⟩
      intro r hr
      rw [hsettled] at hr
      exact absurd (mem_waiters_of_settled hr) h.wellFormed.waiterCount_notMem

theorem Delivers.computed {id w : Nat} {r : Except LoaderError Json}
    {answer : Except HandlerError (List Json)} (h : l.Delivers id answer w key r)
    (ha : l.Allows (Computed g) (.complete id answer)) : r = .ok (g key) := by
  obtain ⟨c, i, e, hc, hid, he, -, hkey, hr⟩ := h
  have hans : answer = .ok (c.keys.map g) := ha c hc hid
  subst hans
  cases hr with
  | value hlen hv =>
    have hget : (c.keys.map g)[i]? = some (g key) := by simp [Chunk.keys, he, hkey]
    rw [hget] at hv
    exact congrArg Except.ok (Option.some.inj hv).symm
  | mismatch hlen => simp [Chunk.keys] at hlen

theorem Issued.step {ticket : Ticket} (h : l.Issued g key ticket)
    (ha : l.Allows (Computed g) a) : (l.step a).Issued g key ticket := by
  have heff := effect_step l a
  cases ticket with
  | answered value => exact h
  | direct loader k =>
    obtain ⟨hname, hb, hk⟩ := h
    exact ⟨hname.trans heff.name_eq.symm, by rw [heff.options_eq, hb], hk⟩
  | queued loader w =>
    obtain ⟨hname, hb, hw, hwait, hsettled⟩ := h
    refine ⟨hname.trans heff.name_eq.symm, by rw [heff.options_eq, hb],
      Nat.lt_of_lt_of_le hw heff.waiterCount_le, hwait.effect hw heff, ?_⟩
    intro r hr
    rcases heff.settled with hs | ⟨id, answer, c, rfl, hf, hs⟩
    · rw [hs] at hr
      exact hsettled r hr
    · rw [hs] at hr
      rcases List.mem_append.mp hr with hr | hr
      · exact hsettled r hr
      · exact (hwait.delivers hf hr).computed ha

theorem Issued.reach {ticket : Ticket} (h : l.Issued g key ticket)
    (ht : Reach (Computed g) l t) : t.Issued g key ticket :=
  ht.invariant (Q := fun s => s.Issued g key ticket) (fun _ _ hs ha => hs.step ha) h

end Computing

end Loader

end SchemaAssembly
