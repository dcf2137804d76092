import SchemaAssembly.Proofs.Schema.Merging

/-!
Root names over several merges. A merge sets all three roots as soon as one of them is named, and a
root that nothing names then goes back to its standard name. A name from an earlier merge is
therefore lost, unless the later one names no root at all or the earlier name was the standard one.
-/

set_option autoImplicit false

namespace SchemaAssembly

open Sdl (Operation NamedRoots)

def RootTypes.get (roots : RootTypes) : Operation → String
  | .query => roots.query
  | .mutation => roots.mutation
  | .subscription => roots.subscription

/-- A schema definition or extension of the fragments names the root of an operation. -/
def NamesRoot (fs : List Fragment) (op : Operation) : Prop :=
  ∃ f ∈ fs, ∃ q, .roots q ∈ f.definitions ∧ (NamedRoots.get? q op).isSome = true

section Named

variable {fs : List Fragment} {op : Operation}

theorem isSome_later (a b : NamedRoots) (op : Operation) :
    ((a.later b).get? op).isSome = ((a.get? op).isSome || (b.get? op).isSome) := by
  cases op <;> simp [NamedRoots.later, NamedRoots.get?, Bool.or_comm]

def nameRoots (q : NamedRoots) : Sdl.Definition → NamedRoots
  | .roots p => q.later p
  | _ => q

theorem namedRoots_eq (fs : List Fragment) :
    namedRoots fs = (fs.flatMap (·.definitions)).foldl nameRoots default := rfl

theorem isSome_foldl_nameRoots (ds : List Sdl.Definition) (op : Operation) (q : NamedRoots) :
    ((ds.foldl nameRoots q).get? op).isSome = true ↔
      (q.get? op).isSome = true ∨ ∃ p, .roots p ∈ ds ∧ (p.get? op).isSome = true := by
  induction ds generalizing q with
  | nil => simp
  | cons d rest ih =>
    rw [List.foldl_cons, ih]
    cases d with
    | roots p => simp [nameRoots, isSome_later, or_and_right, exists_or, or_assoc]
    | type d => simp [nameRoots]
    | extension d => simp [nameRoots]
    | directive d => simp [nameRoots]

theorem isSome_namedRoots_iff : ((namedRoots fs).get? op).isSome = true ↔ NamesRoot fs op := by
  have hdefault : ¬ (NamedRoots.get? default op).isSome = true := by cases op <;> decide
  rw [namedRoots_eq, isSome_foldl_nameRoots, or_iff_right hdefault]
  constructor
  · rintro ⟨q, hq, hop⟩
    obtain ⟨f, hf, hqf⟩ := List.mem_flatMap.mp hq
    exact ⟨f, hf, q, hqf, hop⟩
  · rintro ⟨f, hf, q, hqf, hop⟩
    exact ⟨q, List.mem_flatMap.mpr ⟨f, hf, hqf⟩, hop⟩

end Named

namespace TypeRegistry

variable {r s t other : TypeRegistry} {fs : List Fragment} {op p : Operation}

theorem roots_applyRoots_of_named {q : NamedRoots} (hp : (q.get? p).isSome = true)
    (h : q.get? op = none) : (r.applyRoots q).roots.get op = RootTypes.standard.get op := by
  have hset : (q.query.isSome || q.mutation.isSome || q.subscription.isSome) = true := by
    cases p <;> simp_all [NamedRoots.get?]
  rw [applyRoots, if_pos hset]
  cases op <;> simp_all [NamedRoots.get?, setRoots, RootTypes.get]

theorem applyRoots_of_none {q : NamedRoots} (h : ∀ p, q.get? p = none) : r.applyRoots q = r := by
  have hq : q.query = none := h .query
  have hm : q.mutation = none := h .mutation
  have hs : q.subscription = none := h .subscription
  simp [applyRoots, hq, hm, hs]

theorem namedRoots_eq_none_iff : (namedRoots fs).get? op = none ↔ ¬ NamesRoot fs op := by
  rw [← Option.not_isSome_iff_eq_none, isSome_namedRoots_iff]

/-- With some root named, the others get their standard names. -/
theorem roots_mergeFragments_of_named (hs : r.mergeFragments fs = .done s)
    (hp : NamesRoot fs p) (h : ¬ NamesRoot fs op) :
    s.roots.get op = RootTypes.standard.get op := by
  obtain ⟨-, rfl⟩ := mergeFragments_eq_done_iff.mp hs
  exact roots_applyRoots_of_named (isSome_namedRoots_iff.mpr hp) (namedRoots_eq_none_iff.mpr h)

theorem roots_mergeFragments_of_none (hs : r.mergeFragments fs = .done s)
    (h : ∀ p, ¬ NamesRoot fs p) : s.roots = r.roots := by
  obtain ⟨-, rfl⟩ := mergeFragments_eq_done_iff.mp hs
  rw [applyRoots_of_none fun p => namedRoots_eq_none_iff.mpr (h p), roots_mergedTypes]

theorem keeps_registerAll {α β : Type} {step : TypeRegistry → α → Registration}
    (f : TypeRegistry → β) (h : ∀ r a m, step r a = .done m → f m = f r) {xs : List α}
    (hs : registerAll step r xs = .done s) : f s = f r := by
  induction xs generalizing r with
  | nil => rw [registerAll_nil.mp hs]
  | cons x rest ih =>
    obtain ⟨m, hm, hrest⟩ := registerAll_cons.mp hs
    rw [ih hrest, h r x m hm]

theorem roots_merge (h : r.merge other = .done t) :
    t.roots = if other.roots = .standard then r.roots else other.roots := by
  rw [merge] at h
  obtain ⟨m, hm, ht⟩ := Registration.andThen_eq_done.mp h
  obtain ⟨n, hn, hm⟩ := Registration.andThen_eq_done.mp hm
  have hnr : n.roots = r.roots := by
    refine keeps_registerAll (·.roots) (fun r d m hstep => ?_) hn
    split at hstep
    · rw [Registration.done_inj.mp hstep]
    · rw [(addType_eq_done_iff.mp hstep).2]
      rfl
  have hmn : m.roots = n.roots := by
    refine keeps_registerAll (·.roots) (fun r d m hstep => ?_) hm
    rw [(addDirective_eq_done_iff.mp hstep).2]
    rfl
  rw [← Registration.done_inj.mp ht, ← hnr, ← hmn]

/-- When the roots that nothing names are kept: by a merge of fragments, if they name no root, or
else if each of these roots has its standard name already; by a merge of registries, if the other
one has all standard names, or else under the same condition. -/
theorem unnamed_roots_kept_iff (hs : r.mergeFragments fs = .done s)
    (ht : r.merge other = .done t) :
    ((∀ op, ¬ NamesRoot fs op → s.roots.get op = r.roots.get op) ↔
      (∀ op, ¬ NamesRoot fs op) ∨
        ∀ op, ¬ NamesRoot fs op → r.roots.get op = RootTypes.standard.get op) ∧
    ((∀ op, other.roots.get op = RootTypes.standard.get op → t.roots.get op = r.roots.get op) ↔
      other.roots = .standard ∨ ∀ op, other.roots.get op = RootTypes.standard.get op →
        r.roots.get op = RootTypes.standard.get op) := by
  constructor
  · by_cases hany : ∃ p, NamesRoot fs p
    · have hsome : ¬ ∀ op, ¬ NamesRoot fs op := fun h => hany.elim h
      rw [or_iff_right hsome]
      refine forall₂_congr fun op hop => ?_
      obtain ⟨p, hp⟩ := hany
      rw [roots_mergeFragments_of_named hs hp hop, eq_comm]
    · have hnone : ∀ op, ¬ NamesRoot fs op := not_exists.mp hany
      exact iff_of_true (fun op _ => by rw [roots_mergeFragments_of_none hs hnone]) (.inl hnone)
  · rw [roots_merge ht]
    by_cases hstandard : other.roots = .standard
    · exact iff_of_true (fun op _ => by rw [if_pos hstandard]) (.inl hstandard)
    · rw [or_iff_right hstandard, if_neg hstandard]
      refine forall₂_congr fun op hop => ?_
      rw [hop, eq_comm]

theorem unnamed_roots_kept_iff_renamed :
    let r := initial.setRoots ⟨"RootQuery", "Mutation", "Subscription"⟩
    let more : Fragment :=
      ⟨"more", "extend schema \x7b mutation: Change \x7d", [.roots ⟨none, some "Change", none⟩]⟩
    let other := initial.setRoots ⟨"Query", "Change", "Subscription"⟩
    ∃ s t, r.mergeFragments [more] = .done s ∧ r.merge other = .done t ∧
      ¬ (∀ op, ¬ NamesRoot [more] op → s.roots.get op = r.roots.get op) ∧
      ¬ ∀ op, other.roots.get op = RootTypes.standard.get op →
        t.roots.get op = r.roots.get op := by
  intro r more other
  have hs := Registration.eq_done_of_failure (x := r.mergeFragments [more]) (by decide +kernel)
  have ht := Registration.eq_done_of_failure (x := r.merge other) (by decide +kernel)
  have hnamed : NamesRoot [more] .mutation := ⟨more, List.mem_cons_self, _, List.mem_cons_self, rfl⟩
  have hquery : ¬ NamesRoot [more] .query := by
    rw [← isSome_namedRoots_iff]
    decide
  have hown : r.roots.get .query ≠ RootTypes.standard.get .query := by decide
  obtain ⟨hfragments, hregistry⟩ := unnamed_roots_kept_iff hs ht
  refine ⟨_, _, hs, ht, ?_, ?_⟩
  · rw [hfragments]
    rintro (h | h)
    · exact h .mutation hnamed
    · exact hown (h .query hquery)
  · rw [hregistry]
    rintro (h | h)
    · exact absurd h (by decide)
    · exact hown (h .query rfl)

/-- Naming the mutation root in a later merge loses the query root. -/
theorem query_root_lost_by_later_merge :
    ¬ ∀ (r : TypeRegistry) (fs : List Fragment) (s : TypeRegistry),
      r.mergeFragments fs = .done s →
        ∀ op, ¬ NamesRoot fs op → s.roots.get op = r.roots.get op := by
  intro h
  let r := initial.setRoots ⟨"RootQuery", "Mutation", "Subscription"⟩
  let more : Fragment := ⟨"more", "", [.roots ⟨none, some "Change", none⟩]⟩
  have hs := Registration.eq_done_of_failure (x := r.mergeFragments [more]) (by decide +kernel)
  have hquery : ¬ NamesRoot [more] .query := by
    rw [← isSome_namedRoots_iff]
    decide
  exact absurd (h r [more] _ hs .query hquery) (by decide +kernel)

end TypeRegistry

end SchemaAssembly
