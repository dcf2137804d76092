import Mathlib.Data.List.Perm.Basic
import SchemaAssembly.Proofs.Assembly.BindingExact

/-!
Binding and the order of components. Definitions are sorted by their coordinates before they are
bound, so no order of the components shows in the bindings; and of several coordinates declared more
than once the least one is reported.
-/

set_option autoImplicit false

namespace SchemaAssembly

variable {types : TypeRegistry} {components others : List Component} {bs : List Binding}
  {defs ds : List FetcherDefinition} {c : Coordinates}

theorem declaredFetchers_perm (hp : components.Perm others) :
    (declaredFetchers components).Perm (declaredFetchers others) := hp.flatMap_right _

theorem definitionsOf_perm (hp : components.Perm others) :
    (definitionsOf components).Perm (definitionsOf others) := (declaredFetchers_perm hp).map _

theorem ordered_perm (hd : (defs.map (·.coordinates)).Nodup) (hp : defs.Perm ds) :
    ordered defs = ordered ds := by
  have hd' : (ds.map (·.coordinates)).Nodup := (hp.map _).nodup_iff.mp hd
  have hperm : (ordered defs).Perm (ordered ds) := by
    rw [List.perm_ext_iff_of_nodup ((nodup_ordered hd).of_map _) ((nodup_ordered hd').of_map _)]
    intro d
    rw [mem_ordered, mem_ordered, hp.mem_iff]
  refine hperm.eq_of_pairwise ?_ (pairwise_ordered hd) (pairwise_ordered hd')
  exact fun d e _ _ hde hed => absurd hed (Coordinates.before_asymm hde)

theorem Bindable.perm (h : Bindable types components) (hp : components.Perm others) :
    Bindable types others :=
  ⟨fun d hd => h.1 d ((definitionsOf_perm hp).mem_iff.mpr hd),
    ((definitionsOf_perm hp).map _).nodup_iff.mp h.2⟩

theorem bindFetchers_perm (hp : components.Perm others)
    (h : bindFetchers types components = .ok bs) : bindFetchers types others = .ok bs := by
  have hbindable := bindable_of_ok h
  rw [bindFetchers_of_bindable hbindable] at h
  rw [bindFetchers_of_bindable (hbindable.perm hp),
    ← ordered_perm hbindable.2 (definitionsOf_perm hp), h]

def DeclaredTwice (defs : List FetcherDefinition) (c : Coordinates) : Prop :=
  1 < (defs.map (·.coordinates)).count c

def LeastDuplicate (defs : List FetcherDefinition) (c : Coordinates) : Prop :=
  DeclaredTwice defs c ∧ ∀ d, DeclaredTwice defs d → d = c ∨ c.before d = true

theorem LeastDuplicate.perm (h : LeastDuplicate defs c) (hp : defs.Perm ds) :
    LeastDuplicate ds c := by
  simpa only [LeastDuplicate, DeclaredTwice, (hp.map _).count_eq] using h

theorem LeastDuplicate.unique {d : Coordinates} (h : LeastDuplicate defs c)
    (h' : LeastDuplicate defs d) : c = d := by
  rcases h.2 d h'.1 with heq | hlt
  · exact heq.symm
  · rcases h'.2 c h.1 with heq | hgt
    · exact heq
    · exact absurd hgt (Coordinates.before_asymm hlt)

theorem declaredTwice_iff : DeclaredTwice defs c ↔
    ∃ p ∈ declarations defs, p.1 = c ∧ 1 < p.2.length := by
  rw [DeclaredTwice, count_coordinates]
  constructor
  · intro h
    refine ⟨(c, _), mem_declarations.mpr ⟨rfl, ?_⟩, rfl, h⟩
    intro hnil
    rw [hnil] at h
    cases h
  · rintro ⟨⟨_, ds⟩, hp, rfl, h⟩
    rwa [(mem_declarations.mp hp).1] at h

theorem leastDuplicate_of_find? {p : Coordinates × List FetcherDefinition}
    (h : ((declarations defs).find? fun p => decide (1 < p.2.length)) = some p) :
    LeastDuplicate defs p.1 := by
  rw [List.find?_eq_some_iff_append] at h
  obtain ⟨htwice, before, after, hsplit, hno⟩ := h
  have hsorted := sorted_declarations defs
  rw [CoordinateMap.Sorted, hsplit, List.pairwise_append, List.pairwise_cons] at hsorted
  constructor
  · exact declaredTwice_iff.mpr ⟨p, by simp [hsplit], rfl, of_decide_eq_true htwice⟩
  · intro d hd
    obtain ⟨q, hq, rfl, hlength⟩ := declaredTwice_iff.mp hd
    rw [hsplit, List.mem_append, List.mem_cons] at hq
    rcases hq with hq | rfl | hq
    · simpa [hlength] using hno q hq
    · exact .inl rfl
    · exact .inr (hsorted.2.1.1 q hq)

theorem bindFetchers_of_missing {d : FetcherDefinition} (hd : d ∈ definitionsOf components)
    (hno : types.contains d.parentType = false) :
    ∃ parent owner handler,
      bindFetchers types components = .error (.missingParentType parent owner handler) := by
  cases hmissing : (declaredFetchers components).find? fun d => !types.contains d.2.parentType with
  | none =>
    have hall := missing_none_iff.mp hmissing d hd
    rw [hno] at hall
    cases hall
  | some p => exact ⟨_, _, _, by rw [bindFetchers_eq, hmissing]⟩

theorem bindFetchers_of_duplicate
    (hall : ∀ d ∈ definitionsOf components, types.contains d.parentType = true)
    (h : LeastDuplicate (definitionsOf components) c) :
    bindFetchers types components = .error (.duplicateDataFetcher c) := by
  rw [bindFetchers_eq, missing_none_iff.mpr hall]
  cases hdup : (declarations (definitionsOf components)).find? fun p =>
    decide (1 < p.2.length) with
  | none =>
    obtain ⟨p, hp, -, hlength⟩ := declaredTwice_iff.mp h.1
    simpa [hlength] using List.find?_eq_none.mp hdup p hp
  | some p => simp only [h.unique (leastDuplicate_of_find? hdup)]

/-- Binding fails for a definition on a type that is not there, and else for the least coordinates
that are declared more than once. -/
theorem bindFetchers_error {e : ConfigurationError} (h : bindFetchers types components = .error e) :
    (∃ d ∈ definitionsOf components, types.contains d.parentType = false) ∧
        (∃ parent owner handler, e = .missingParentType parent owner handler) ∨
      (∀ d ∈ definitionsOf components, types.contains d.parentType = true) ∧
        ∃ c, LeastDuplicate (definitionsOf components) c ∧ e = .duplicateDataFetcher c := by
  rw [bindFetchers_eq] at h
  cases hmissing : (declaredFetchers components).find? fun d => !types.contains d.2.parentType with
  | some p =>
    rw [hmissing] at h
    cases h
    have hno := List.find?_some hmissing
    exact .inl ⟨⟨p.2, List.mem_map_of_mem (List.mem_of_find?_eq_some hmissing), by simpa using hno⟩,
      _, _, _, rfl⟩
  | none =>
    rw [hmissing] at h
    cases hdup : (declarations (definitionsOf components)).find? fun p =>
      decide (1 < p.2.length) with
    | some p =>
      simp only [hdup] at h
      cases h
      exact .inr ⟨missing_none_iff.mp hmissing, p.1, leastDuplicate_of_find? hdup, rfl⟩
    | none =>
      simp only [hdup] at h
      cases h

theorem bindFetchers_duplicate_perm (hp : components.Perm others)
    (h : bindFetchers types components = .error (.duplicateDataFetcher c)) :
    bindFetchers types others = .error (.duplicateDataFetcher c) ∧
      LeastDuplicate (definitionsOf components) c := by
  rcases bindFetchers_error h with ⟨-, _, _, _, heq⟩ | ⟨hall, _, hleast, heq⟩
  · cases heq
  · cases heq
    exact ⟨bindFetchers_of_duplicate
      (fun d hd => hall d ((definitionsOf_perm hp).mem_iff.mpr hd))
      (hleast.perm (definitionsOf_perm hp)), hleast⟩

theorem bindFetchers_missing_perm {parent owner handler : String} (hp : components.Perm others)
    (h : bindFetchers types components = .error (.missingParentType parent owner handler)) :
    ∃ parent' owner' handler',
      bindFetchers types others = .error (.missingParentType parent' owner' handler') := by
  rcases bindFetchers_error h with ⟨⟨d, hd, hno⟩, -⟩ | ⟨-, _, -, heq⟩
  · exact bindFetchers_of_missing ((definitionsOf_perm hp).mem_iff.mp hd) hno
  · cases heq

end SchemaAssembly
