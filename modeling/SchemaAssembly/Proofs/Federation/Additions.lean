import SchemaAssembly.Proofs.Assembly.ParsedTypes
import SchemaAssembly.Proofs.Federation.QueryText
import SchemaAssembly.Proofs.Schema.StagedMerge

/-!
What federation adds to the types. The query type gets fields, and the new types are scalars,
objects that implement nothing, and the union of the entities; so the possible types of what was
there before stay the same.
-/

set_option autoImplicit false

namespace SchemaAssembly

namespace TypeRegistry

variable {r s : TypeRegistry} {n T : String} {d t : TypeDef} {members : List String}

/-- A value of the type `T` may be an object of the type `n`. -/
def Admits (r : TypeRegistry) (T n : String) : Prop :=
  ∃ d, r.get? n = some d ∧ d.isObject = true ∧
    (T = n ∨ ∃ t, r.get? T = some t ∧
      ((∃ fields interfaces, t.body = .interface fields interfaces) ∧ T ∈ d.body.interfaces ∨
        ∃ members, t.body = .union members ∧ n ∈ members))

theorem mem_types_of_get? (h : r.get? n = some d) : d ∈ r.types := by
  obtain ⟨x, hx, rfl⟩ := Option.map_eq_some_iff.mp h
  exact List.mem_map_of_mem (List.mem_of_find?_eq_some hx)

theorem mem_implementations_iff (hn : r.names.Nodup) : n ∈ r.implementations T ↔
    ∃ d, r.get? n = some d ∧ d.isObject = true ∧ T ∈ d.body.interfaces := by
  rw [implementations, List.mem_filterMap]
  constructor
  · rintro ⟨d, hd, hname⟩
    have hget := get?_of_mem hn hd
    cases hbody : d.body with
    | object fields interfaces =>
      simp only [hbody, Option.ite_none_right_eq_some, Option.some.injEq,
        List.contains_iff_mem] at hname
      rw [hname.2] at hget
      exact ⟨d, hget, by simp [TypeDef.isObject, hbody], by
        simpa [TypeBody.interfaces, hbody] using hname.1⟩
    | _ => simp [hbody] at hname
  · rintro ⟨d, hget, hobject, hT⟩
    refine ⟨d, mem_types_of_get? hget, ?_⟩
    cases hbody : d.body with
    | object fields interfaces =>
      simp only [hbody, TypeBody.interfaces] at hT
      simp [hT, name_of_get? hget]
    | _ => simp [TypeDef.isObject, hbody] at hobject

theorem admits_iff_of_isObject (hget : r.get? T = some t) (h : t.isObject = true) :
    r.Admits T n ↔ n = T := by
  constructor
  · rintro ⟨d, -, -, rfl | ⟨t', ht', hcase⟩⟩
    · rfl
    · rw [hget] at ht'
      cases ht'
      -- Neither an interface nor a union is an object type.
      rcases hcase with ⟨⟨_, _, hbody⟩, -⟩ | ⟨_, hbody, -⟩ <;> simp [TypeDef.isObject, hbody] at h
  · rintro rfl
    exact ⟨t, hget, h, .inl rfl⟩

/-- The values of other types than objects are of types that name them or that they name. -/
theorem admits_iff_of_not_isObject (hget : r.get? T = some t) (h : t.isObject = false) :
    r.Admits T n ↔ ∃ d, r.get? n = some d ∧ d.isObject = true ∧
      ((∃ fields interfaces, t.body = .interface fields interfaces) ∧ T ∈ d.body.interfaces ∨
        ∃ members, t.body = .union members ∧ n ∈ members) := by
  simp only [Admits, hget, Option.some.injEq, exists_eq_left']
  refine exists_congr fun d => and_congr_right fun hd => and_congr_right fun hobject => ?_
  refine or_iff_right ?_
  rintro rfl
  rw [hget] at hd
  cases hd
  rw [h] at hobject
  cases hobject

theorem mem_possibleTypes_iff (hn : r.names.Nodup) : n ∈ r.possibleTypes T ↔ r.Admits T n := by
  unfold possibleTypes
  cases hget : r.get? T with
  | none =>
    refine iff_of_false List.not_mem_nil ?_
    rintro ⟨d, hd, -, rfl | ⟨t, ht, -⟩⟩
    · cases hget.symm.trans hd
    · cases hget.symm.trans ht
  | some t =>
    have hname := name_of_get? hget
    cases hbody : t.body with
    | object fields interfaces =>
      rw [admits_iff_of_isObject hget (by simp [TypeDef.isObject, hbody])]
      simp [hbody, hname]
    | interface fields interfaces =>
      rw [admits_iff_of_not_isObject hget (by simp [TypeDef.isObject, hbody])]
      simp [hbody, hname, mem_implementations_iff hn]
    | union ms =>
      rw [admits_iff_of_not_isObject hget (by simp [TypeDef.isObject, hbody])]
      simp only [hbody, List.mem_filter]
      cases hd : r.get? n with
      | none => simp
      | some d => simp [and_comm]
    | _ =>
      rw [admits_iff_of_not_isObject hget (by simp [TypeDef.isObject, hbody])]
      simp [hbody]

/-- A registry with new types, of which a union of the given members alone is abstract, and with
object types that may have more fields. -/
structure Grown (r s : TypeRegistry) (members : List String) : Prop where
  kept : ∀ n d, r.get? n = some d → ∃ d', s.get? n = some d' ∧ (d' = d ∨
    d.isObject = true ∧ d'.isObject = true ∧ d'.body.interfaces = d.body.interfaces)
  added : ∀ n d, s.get? n = some d → n ∉ r.names →
    d.isAbstract = false ∧ d.body.interfaces = [] ∨ n = "_Entity" ∧ d.body = .union members

theorem Grown.refl (r : TypeRegistry) (members : List String) : r.Grown r members where
  kept _ d hd := ⟨d, hd, .inl rfl⟩
  added _ _ hd hn := absurd (mem_names_of_get? hd) hn

theorem not_isAbstract_of_isObject (h : d.isObject = true) : d.isAbstract = false := by
  cases hbody : d.body <;> simp_all [TypeDef.isObject, TypeDef.isAbstract]

theorem isAbstract_iff : r.isAbstract n = true ↔ ∃ d, r.get? n = some d ∧ d.isAbstract = true := by
  unfold isAbstract
  cases r.get? n <;> simp

/-- What was there stays abstract or not. -/
theorem Grown.isAbstract_eq (h : r.Grown s members) (hn : n ∈ r.names) :
    s.isAbstract n = r.isAbstract n := by
  have hsome : r.get? n ≠ none := fun hnone => get?_eq_none_iff.mp hnone hn
  obtain ⟨d, hd⟩ := Option.ne_none_iff_exists'.mp hsome
  obtain ⟨d', hd', rfl | ⟨hobject, hobject', -⟩⟩ := h.kept n d hd
  · simp only [isAbstract, hd, hd']
  · simp only [isAbstract, hd, hd', not_isAbstract_of_isObject hobject,
      not_isAbstract_of_isObject hobject']

theorem Grown.eq_entity_of_isAbstract (h : r.Grown s members) (habs : s.isAbstract n = true)
    (hn : n ∉ r.names) : n = "_Entity" := by
  obtain ⟨d, hd, habs⟩ := isAbstract_iff.mp habs
  rcases h.added n d hd hn with ⟨hnot, -⟩ | ⟨rfl, -⟩
  · rw [hnot] at habs
    cases habs
  · rfl

/-- An abstract type keeps its possible types, if all members of a union were there. -/
theorem Grown.admits_iff (h : r.Grown s members) (habs : r.isAbstract T = true)
    (hmembers : ∀ t ms, r.get? T = some t → t.body = .union ms → ∀ m ∈ ms, m ∈ r.names) :
    s.Admits T n ↔ r.Admits T n := by
  obtain ⟨t, ht, habs⟩ := isAbstract_iff.mp habs
  have hobject : t.isObject = false := by
    by_contra hobject
    rw [not_isAbstract_of_isObject (Bool.not_eq_false _ ▸ hobject)] at habs
    cases habs
  have ht' : s.get? T = some t := by
    obtain ⟨t', ht', rfl | ⟨hobj, -⟩⟩ := h.kept T t ht
    · exact ht'
    · rw [hobject] at hobj
      cases hobj
  rw [admits_iff_of_not_isObject ht' hobject, admits_iff_of_not_isObject ht hobject]
  constructor
  · rintro ⟨d', hd', hobject', hcase⟩
    have hn : n ∈ r.names := by
      rcases hcase with ⟨-, hT⟩ | ⟨ms, hms, hmem⟩
      · by_contra hn
        rcases h.added n d' hd' hn with ⟨-, hnone⟩ | ⟨-, hunion⟩
        · rw [hnone] at hT
          cases hT
        · simp [TypeDef.isObject, hunion] at hobject'
      · exact hmembers t ms ht hms n hmem
    obtain ⟨d, hd⟩ := Option.ne_none_iff_exists'.mp fun hnone => get?_eq_none_iff.mp hnone hn
    obtain ⟨d'', hd'', hsame⟩ := h.kept n d hd
    cases hd'.symm.trans hd''
    rcases hsame with rfl | ⟨hobj, -, hinterfaces⟩
    · exact ⟨d', hd, hobject', hcase⟩
    · exact ⟨d, hd, hobj, hinterfaces ▸ hcase⟩
  · rintro ⟨d, hd, hobj, hcase⟩
    obtain ⟨d', hd', rfl | ⟨-, hobj', hinterfaces⟩⟩ := h.kept n d hd
    · exact ⟨d', hd', hobj, hcase⟩
    · exact ⟨d', hd', hobj', hinterfaces ▸ hcase⟩

end TypeRegistry

section Federation

variable {r s : TypeRegistry} {members : List String} {entities : EntityTable} {d e : TypeDef}

def IsAddition (members : List String) : Sdl.Definition → Prop
  | .type d => d.isAbstract = false ∧ d.body.interfaces = [] ∨
      d.name = "_Entity" ∧ d.body = .union members
  | .extension d => d.isObject = true ∧ d.body.interfaces = []
  | .directive _ => True
  | .roots _ => False

theorem isAddition_federationDefinitions (r : TypeRegistry) (members : List String) :
    ∀ x ∈ federationDefinitions r members, IsAddition members x := by
  have hunless : ∀ {present : Bool} {line : String} {x y : Sdl.Definition},
      IsAddition members y → x ∈ (lineUnless present line y).map (·.2) → IsAddition members x := by
    intro present line x y hy hx
    cases present with
    | true => exact absurd hx List.not_mem_nil
    | false =>
      rw [List.mem_singleton.mp hx]
      exact hy
  intro x hx
  simp only [federationDefinitions, federationLines, List.map_append, List.mem_append,
    List.map_flatMap, List.mem_flatMap, List.mem_singleton] at hx
  rcases hx with (((((hx | ⟨d, -, hx⟩) | hx) | hx) | hx) | rfl)
  · refine hunless ?_ hx
    exact .inl ⟨rfl, rfl⟩
  · refine hunless ?_ hx
    exact trivial
  · refine hunless ?_ hx
    exact .inl ⟨rfl, rfl⟩
  · refine hunless ?_ hx
    exact .inl ⟨rfl, rfl⟩
  · cases members with
    | nil => exact absurd hx List.not_mem_nil
    | cons m ms =>
      rw [List.mem_singleton.mp hx]
      exact .inr ⟨rfl, rfl⟩
  · unfold queryDefinition
    split
    · exact ⟨rfl, rfl⟩
    · exact .inl ⟨rfl, rfl⟩

/-- An extension of an object type that names no interfaces adds fields at most. -/
theorem extended_cases (he : e.isObject = true) (hi : e.body.interfaces = []) :
    d.extended e = d ∨ d.isObject = true ∧ (d.extended e).isObject = true ∧
      (d.extended e).body.interfaces = d.body.interfaces := by
  unfold TypeDef.extended
  cases hbody : e.body with
  | object fields interfaces =>
    rw [hbody] at hi
    change interfaces = [] at hi
    subst hi
    cases hd : d.body with
    | object fields' interfaces' =>
      exact .inr ⟨by simp [TypeDef.isObject, hd], rfl, rfl⟩
    | _ => exact .inl rfl
  | _ => simp [TypeDef.isObject, hbody] at he

theorem foldl_extended_cases {es : List TypeDef}
    (hes : ∀ e ∈ es, e.isObject = true ∧ e.body.interfaces = []) (d : TypeDef) :
    es.foldl TypeDef.extended d = d ∨ d.isObject = true ∧
      (es.foldl TypeDef.extended d).isObject = true ∧
        (es.foldl TypeDef.extended d).body.interfaces = d.body.interfaces := by
  induction es generalizing d with
  | nil => exact .inl rfl
  | cons e rest ih =>
    rw [List.forall_mem_cons] at hes
    rw [List.foldl_cons]
    rcases extended_cases (d := d) hes.1.1 hes.1.2 with hsame | ⟨hobj, hobj', hsame⟩
    · rw [hsame]
      exact ih hes.2 d
    · rcases ih hes.2 (d.extended e) with hrest | ⟨-, hrest, hinterfaces⟩
      · rw [hrest]
        exact .inr ⟨hobj, hobj', hsame⟩
      · exact .inr ⟨hobj, hrest, hinterfaces.trans hsame⟩

def federationFragment (r : TypeRegistry) (members : List String) : Fragment :=
  ⟨federationOrigin, federationSdl r members, federationDefinitions r members⟩

theorem addFederationTypes_eq (hr : r.Sound) (entities : EntityTable) :
    addFederationTypes r entities =
      r.mergeFragments [federationFragment r (entityMembers r entities)] := by
  have hmembers : ∀ m ∈ entityMembers r entities, Sdl.isName m = true := fun m hm =>
    hr.named m (mem_names_of_mem_entityMembers hm)
  have hparse := parse_federationSdl hr.query hmembers
  unfold addFederationTypes
  rw [hparse]
  rfl

theorem addFederationTypes_eq_done_iff (hr : r.Sound) : addFederationTypes r entities = .done s ↔
    r.Mergeable [federationFragment r (entityMembers r entities)] ∧
      s = r.mergedTypes [federationFragment r (entityMembers r entities)] := by
  have hnone : ∀ op,
      (namedRoots [federationFragment r (entityMembers r entities)]).get? op = none := by
    intro op
    rw [TypeRegistry.namedRoots_eq_none_iff]
    rintro ⟨f, hf, q, hq, -⟩
    rw [List.mem_singleton.mp hf] at hq
    exact isAddition_federationDefinitions r _ _ hq
  rw [addFederationTypes_eq hr, TypeRegistry.mergeFragments_eq_done_iff,
    TypeRegistry.applyRoots_of_none hnone]

theorem mem_extensions {fs : List Fragment} (h : e ∈ extensions fs) :
    ∃ f ∈ fs, Sdl.Definition.extension e ∈ f.definitions := by
  obtain ⟨f, hf, hmem⟩ := List.mem_flatMap.mp h
  obtain ⟨x, hx, heq⟩ := List.mem_filterMap.mp hmem
  cases x with
  | extension d =>
    cases heq
    exact ⟨f, hf, hx⟩
  | _ => cases heq

theorem mem_baseTypes {fs : List Fragment} {x : Declared} (h : x ∈ baseTypes fs) :
    ∃ f ∈ fs, Sdl.Definition.type x.definition ∈ f.definitions := by
  obtain ⟨f, hf, hmem⟩ := List.mem_flatMap.mp h
  obtain ⟨y, hy, heq⟩ := List.mem_filterMap.mp hmem
  cases y with
  | type d =>
    cases heq
    exact ⟨f, hf, hy⟩
  | _ => cases heq

theorem mem_definitions_of_get?_withBases {fs : List Fragment} {n : String}
    (hd : (r.withBases fs).get? n = some d) (hn : n ∉ r.names) :
    ∃ f ∈ fs, Sdl.Definition.type d ∈ f.definitions := by
  obtain ⟨x, hx, rfl⟩ := Option.map_eq_some_iff.mp hd
  rcases List.mem_append.mp (List.mem_of_find?_eq_some hx) with hmem | hmem
  · refine absurd ?_ hn
    rw [TypeRegistry.names_eq]
    exact List.mem_map.mpr ⟨x, hmem, TypeRegistry.name_of_get? hd⟩
  · exact mem_baseTypes hmem

theorem grown_mergedTypes {f : Fragment} (hf : ∀ x ∈ f.definitions, IsAddition members x) :
    r.Grown (r.mergedTypes [f]) members := by
  have hext : ∀ n, ∀ e ∈ (extensions [f]).filter (fun e => e.name = n),
      e.isObject = true ∧ e.body.interfaces = [] := by
    intro n e he
    obtain ⟨g, hg, hmem⟩ := mem_extensions (List.mem_filter.mp he).1
    rw [List.mem_singleton.mp hg] at hmem
    exact hf _ hmem
  have hget : ∀ n, (r.mergedTypes [f]).get? n = ((r.withBases [f]).get? n).map fun d =>
      ((extensions [f]).filter fun e => e.name = n).foldl TypeDef.extended d := fun n =>
    TypeRegistry.get?_foldl_extended _ _ n
  constructor
  · intro n d hd
    rw [hget, TypeRegistry.get?_withBases_of_mem (TypeRegistry.mem_names_of_get? hd), hd]
    exact ⟨_, rfl, foldl_extended_cases (hext n) d⟩
  · intro n d hd hn
    rw [hget, Option.map_eq_some_iff] at hd
    obtain ⟨base, hbase, rfl⟩ := hd
    obtain ⟨g, hg, hmem⟩ := mem_definitions_of_get?_withBases hbase hn
    rw [List.mem_singleton.mp hg] at hmem
    have hnew : base.isAbstract = false ∧ base.body.interfaces = [] ∨
        n = "_Entity" ∧ base.body = .union members :=
      TypeRegistry.name_of_get? hbase ▸ hf _ hmem
    rcases foldl_extended_cases (hext n) base with hsame | ⟨hobj, hobj', hsame⟩
    · rwa [hsame]
    · rcases hnew with ⟨-, hnone⟩ | ⟨-, hunion⟩
      · exact .inl ⟨TypeRegistry.not_isAbstract_of_isObject hobj', hsame.trans hnone⟩
      · simp [TypeDef.isObject, hunion] at hobj

theorem grown_of_addFederationTypes (hr : r.Sound) (h : addFederationTypes r entities = .done s) :
    r.Grown s (entityMembers r entities) ∧ s.names.Nodup := by
  obtain ⟨hm, rfl⟩ := (addFederationTypes_eq_done_iff hr).mp h
  exact ⟨grown_mergedTypes (isAddition_federationDefinitions r _),
    TypeRegistry.nodup_mergedTypes hr.distinct hm⟩

end Federation

end SchemaAssembly
