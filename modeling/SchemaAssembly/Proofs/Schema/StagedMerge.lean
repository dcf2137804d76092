import SchemaAssembly.Proofs.Schema.Merging

/-!
Merging in stages. An extension touches a type that is already there, and a base definition brings
a type that is not, so every extension of an earlier stage can be put off until the base definitions
of the later one are in. Two stages that succeed therefore do what one merge of all fragments does.
-/

set_option autoImplicit false

namespace SchemaAssembly

namespace TypeRegistry

variable {r s t : TypeRegistry} {e : TypeDef} {es : List TypeDef} {fs gs : List Fragment}
  {n : String}

theorem get?_withBases_of_mem (h : n ∈ r.names) (gs : List Fragment) :
    (r.withBases gs).get? n = r.get? n := by
  obtain ⟨x, hx⟩ := Option.isSome_iff_exists.mp (isSome_entry?_iff.mpr h)
  have hentry : entry? (r.withBases gs) n = some x := by
    unfold entry? at hx
    simp [withBases, entry?, declare, hx]
  rw [get?, hentry, get?, hx]

theorem replace_withBases {d : TypeDef} (h : d.name ∉ (baseTypes gs).map Declared.name) :
    (r.withBases gs).replace d = (r.replace d).withBases gs := by
  have hbases : ((baseTypes gs).map fun x =>
      if x.definition.name = d.name then { x with definition := d } else x) = baseTypes gs := by
    rw [List.map_congr_left (g := id), List.map_id]
    intro x hx
    have hne : x.definition.name ≠ d.name := fun hxd => h (List.mem_map.mpr ⟨x, hx, hxd⟩)
    simp [hne]
  simp [replace, withBases, declare, hbases]

theorem extended_withBases (he : e.name ∈ r.names)
    (h : r.Accepts (baseTypes gs) (directiveDefs gs)) :
    (r.withBases gs).extended e = (r.extended e).withBases gs := by
  unfold extended
  rw [get?_withBases_of_mem he]
  cases hd : r.get? e.name with
  | none => rfl
  | some d =>
    apply replace_withBases
    rw [TypeDef.name_extended, name_of_get? hd]
    exact fun hbase => h.1.2 _ hbase he

theorem accepts_extended_iff : (r.extended e).Accepts (baseTypes gs) (directiveDefs gs) ↔
    r.Accepts (baseTypes gs) (directiveDefs gs) := by
  rw [Accepts, Accepts, names_extended, directiveNames, extended_eq]
  rfl

/-- Extensions of types that are there can be applied before or after new base definitions. -/
theorem foldl_extended_withBases (hes : ∀ e ∈ es, e.name ∈ r.names)
    (h : r.Accepts (baseTypes gs) (directiveDefs gs)) :
    es.foldl extended (r.withBases gs) = (es.foldl extended r).withBases gs := by
  induction es generalizing r with
  | nil => rfl
  | cons e rest ih =>
    obtain ⟨he, hrest⟩ := List.forall_mem_cons.mp hes
    rw [List.foldl_cons, extended_withBases he h, List.foldl_cons]
    apply ih
    · rwa [names_extended]
    · exact accepts_extended_iff.mpr h

theorem Extends.mem_names (h : r.Extends e) : e.name ∈ r.names := by
  obtain ⟨d, hd, -⟩ := h
  exact mem_names_of_get? hd

theorem Extends.withBases (h : r.Extends e) (gs : List Fragment) : (r.withBases gs).Extends e := by
  obtain ⟨d, hd, hkind⟩ := h
  exact ⟨d, by rw [get?_withBases_of_mem (mem_names_of_get? hd), hd], hkind⟩

theorem accepts_mergedTypes_iff : (r.mergedTypes fs).Accepts (baseTypes gs) (directiveDefs gs) ↔
    (r.withBases fs).Accepts (baseTypes gs) (directiveDefs gs) := by
  rw [Accepts, Accepts, names_mergedTypes, names_withBases, directiveNames_withBases,
    directiveNames, directives_mergedTypes, List.map_append]
  rfl

theorem foldl_extended_stage (hfs : r.Mergeable fs)
    (h : (r.withBases fs).Accepts (baseTypes gs) (directiveDefs gs)) :
    (extensions fs).foldl extended (r.withBases (fs ++ gs)) = (r.mergedTypes fs).withBases gs := by
  rw [withBases_append, foldl_extended_withBases (fun e he => (hfs.extendable e he).mem_names) h,
    mergedTypes]

theorem extensions_append (fs gs : List Fragment) :
    extensions (fs ++ gs) = extensions fs ++ extensions gs := List.flatMap_append

theorem Mergeable.append (hfs : r.Mergeable fs) (hgs : (r.mergedTypes fs).Mergeable gs) :
    r.Mergeable (fs ++ gs) := by
  have hbases := accepts_mergedTypes_iff.mp hgs.bases
  refine ⟨accepts_bases_append.mpr ⟨hfs.bases, hbases⟩, ?_⟩
  intro e he
  rw [extensions_append, List.mem_append] at he
  rcases he with he | he
  · rw [withBases_append]
    exact (hfs.extendable e he).withBases gs
  · -- The types that extensions of the second stage meet were extended by the first stage only.
    have hlater := hgs.extendable e he
    rw [← foldl_extended_stage hfs hbases] at hlater
    exact extends_foldl_extended_iff.mp hlater

theorem mergedTypes_append (hfs : r.Mergeable fs) (hgs : (r.mergedTypes fs).Mergeable gs) :
    r.mergedTypes (fs ++ gs) = (r.mergedTypes fs).mergedTypes gs := by
  have hstage := foldl_extended_stage hfs (accepts_mergedTypes_iff.mp hgs.bases)
  rw [mergedTypes, extensions_append, List.foldl_append, hstage]
  rfl

theorem extended_setRoots (r : TypeRegistry) (q : RootTypes) (e : TypeDef) :
    (r.setRoots q).extended e = (r.extended e).setRoots q := by
  have hget : (r.setRoots q).get? e.name = r.get? e.name := rfl
  unfold extended
  rw [hget]
  cases r.get? e.name <;> rfl

theorem mergedTypes_setRoots (r : TypeRegistry) (q : RootTypes) (gs : List Fragment) :
    (r.setRoots q).mergedTypes gs = (r.mergedTypes gs).setRoots q := by
  have hfold : ∀ (es : List TypeDef) (r : TypeRegistry),
      es.foldl extended (r.setRoots q) = (es.foldl extended r).setRoots q := by
    intro es
    induction es with
    | nil => exact fun r => rfl
    | cons e rest ih =>
      intro r
      rw [List.foldl_cons, extended_setRoots, ih, List.foldl_cons]
  exact hfold (extensions gs) (r.withBases gs)

theorem mergeable_setRoots_iff {q : RootTypes} :
    (r.setRoots q).Mergeable gs ↔ r.Mergeable gs :=
  ⟨fun h => ⟨h.bases, h.extendable⟩, fun h => ⟨h.bases, h.extendable⟩⟩

/-- Merging in stages equals merging at once. If fragments can be merged and further ones can be
merged into the result, then all of them can be merged together, with the same types in the same
order, each with its parts in the same order and the same origin, and the same directives and
sources. -/
theorem mergeFragments_append (hs : r.mergeFragments fs = .done s)
    (ht : s.mergeFragments gs = .done t) :
    ∃ u, r.mergeFragments (fs ++ gs) = .done u ∧ u.declared = t.declared ∧
      u.directives = t.directives ∧ u.sources = t.sources := by
  obtain ⟨hfs, rfl⟩ := mergeFragments_eq_done_iff.mp hs
  obtain ⟨hgs, rfl⟩ := mergeFragments_eq_done_iff.mp ht
  obtain ⟨q, hq⟩ : ∃ q, (r.mergedTypes fs).applyRoots (namedRoots fs) =
      (r.mergedTypes fs).setRoots q := ⟨_, applyRoots_eq _ _⟩
  rw [hq, mergeable_setRoots_iff] at hgs
  refine ⟨_, mergeFragments_eq_done_iff.mpr ⟨hfs.append hgs, rfl⟩, ?_⟩
  rw [hq, mergedTypes_setRoots, mergedTypes_append hfs hgs, applyRoots_eq,
    applyRoots_eq (((r.mergedTypes fs).mergedTypes gs).setRoots q)]
  exact ⟨rfl, rfl, rfl⟩

theorem mergeFragments_append_extensions :
    let title : FieldDef := ⟨"title", none, .named "String", [], [], none⟩
    let shows : Fragment := ⟨"shows", "a", [.extension ⟨"Show", none, [], .object [] ["Node"]⟩,
      .type ⟨"Show", none, [], .object [("title", title)] []⟩]⟩
    let films : Fragment := ⟨"films", "b", [.type ⟨"Film", none, [], .object [] []⟩,
      .extension ⟨"Film", none, [], .object [("title", title)] []⟩,
      .extension ⟨"Show", none, [], .object [] ["Item"]⟩]⟩
    ∃ s t u, initial.mergeFragments [shows] = .done s ∧ s.mergeFragments [films] = .done t ∧
      initial.mergeFragments ([shows] ++ [films]) = .done u ∧ u.declared = t.declared := by
  intro title shows films
  have hs : initial.mergeFragments [shows] = .done (initial.mergeFragments [shows]).registry :=
    Registration.eq_done_of_failure (by decide +kernel)
  have ht := Registration.eq_done_of_failure
    (x := (initial.mergeFragments [shows]).registry.mergeFragments [films]) (by decide +kernel)
  obtain ⟨u, hu, hdeclared, -⟩ := mergeFragments_append hs ht
  exact ⟨_, _, u, hs, ht, hu, hdeclared⟩

end TypeRegistry

end SchemaAssembly
