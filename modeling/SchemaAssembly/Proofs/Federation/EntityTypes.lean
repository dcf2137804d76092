import SchemaAssembly.Proofs.Assembly.TypeResolution
import SchemaAssembly.Proofs.Federation.Guards

/-!
Which representations have a type. The resolver of entities maps the name that a representation
gives, but the union of the entities is made of the types with a key and of those that are fetched
under their own names; so a name that is mapped to any other type resolves to nothing.
-/

set_option autoImplicit false

namespace SchemaAssembly

namespace TypeRegistry

variable {r : TypeRegistry} {entities : EntityTable} {n : String}

theorem get?_federated_entity {members : List String} (hr : r.Sound) (hm : r.Federable members)
    (hmembers : members ≠ []) :
    (r.federated members).get? "_Entity" = some ⟨"_Entity", none, [], .union members⟩ := by
  cases members with
  | nil => exact absurd rfl hmembers
  | cons m ms =>
    have hnew : ⟨"_Entity", none, [], .union (m :: ms)⟩ ∈ newTypes r (m :: ms) :=
      List.mem_append_left _ (List.mem_append_right _ (List.mem_singleton_self _))
    exact get?_federated_of_mem hr hm hnew

/-- Where there are members, they are the possible types of an entity. -/
theorem admits_entity_iff (hr : r.Sound) (hm : r.Federable (entityMembers r entities))
    (hmembers : entityMembers r entities ≠ []) :
    (r.federated (entityMembers r entities)).Admits "_Entity" n ↔
      n ∈ entityMembers r entities := by
  rw [admits_iff_of_not_isObject (get?_federated_entity hr hm hmembers) rfl]
  constructor
  · rintro ⟨d, -, -, ⟨⟨_, _, hinterface⟩, -⟩ | ⟨ms, hunion, hn⟩⟩
    · cases hinterface
    · cases hunion
      exact hn
  · intro hn
    obtain ⟨d, hd, hobject, -⟩ := (mem_entityMembers_iff hr.distinct).mp hn
    obtain ⟨d', hd', hobject', -⟩ := get?_federated_object hd hobject
    exact ⟨d', hd', hobject', .inr ⟨_, rfl, hn⟩⟩

end TypeRegistry

theorem needsFederation_of_keys (r : TypeRegistry) {entities : EntityTable}
    (h : entities.keys ≠ []) : needsFederation r entities = true := by
  have hnonempty : entities.isEmpty = false := by
    rw [List.isEmpty_eq_false_iff]
    rintro rfl
    exact h rfl
  rw [needsFederation, hnonempty]
  rfl

theorem entity_eq_ok {mapping : Entries String} {q : TypeQuestion} {t : String}
    (ht : q.value.NamesType t) (hobject : q.types.isObject ((mapping.get? t).getD t) = true) :
    TypeResolver.entity mapping q = .ok ((mapping.get? t).getD t) := by
  rw [TypeResolver.entity, typename?_eq_some_iff.mpr ht]
  simp only [hobject, if_true]

theorem Schema.resolveType_entity {x : Schema} {mapping : Entries String} {v : Json}
    {t n : String} (hresolver : x.code.resolver? "_Entity" = some (.entity mapping))
    (ht : v.NamesType t) (hn : n = (mapping.get? t).getD t) (hobject : x.types.isObject n = true) :
    x.resolveType "_Entity" v = if (x.types.possibleTypes "_Entity").contains n then .ok n
      else .error (.invalidResolvedType "_Entity" n) := by
  subst hn
  have hanswer : TypeResolver.entity mapping ⟨v, "_Entity", x.types⟩ = _ :=
    entity_eq_ok ht hobject
  simp only [Schema.resolveType, hresolver, TypeResolver.checked, hanswer, TypeQuestion.isPossible]
  rfl

theorem TypeRegistry.Admits.contains {r : TypeRegistry} {T n : String} (h : r.Admits T n) :
    r.contains T = true := by
  obtain ⟨d, hd, -, rfl | ⟨t, ht, -⟩⟩ := h
  · exact contains_iff.mpr (mem_names_of_get? hd)
  · exact contains_iff.mpr (mem_names_of_get? ht)

namespace Assembler

variable {a : Assembler} {files : FileTree} {raw : Option String} {visibility : Visibility}
  {s : Snapshot}

theorem resolver?_entity_of_unwired (h : a.unwired files raw visibility = .ok s)
    (hentities : s.entities.keys ≠ []) (hcontains : s.schema.types.contains "_Entity" = true) :
    s.schema.code.resolver? "_Entity" = some (a.federationResolver s.entities).typeResolver := by
  obtain ⟨merged, resolved, hstages⟩ := exists_stages h
  rcases hstages.finish with ⟨hnot, -⟩ | ⟨-, -, hcode⟩
  · exact absurd (needsFederation_of_keys merged.types hentities) (Bool.eq_false_iff.mp hnot)
  · rw [hcode, CodeRegistry.resolver?_withFederation, if_pos ⟨hcontains, rfl⟩]
    rfl

theorem resolver?_entity (h : a.assemble files raw visibility = .ok s)
    (hentities : s.entities.keys ≠ []) (hcontains : s.schema.types.contains "_Entity" = true) :
    s.schema.code.resolver? "_Entity" = some (a.federationResolver s.entities).typeResolver := by
  obtain ⟨u, hu, rfl⟩ := assemble_eq_ok_iff.mp h
  have hdressed : (u.dressed a.wiring).schema.code.resolver? "_Entity" =
      u.schema.code.resolver? "_Entity" :=
    CodeRegistry.resolver?_dressed u.schema.code a.wiring u.schema.types "_Entity"
  rw [hdressed]
  exact resolver?_entity_of_unwired hu hentities hcontains

/-- The types of a schema with entities are those that everything was bound to, with federation. -/
theorem OverTexts.types_eq_federated (ha : a.OverTexts)
    (h : a.assemble files raw visibility = .ok s) (hentities : s.entities.keys ≠ []) :
    ∃ merged, a.mergeTypes files raw = .ok merged ∧ merged.types.Sound ∧
      merged.types.Federable (entityMembers merged.types s.entities) ∧
      s.schema.types = merged.types.federated (entityMembers merged.types s.entities) := by
  obtain ⟨u, hu, rfl⟩ := assemble_eq_ok_iff.mp h
  obtain ⟨merged, hmerged, -, ⟨hnot, -⟩ | ⟨-, hadded⟩⟩ := types_of_unwired hu
  · exact absurd (needsFederation_of_keys merged.types hentities) (Bool.eq_false_iff.mp hnot)
  · have hsound := (ha.mergeTypes hmerged).sound
    exact ⟨merged, hmerged, hsound,
      (TypeRegistry.addFederationTypes_eq_done_iff_federable hsound).mp hadded⟩

/-- A representation resolves to the type that its name is mapped to just if that has a key or is
fetched under its own name, or if there are no such types and a union that was declared has it.
Otherwise it is refused, where there is such a union. -/
theorem resolveType_entity_iff (a : Assembler) (files : FileTree) (raw : Option String)
    (visibility : Visibility) (s : Snapshot) (ha : a.OverTexts) (hfederation : a.federation = none)
    (h : a.assemble files raw visibility = .ok s) (t n : String) (v : Json)
    (ht : t ∈ s.entities.keys) (hn : n = (a.entityMapping.get? t).getD t)
    (hobject : s.schema.types.isObject n = true) (hv : v.NamesType t) :
    ∃ merged, a.mergeTypes files raw = .ok merged ∧
      (s.schema.resolveType "_Entity" v = .ok n ↔
        (∃ d, merged.types.get? n = some d ∧ d.isObject = true ∧
          (carries d.directives "key" = true ∨ n ∈ s.entities.keys)) ∨
        entityMembers merged.types s.entities = [] ∧ s.schema.types.Admits "_Entity" n) ∧
      (s.schema.types.contains "_Entity" = true → s.schema.resolveType "_Entity" v ≠ .ok n →
        s.schema.resolveType "_Entity" v = .error (.invalidResolvedType "_Entity" n)) := by
  have hentities : s.entities.keys ≠ [] := List.ne_nil_of_mem ht
  obtain ⟨merged, hmerged, hsound, hm, htypes⟩ := ha.types_eq_federated h hentities
  have hnodup := (ha.grown h hmerged).2.1
  -- Where there is a type of entities, its possible types decide.
  have hresolved : s.schema.types.contains "_Entity" = true → s.schema.resolveType "_Entity" v =
      if (s.schema.types.possibleTypes "_Entity").contains n then .ok n
      else .error (.invalidResolvedType "_Entity" n) := by
    intro hcontains
    have hresolver := resolver?_entity h hentities hcontains
    rw [federationResolver, hfederation] at hresolver
    exact Schema.resolveType_entity hresolver hv hn hobject
  have hpossible := TypeRegistry.mem_possibleTypes_iff (T := "_Entity") (n := n) hnodup
  have hadmits : s.schema.resolveType "_Entity" v = .ok n ↔ s.schema.types.Admits "_Entity" n := by
    refine ⟨Schema.admits_of_resolveType hnodup, fun hadmits => ?_⟩
    rw [hresolved hadmits.contains, if_pos (List.contains_iff_mem.mpr (hpossible.mpr hadmits))]
  refine ⟨merged, hmerged, ?_, fun hcontains hnot => ?_⟩
  · rw [hadmits, ← TypeRegistry.mem_entityMembers_iff hsound.distinct]
    by_cases hmembers : entityMembers merged.types s.entities = []
    · simp [hmembers]
    · rw [htypes, TypeRegistry.admits_entity_iff hsound hm hmembers]
      simp [hmembers]
  · rw [ne_eq, hadmits, ← hpossible, ← List.contains_iff_mem] at hnot
    rw [hresolved hcontains, if_neg hnot]

def libraryText : String :=
  "type Query \x7b ok: Boolean \x7d type Book \x7b id: ID \x7d " ++
    "type Film @key(fields: \"id\") \x7b id: ID \x7d"

def library : Assembler where
  settings := { extensions := { validation := false } }
  components := [{
    name := "library"
    entities := [("Movie", .representation fun r => .ok (.value (.obj r))),
      ("Volume", .representation fun r => .ok (.value (.obj r)))] }]
  entityMapping := [("Movie", "Film"), ("Volume", "Book")]

theorem overTexts_library : library.OverTexts := nofun

structure LibraryTypes (merged : MergedTypes) (s : Snapshot) : Prop where
  merges : library.mergeTypes .empty (some libraryText) = .ok merged
  assembles : library.assemble .empty (some libraryText) .all = .ok s
  fetched : s.entities.keys = ["Movie", "Volume"]
  federated : s.schema.types = merged.types.federated (entityMembers merged.types s.entities)
  film : "Film" ∈ entityMembers merged.types s.entities
  filmObject : s.schema.types.isObject "Film" = true
  book : "Book" ∉ entityMembers merged.types s.entities
  bookObject : s.schema.types.isObject "Book" = true

theorem exists_libraryTypes : ∃ merged s, LibraryTypes merged s := by
  have hchecked : (library.mergeTypes .empty (some libraryText)).toOption.any (fun merged =>
      decide (merged.types.roots.query = "Query") && merged.types.isObject "Query" &&
        !merged.types.contains "_Entity" && merged.types.contains "Query" &&
        decide (merged.types.objectsWithDirective "key" = ["Film"]) &&
        merged.types.isObject "Film" && merged.types.isObject "Book") = true := by decide +kernel
  obtain ⟨merged, hmerged, hchecked⟩ := Except.exists_ok_of_any hchecked
  simp only [Bool.and_eq_true, Bool.not_eq_true', decide_eq_true_eq] at hchecked
  obtain ⟨⟨⟨⟨⟨⟨hroot, hquery⟩, hentity⟩, hthere⟩, hkey⟩, hfilm⟩, hbook⟩ := hchecked
  have hsound := (overTexts_library.mergeTypes hmerged).sound
  obtain ⟨entities, hentities, hkeys⟩ : ∃ entities,
      registerEntities library.activeComponents = .ok entities ∧
        entities.keys = ["Movie", "Volume"] := ⟨_, rfl, rfl⟩
  have hm : merged.types.Federable (entityMembers merged.types entities) := by
    refine ⟨fun _ => hroot ▸ hquery, fun _ => hentity, fun hnot => ?_⟩
    rw [hroot, hthere] at hnot
    cases hnot
  have hpasses : library.Passes .empty (some libraryText) merged [] {} entities :=
    ⟨hmerged, rfl, rfl, ⟨_, rfl⟩, hentities, fun _ =>
      ⟨_, (TypeRegistry.addFederationTypes_eq_done_iff_federable hsound).mpr ⟨hm, rfl⟩⟩⟩
  obtain ⟨s, hs⟩ := hpasses.exists_assemble .all
  obtain ⟨⟨merged', hpasses'⟩, -⟩ := passes_of_assemble hs
  obtain ⟨-, -, rfl⟩ := hpasses.unique hpasses'
  obtain ⟨merged'', hmerged'', -, -, htypes⟩ :=
    overTexts_library.types_eq_federated hs (hkeys ▸ List.cons_ne_nil _ _)
  obtain rfl := Except.ok.inj (hmerged.symm.trans hmerged'')
  have hkept : ∀ n, merged.types.isObject n = true → s.schema.types.isObject n = true := by
    intro n hn
    obtain ⟨d, hd, hobject⟩ := TypeRegistry.isObject_iff.mp hn
    obtain ⟨d', hd', hobject', -⟩ := TypeRegistry.get?_federated_object hd hobject
    rw [htypes]
    exact TypeRegistry.isObject_iff.mpr ⟨d', hd', hobject'⟩
  refine ⟨merged, s, hmerged, hs, hkeys, htypes, ?_, hkept _ hfilm, ?_, hkept _ hbook⟩
  · exact mem_appendNew.mpr (.inl (hkey ▸ List.mem_singleton_self _))
  · rw [entityMembers, mem_appendNew, hkey, hkeys, List.mem_filter]
    simp

namespace LibraryTypes

variable {merged : MergedTypes} {s : Snapshot}

theorem distinct (h : LibraryTypes merged s) : merged.types.names.Nodup :=
  (overTexts_library.mergeTypes h.merges).sound.distinct

theorem union (h : LibraryTypes merged s) : s.schema.types.contains "_Entity" = true := by
  rw [h.federated]
  exact TypeRegistry.contains_federated_entity (List.ne_nil_of_mem h.film)

end LibraryTypes

/-- A movie is a film. A volume is a book, which is no entity. -/
theorem resolveType_entity_iff_library : library.OverTexts ∧ library.federation = none ∧
    ∃ s, library.assemble .empty (some libraryText) .all = .ok s ∧
      s.schema.resolveType "_Entity" (.obj [("__typename", .str "Movie")]) = .ok "Film" ∧
      s.schema.resolveType "_Entity" (.obj [("__typename", .str "Volume")]) =
        .error (.invalidResolvedType "_Entity" "Book") := by
  obtain ⟨merged, s, h⟩ := exists_libraryTypes
  obtain ⟨other, hother, hmovie, -⟩ := resolveType_entity_iff library .empty (some libraryText)
    .all s overTexts_library rfl h.assembles "Movie" "Film" (.obj [("__typename", .str "Movie")])
    (by simp [h.fetched]) rfl h.filmObject ⟨_, rfl, rfl⟩
  obtain rfl := Except.ok.inj (h.merges.symm.trans hother)
  obtain ⟨other, hother, hvolume, hrefused⟩ := resolveType_entity_iff library .empty
    (some libraryText) .all s overTexts_library rfl h.assembles "Volume" "Book"
    (.obj [("__typename", .str "Volume")]) (by simp [h.fetched]) rfl h.bookObject ⟨_, rfl, rfl⟩
  obtain rfl := Except.ok.inj (h.merges.symm.trans hother)
  rw [← TypeRegistry.mem_entityMembers_iff h.distinct] at hmovie hvolume
  refine ⟨overTexts_library, rfl, s, h.assembles, hmovie.mpr (.inl h.film),
    hrefused h.union fun hok => ?_⟩
  rcases hvolume.mp hok with hbook | ⟨hnone, -⟩
  · exact h.book hbook
  · exact List.ne_nil_of_mem h.film hnone

/-- A name that is mapped to an object type without a key resolves to nothing. -/
theorem mapped_entity_unresolved :
    ¬ ∀ (a : Assembler) (files : FileTree) (raw : Option String) (visibility : Visibility)
      (s : Snapshot), a.OverTexts → a.federation = none →
      a.assemble files raw visibility = .ok s → ∀ t ∈ s.entities.keys,
      s.schema.types.isObject ((a.entityMapping.get? t).getD t) = true →
      ∀ v, v.NamesType t →
        s.schema.resolveType "_Entity" v = .ok ((a.entityMapping.get? t).getD t) := by
  intro hall
  obtain ⟨merged, s, h⟩ := exists_libraryTypes
  have hresolved : s.schema.resolveType "_Entity" (.obj [("__typename", .str "Volume")]) =
      .ok "Book" :=
    hall library .empty (some libraryText) .all s overTexts_library rfl h.assembles "Volume"
      (by simp [h.fetched]) h.bookObject (.obj [("__typename", .str "Volume")]) ⟨_, rfl, rfl⟩
  obtain ⟨other, hother, hsound, hm, -⟩ := overTexts_library.types_eq_federated h.assembles
    (h.fetched ▸ List.cons_ne_nil _ _)
  obtain rfl := Except.ok.inj (h.merges.symm.trans hother)
  have hnodup := (overTexts_library.grown h.assembles h.merges).2.1
  have hadmits := Schema.admits_of_resolveType hnodup hresolved
  rw [h.federated, TypeRegistry.admits_entity_iff hsound hm (List.ne_nil_of_mem h.film)] at hadmits
  exact h.book hadmits

end Assembler

end SchemaAssembly
