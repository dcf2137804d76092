import SchemaAssembly.Proofs.Federation.Additions

/-!
Federation over types that have some of its definitions. Every definition is left out where it is
there already, and the query type is extended then, but for the union of the entities. So the types
can be added just where that union, if it has members, and a new query type find their names free;
and once there are members they cannot be added again.
-/

set_option autoImplicit false

namespace SchemaAssembly

section Definitions

variable {r : TypeRegistry} {members : List String} {d : TypeDef}

/-- The types that do not depend on the entities. -/
def supportTypes : List TypeDef := [⟨"_FieldSet", none, [], .scalar⟩,
  ⟨"_Any", none, [], .scalar⟩, ⟨"_Service", none, [], .object serviceFields []⟩]

def entityUnion : List String → List TypeDef
  | [] => []
  | m :: ms => [⟨"_Entity", none, [], .union (m :: ms)⟩]

def newQuery (r : TypeRegistry) (noMembers : Bool) : List TypeDef :=
  if r.contains r.roots.query then [] else [queryType r.roots.query noMembers]

theorem name_queryType (n : String) (noMembers : Bool) : (queryType n noMembers).name = n := rfl

def newTypes (r : TypeRegistry) (members : List String) : List TypeDef :=
  (supportTypes.filter fun d => !r.contains d.name) ++ entityUnion members ++
    newQuery r members.isEmpty

def newDirectives (r : TypeRegistry) : List DirectiveDef :=
  federationDirectiveDefs.filter fun d => (r.directive? d.name).isNone

def queryExtensions (r : TypeRegistry) (noMembers : Bool) : List TypeDef :=
  if r.contains r.roots.query then [queryType r.roots.query noMembers] else []

theorem map_typeLine (r : TypeRegistry) (line : String) (d : TypeDef) :
    (lineUnless (r.contains d.name) line (.type d)).map (·.2) =
      ([d].filter fun d => !r.contains d.name).map .type := by
  cases h : r.contains d.name <;> simp [lineUnless, h]

theorem map_directiveLines (r : TypeRegistry) {lines : List (String × String)}
    {ds : List DirectiveDef} (h : lines.map (·.1) = ds.map (·.name)) :
    ((lines.zip ds).flatMap fun d =>
      lineUnless (r.directive? d.1.1).isSome d.1.2 (.directive d.2)).map (·.2) =
      (ds.filter fun d => (r.directive? d.name).isNone).map .directive := by
  induction lines generalizing ds with
  | nil =>
    rw [List.map_eq_nil_iff.mp h.symm]
    rfl
  | cons l rest ih =>
    cases ds with
    | nil => cases h
    | cons d ds =>
      obtain ⟨hname, hrest⟩ := List.cons.inj h
      dsimp only at hname
      rw [List.zip_cons_cons, List.flatMap_cons, List.map_append, ih hrest]
      dsimp only
      rw [hname]
      cases hd : r.directive? d.name <;> simp [lineUnless, hd]

/-- The definitions that are added, each kind by itself. -/
theorem federationDefinitions_eq (r : TypeRegistry) (members : List String) :
    federationDefinitions r members =
      ((supportTypes.take 1).filter fun d => !r.contains d.name).map .type ++
      (newDirectives r).map .directive ++
      ((supportTypes.drop 1).filter fun d => !r.contains d.name).map .type ++
      (entityUnion members).map .type ++ [queryDefinition r members.isEmpty] := by
  have hunion : (entityLine members).map (·.2) = (entityUnion members).map .type := by
    cases members <;> rfl
  have hlast : supportTypes.drop 1 = [⟨"_Any", none, [], .scalar⟩] ++
      [⟨"_Service", none, [], .object serviceFields []⟩] := rfl
  rw [federationDefinitions, federationLines]
  simp only [List.map_append]
  rw [map_directiveLines r rfl, hunion, map_typeLine r _ ⟨"_FieldSet", none, [], .scalar⟩,
    map_typeLine r _ ⟨"_Any", none, [], .scalar⟩,
    map_typeLine r _ ⟨"_Service", none, [], .object serviceFields []⟩, hlast, List.filter_append,
    List.map_append, ← List.append_assoc]
  rfl

theorem typesOf_federationDefinitions (origin : String) (r : TypeRegistry)
    (members : List String) : typesOf origin (federationDefinitions r members) =
      (newTypes r members).map fun d => ⟨d, origin⟩ := by
  have hquery : typesOf origin [queryDefinition r members.isEmpty] =
      (newQuery r members.isEmpty).map fun d => ⟨d, origin⟩ := by
    unfold queryDefinition newQuery
    split <;> rfl
  have hsupport : supportTypes = supportTypes.take 1 ++ supportTypes.drop 1 := rfl
  rw [newTypes, List.map_append, List.map_append, ← hquery, hsupport, List.filter_append,
    List.map_append, federationDefinitions_eq]
  simp [typesOf]

theorem directivesOf_federationDefinitions (r : TypeRegistry) (members : List String) :
    directivesOf (federationDefinitions r members) = newDirectives r := by
  have hquery : directivesOf [queryDefinition r members.isEmpty] = [] := by
    unfold queryDefinition
    split <;> rfl
  rw [federationDefinitions_eq, directivesOf, List.filterMap_append, ← directivesOf,
    ← directivesOf, hquery]
  simp [directivesOf]

theorem extensionsOf_federationDefinitions (r : TypeRegistry) (members : List String) :
    extensionsOf (federationDefinitions r members) = queryExtensions r members.isEmpty := by
  have hquery : extensionsOf [queryDefinition r members.isEmpty] =
      queryExtensions r members.isEmpty := by
    unfold queryDefinition queryExtensions
    split <;> rfl
  rw [← hquery, federationDefinitions_eq]
  simp [extensionsOf]

end Definitions

namespace TypeRegistry

variable {r s : TypeRegistry} {members : List String} {entities : EntityTable} {d : TypeDef}
  {n : String}

/-- What federation with these members asks of a registry. -/
structure Federable (r : TypeRegistry) (members : List String) : Prop where
  query : r.contains r.roots.query = true → r.isObject r.roots.query = true
  union : members ≠ [] → r.contains "_Entity" = false
  newQuery : r.contains r.roots.query = false → r.roots.query ∉ supportTypes.map (·.name) ∧
    (members ≠ [] → r.roots.query ≠ "_Entity")

theorem contains_iff : r.contains n = true ↔ n ∈ r.names := isSome_entry?_iff

theorem contains_eq_false_iff : r.contains n = false ↔ n ∉ r.names := by
  rw [← contains_iff, Bool.not_eq_true]

theorem isObject_iff : r.isObject n = true ↔ ∃ d, r.get? n = some d ∧ d.isObject = true := by
  unfold isObject
  cases r.get? n <;> simp

theorem names_entityUnion (members : List String) :
    (entityUnion members).map (·.name) = if members = [] then [] else ["_Entity"] := by
  cases members <;> rfl

theorem fresh_supportTypes (r : TypeRegistry) :
    Fresh r.names ((supportTypes.filter fun d => !r.contains d.name).map (·.name)) := by
  constructor
  · have hnodup : (supportTypes.map (·.name)).Nodup := by decide +kernel
    exact hnodup.sublist (List.filter_sublist.map _)
  · intro n hn
    obtain ⟨d, hd, rfl⟩ := List.mem_map.mp hn
    exact contains_eq_false_iff.mp (Bool.not_eq_true' _ ▸ (List.mem_filter.mp hd).2)

theorem fresh_newTypes_iff : Fresh r.names ((newTypes r members).map (·.name)) ↔
    (members ≠ [] → r.contains "_Entity" = false) ∧
      (r.contains r.roots.query = false → r.roots.query ∉ supportTypes.map (·.name) ∧
        (members ≠ [] → r.roots.query ≠ "_Entity")) := by
  have hkept : ∀ n, n ∉ r.names →
      (n ∈ (supportTypes.filter fun d => !r.contains d.name).map (·.name) ↔
        n ∈ supportTypes.map (·.name)) := by
    intro n hn
    have hnot : r.contains n = false := contains_eq_false_iff.mpr hn
    simp only [List.mem_map, List.mem_filter, Bool.not_eq_true']
    exact ⟨fun ⟨d, hd, hname⟩ => ⟨d, hd.1, hname⟩,
      fun ⟨d, hd, hname⟩ => ⟨d, ⟨hd, hname ▸ hnot⟩, hname⟩⟩
  have hother : "_Entity" ∉ supportTypes.map (·.name) := by decide +kernel
  rw [newTypes, List.map_append, List.map_append, fresh_append, fresh_append, names_entityUnion]
  simp only [fresh_supportTypes, true_and]
  refine and_congr ?_ ?_
  · by_cases hm : members = []
    · simp [hm, fresh_nil]
    · rw [if_neg hm, fresh_singleton, contains_eq_false_iff, List.mem_append, not_or]
      refine ⟨fun h _ => h.1, fun h => ⟨h hm, ?_⟩⟩
      rwa [hkept _ (h hm)]
  · unfold newQuery
    cases hq : r.contains r.roots.query with
    | true => simp [fresh_nil]
    | false =>
      have hnew := contains_eq_false_iff.mp hq
      rw [if_neg Bool.false_ne_true, List.map_singleton, name_queryType, fresh_singleton,
        List.mem_append, List.mem_append, not_or, not_or, hkept _ hnew]
      by_cases hm : members = [] <;> simp [hm, hnew]

theorem fresh_newDirectives (r : TypeRegistry) :
    Fresh r.directiveNames ((newDirectives r).map (·.name)) := by
  constructor
  · have hnodup : (federationDirectiveDefs.map (·.name)).Nodup := by decide +kernel
    exact hnodup.sublist (List.filter_sublist.map _)
  · intro n hn
    obtain ⟨d, hd, rfl⟩ := List.mem_map.mp hn
    exact directive?_eq_none_iff.mp (Option.isNone_iff_eq_none.mp (List.mem_filter.mp hd).2)

theorem baseTypes_federationFragment (r : TypeRegistry) (members : List String) :
    baseTypes [federationFragment r members] =
      (newTypes r members).map fun d => ⟨d, federationOrigin⟩ := by
  rw [baseTypes, List.flatMap_singleton]
  exact typesOf_federationDefinitions _ r members

theorem names_baseTypes_federationFragment (r : TypeRegistry) (members : List String) :
    (baseTypes [federationFragment r members]).map Declared.name =
      (newTypes r members).map (·.name) := by
  rw [baseTypes_federationFragment, List.map_map]
  rfl

theorem directiveDefs_federationFragment (r : TypeRegistry) (members : List String) :
    directiveDefs [federationFragment r members] = newDirectives r := by
  rw [directiveDefs, List.flatMap_singleton]
  exact directivesOf_federationDefinitions r members

theorem extensions_federationFragment (r : TypeRegistry) (members : List String) :
    extensions [federationFragment r members] = queryExtensions r members.isEmpty := by
  rw [extensions, List.flatMap_singleton]
  exact extensionsOf_federationDefinitions r members

theorem extends_queryType_iff {fs : List Fragment} {noMembers : Bool}
    (hq : r.contains r.roots.query = true) :
    (r.withBases fs).Extends (queryType r.roots.query noMembers) ↔
      r.isObject r.roots.query = true := by
  have hkind : ∀ d : TypeDef, d.keyword = "type" ↔ d.isObject = true := by
    intro d
    unfold TypeDef.keyword TypeDef.isObject
    cases d.body <;> simp [TypeBody.keyword]
  rw [Extends, isObject_iff]
  change (∃ d, (r.withBases fs).get? r.roots.query = some d ∧ d.keyword = "type") ↔ _
  rw [get?_withBases_of_mem (contains_iff.mp hq)]
  simp only [hkind]

theorem mergeable_federationFragment_iff :
    r.Mergeable [federationFragment r members] ↔ r.Federable members := by
  have hbases : r.Accepts (baseTypes [federationFragment r members])
      (directiveDefs [federationFragment r members]) ↔
        Fresh r.names ((newTypes r members).map (·.name)) := by
    rw [Accepts, names_baseTypes_federationFragment, directiveDefs_federationFragment]
    exact and_iff_left (fresh_newDirectives r)
  have hextensions : (∀ e ∈ extensions [federationFragment r members],
      (r.withBases [federationFragment r members]).Extends e) ↔
        (r.contains r.roots.query = true → r.isObject r.roots.query = true) := by
    rw [extensions_federationFragment, queryExtensions]
    cases hq : r.contains r.roots.query with
    | true =>
      simp only [if_true, List.forall_mem_singleton, true_imp_iff, extends_queryType_iff hq]
    | false => simp
  constructor
  · rintro ⟨haccepts, hextends⟩
    obtain ⟨hunion, hnew⟩ := fresh_newTypes_iff.mp (hbases.mp haccepts)
    exact ⟨hextensions.mp hextends, hunion, hnew⟩
  · rintro ⟨hquery, hunion, hnew⟩
    exact ⟨hbases.mpr (fresh_newTypes_iff.mpr ⟨hunion, hnew⟩), hextensions.mpr hquery⟩

def federated (r : TypeRegistry) (members : List String) : TypeRegistry :=
  r.mergedTypes [federationFragment r members]

theorem addFederationTypes_eq_done_iff_federable (hr : r.Sound) :
    addFederationTypes r entities = .done s ↔ r.Federable (entityMembers r entities) ∧
      s = r.federated (entityMembers r entities) := by
  rw [addFederationTypes_eq_done_iff hr, mergeable_federationFragment_iff]
  rfl

theorem get?_federated (r : TypeRegistry) (members : List String) (n : String) :
    (r.federated members).get? n =
      ((r.withBases [federationFragment r members]).get? n).map fun d =>
        ((queryExtensions r members.isEmpty).filter fun e => e.name = n).foldl
          TypeDef.extended d := by
  rw [federated, mergedTypes, get?_foldl_extended, extensions_federationFragment]

theorem filter_queryExtensions_of_ne {noMembers : Bool} (hn : n ≠ r.roots.query) :
    ((queryExtensions r noMembers).filter fun e => e.name = n) = [] := by
  unfold queryExtensions
  split
  · simp [name_queryType, hn.symm]
  · rfl

/-- What was there stays, up to the fields of the query type. -/
theorem get?_federated_of_ne (hd : r.get? n = some d) (hn : n ≠ r.roots.query) :
    (r.federated members).get? n = some d := by
  rw [get?_federated, get?_withBases_of_mem (mem_names_of_get? hd), hd,
    filter_queryExtensions_of_ne hn]
  rfl

theorem get?_federated_query (hd : r.get? r.roots.query = some d) :
    (r.federated members).get? r.roots.query =
      some (d.extended (queryType r.roots.query members.isEmpty)) := by
  have hmem := mem_names_of_get? hd
  have hfilter : ((queryExtensions r members.isEmpty).filter fun e => e.name = r.roots.query) =
      [queryType r.roots.query members.isEmpty] := by
    rw [queryExtensions, if_pos (contains_iff.mpr hmem)]
    simp [name_queryType]
  rw [get?_federated, get?_withBases_of_mem hmem, hd, hfilter]
  rfl

/-- What is new is as federation defines it. -/
theorem get?_federated_of_mem (hr : r.Sound) (hm : r.Federable members)
    (hd : d ∈ newTypes r members) : (r.federated members).get? d.name = some d := by
  have hfresh := fresh_newTypes_iff.mpr ⟨hm.union, hm.newQuery⟩
  have hnew : d.name ∉ r.names := hfresh.2 _ (List.mem_map_of_mem hd)
  have hbase : (r.withBases [federationFragment r members]).get? d.name = some d := by
    refine get?_of_mem ?_ ?_
    · rw [names_withBases, names_baseTypes_federationFragment]
      exact List.nodup_append'.mpr ⟨hr.distinct, hfresh.1, fun n hn hn' => hfresh.2 n hn' hn⟩
    · have htypes : (r.withBases [federationFragment r members]).types =
          r.types ++ newTypes r members := by
        simp [types, withBases, declare, baseTypes_federationFragment, Function.comp_def]
      rw [htypes]
      exact List.mem_append_right _ hd
  have hfilter : ((queryExtensions r members.isEmpty).filter fun e => e.name = d.name) = [] := by
    by_cases hq : r.contains r.roots.query = true
    · exact filter_queryExtensions_of_ne fun h => hnew (h ▸ contains_iff.mp hq)
    · rw [queryExtensions, if_neg hq]
      rfl
  rw [get?_federated, hbase, hfilter]
  rfl

theorem names_federated (r : TypeRegistry) (members : List String) :
    (r.federated members).names = r.names ++ (newTypes r members).map (·.name) := by
  rw [federated, names_mergedTypes, names_baseTypes_federationFragment]

theorem directives_federated (r : TypeRegistry) (members : List String) :
    (r.federated members).directives = r.directives ++ newDirectives r := by
  rw [federated, directives_mergedTypes, directiveDefs_federationFragment]

theorem contains_federated_query (r : TypeRegistry) (members : List String) :
    (r.federated members).contains r.roots.query = true := by
  rw [contains_iff, names_federated, List.mem_append]
  by_cases hq : r.contains r.roots.query = true
  · exact .inl (contains_iff.mp hq)
  · refine .inr (List.mem_map.mpr ⟨queryType r.roots.query members.isEmpty, ?_, rfl⟩)
    rw [newTypes, newQuery, if_neg hq]
    exact List.mem_append_right _ (List.mem_singleton_self _)

theorem contains_federated_support (hd : d ∈ supportTypes) :
    (r.federated members).contains d.name = true := by
  rw [contains_iff, names_federated, List.mem_append]
  by_cases hc : r.contains d.name = true
  · exact .inl (contains_iff.mp hc)
  · refine .inr (List.mem_map_of_mem ?_)
    refine List.mem_append_left _ (List.mem_append_left _ (List.mem_filter.mpr ⟨hd, ?_⟩))
    rw [Bool.eq_false_iff.mpr hc]
    rfl

theorem contains_federated_entity (hm : members ≠ []) :
    (r.federated members).contains "_Entity" = true := by
  rw [contains_iff, names_federated, newTypes, List.map_append, List.map_append,
    names_entityUnion, if_neg hm]
  simp

/-- The query type afterwards has the fields that it had and those of federation. -/
theorem get?_federated_query_fields (hr : r.Sound) (hm : r.Federable members) :
    ∃ d fields interfaces, (r.federated members).get? r.roots.query = some d ∧
      d.body = .object (extendFields fields
        (Sdl.byName FieldDef.name (queryFields members.isEmpty))) interfaces ∧
      ∀ n, r.field? ⟨r.roots.query, n⟩ = Entries.get? n fields := by
  by_cases hq : r.contains r.roots.query = true
  · obtain ⟨d, hd, hobject⟩ := isObject_iff.mp (hm.query hq)
    cases hbody : d.body with
    | object fields interfaces =>
      refine ⟨_, fields, interfaces, get?_federated_query hd, ?_, fun n => ?_⟩
      · rw [TypeDef.extended, hbody]
        rfl
      · simp only [field?, hd, TypeDef.fields?, hbody, Option.bind_some]
    | _ => simp [TypeDef.isObject, hbody] at hobject
  · have hnew : queryType r.roots.query members.isEmpty ∈ newTypes r members := by
      rw [newTypes, newQuery, if_neg hq]
      exact List.mem_append_right _ (List.mem_singleton_self _)
    have hget := get?_federated_of_mem hr hm hnew
    rw [name_queryType] at hget
    refine ⟨_, [], [], hget, ?_, fun n => ?_⟩
    · cases members.isEmpty <;> rfl
    · have hnone : r.get? r.roots.query = none := by
        by_contra hsome
        obtain ⟨d, hd⟩ := Option.ne_none_iff_exists'.mp hsome
        exact hq (contains_iff.mpr (mem_names_of_get? hd))
      rw [field?, hnone]
      rfl

theorem get?_queryFields_service (fields : Entries FieldDef) (noMembers : Bool) :
    Entries.get? "_service" (extendFields fields
      (Sdl.byName FieldDef.name (queryFields noMembers))) = some queryServiceField := by
  cases noMembers with
  | true => exact Entries.get?_put_self "_service" queryServiceField fields
  | false =>
    have hne : "_service" ≠ "_entities" := by decide +kernel
    exact (Entries.get?_put_of_ne queryEntitiesField _ hne).trans
      (Entries.get?_put_self "_service" queryServiceField fields)

theorem get?_queryFields_entities (fields : Entries FieldDef) :
    Entries.get? "_entities" (extendFields fields
      (Sdl.byName FieldDef.name (queryFields false))) = some queryEntitiesField :=
  Entries.get?_put_self "_entities" queryEntitiesField _

theorem field?_federated_service (hr : r.Sound) (hm : r.Federable members) :
    (r.federated members).field? ⟨r.roots.query, "_service"⟩ = some queryServiceField := by
  obtain ⟨d, fields, interfaces, hd, hbody, -⟩ := get?_federated_query_fields hr hm
  simp only [field?, hd, TypeDef.fields?, hbody, Option.bind_some]
  exact get?_queryFields_service fields _

theorem field?_federated_entities (hr : r.Sound) (hm : r.Federable members)
    (hmembers : members ≠ []) :
    (r.federated members).field? ⟨r.roots.query, "_entities"⟩ = some queryEntitiesField := by
  obtain ⟨d, fields, interfaces, hd, hbody, -⟩ := get?_federated_query_fields hr hm
  rw [List.isEmpty_eq_false_iff.mpr hmembers] at hbody
  simp only [field?, hd, TypeDef.fields?, hbody, Option.bind_some]
  exact get?_queryFields_entities fields

/-- No other field of the query type is new. -/
theorem eq_of_field?_federated_query (hr : r.Sound) (hm : r.Federable members)
    (hold : r.field? ⟨r.roots.query, n⟩ = none)
    (hnew : ((r.federated members).field? ⟨r.roots.query, n⟩).isSome = true) :
    n = "_service" ∨ n = "_entities" ∧ members ≠ [] := by
  obtain ⟨d, fields, interfaces, hd, hbody, hfields⟩ := get?_federated_query_fields hr hm
  rw [hfields] at hold
  simp only [field?, hd, TypeDef.fields?, hbody, Option.bind_some] at hnew
  by_contra hother
  obtain ⟨hservice, hentities⟩ := not_or.mp hother
  have hkept : Entries.get? n (extendFields fields
      (Sdl.byName FieldDef.name (queryFields members.isEmpty))) = Entries.get? n fields := by
    cases members with
    | nil => exact Entries.get?_put_of_ne queryServiceField fields hservice
    | cons m rest =>
      have hne : n ≠ "_entities" := fun h => hentities ⟨h, List.cons_ne_nil m rest⟩
      exact (Entries.get?_put_of_ne queryEntitiesField _ hne).trans
        (Entries.get?_put_of_ne queryServiceField fields hservice)
  rw [hkept, hold] at hnew
  cases hnew

theorem fromTexts_addFederationTypes (hr : r.FromTexts)
    (h : addFederationTypes r entities = .done s) : s.FromTexts := by
  have hmembers : ∀ m ∈ entityMembers r entities, Sdl.isName m = true := fun m hm =>
    hr.sound.named m (mem_names_of_mem_entityMembers hm)
  rw [addFederationTypes_eq hr.sound] at h
  exact hr.merged (List.forall_mem_singleton.mpr
    (Fragment.isParsed_of_parse (parse_federationSdl hr.sound.query hmembers))) h

theorem roots_federated (r : TypeRegistry) (members : List String) :
    (r.federated members).roots = r.roots := roots_mergedTypes r _

theorem newTypes_federated (r : TypeRegistry) (members : List String) :
    newTypes (r.federated members) [] = [] := by
  have hsupport : (supportTypes.filter fun d => !(r.federated members).contains d.name) = [] := by
    rw [List.filter_eq_nil_iff]
    intro d hd
    simp [contains_federated_support hd]
  rw [newTypes, hsupport, newQuery, roots_federated, if_pos (contains_federated_query r members)]
  rfl

theorem newDirectives_federated (r : TypeRegistry) (members : List String) :
    newDirectives (r.federated members) = [] := by
  rw [newDirectives, List.filter_eq_nil_iff]
  intro d hd hnone
  have hnot := directive?_eq_none_iff.mp (Option.isNone_iff_eq_none.mp hnone)
  rw [directiveNames, directives_federated, List.map_append, List.mem_append, not_or] at hnot
  refine hnot.2 (List.mem_map_of_mem (List.mem_filter.mpr ⟨hd, ?_⟩))
  rw [directive?_eq_none_iff.mpr hnot.1]
  rfl

theorem replace_of_get? (hn : r.names.Nodup) (hd : r.get? d.name = some d) : r.replace d = r := by
  have hsame : ∀ x ∈ r.declared,
      (if x.definition.name = d.name then { x with definition := d } else x) = x := by
    intro x hx
    split
    · rename_i hname
      have hget := get?_of_mem hn (List.mem_map_of_mem hx)
      rw [hname, hd] at hget
      rw [Option.some.inj hget]
    · rfl
  rw [replace, List.map_congr_left hsame, List.map_id']

theorem extended_queryType {fields : Entries FieldDef} {interfaces : List String}
    (hbody : d.body = .object fields interfaces)
    (hservice : Entries.get? "_service" fields = some queryServiceField) :
    d.extended (queryType n true) = d := by
  have hput : Entries.put "_service" queryServiceField fields = fields :=
    Entries.put_of_get? hservice
  obtain ⟨name, description, directives, body⟩ := d
  obtain rfl : body = .object fields interfaces := hbody
  have hextended : (TypeDef.mk name description directives (.object fields interfaces)).extended
      (queryType n true) = ⟨name, description, directives ++ [],
        .object (Entries.put "_service" queryServiceField fields) interfaces⟩ := rfl
  rw [hextended, hput, List.append_nil]

/-- Where all is there, the query type with its fields included, nothing changes. -/
theorem federated_of_complete (hn : r.names.Nodup) (htypes : newTypes r [] = [])
    (hdirectives : newDirectives r = []) (hd : r.get? r.roots.query = some d)
    (hfields : d.extended (queryType r.roots.query true) = d) :
    (r.federated []).declared = r.declared ∧ (r.federated []).directives = r.directives := by
  have hmem := mem_names_of_get? hd
  have hbases : (r.withBases [federationFragment r []]).declared = r.declared := by
    simp [withBases, declare, baseTypes_federationFragment, htypes]
  have hextensions : extensions [federationFragment r []] = [queryType r.roots.query true] := by
    rw [extensions_federationFragment, queryExtensions, if_pos (contains_iff.mpr hmem)]
    rfl
  have hsame : (r.withBases [federationFragment r []]).extended (queryType r.roots.query true) =
      r.withBases [federationFragment r []] := by
    have hget : (r.withBases [federationFragment r []]).get?
        (queryType r.roots.query true).name = some d :=
      (get?_withBases_of_mem hmem _).trans hd
    rw [extended, hget]
    dsimp only
    rw [hfields]
    refine replace_of_get? ?_ (name_of_get? hget ▸ hget)
    rwa [names_eq, hbases, ← names_eq]
  constructor
  · rw [federated, mergedTypes, hextensions, List.foldl_cons, List.foldl_nil, hsame, hbases]
  · rw [directives_federated, hdirectives, List.append_nil]

/-- Without members nothing changes the second time. -/
theorem federated_federated (hr : r.Sound) (hm : r.Federable members)
    (hn : (r.federated members).names.Nodup) :
    ((r.federated members).federated []).declared = (r.federated members).declared ∧
      ((r.federated members).federated []).directives = (r.federated members).directives := by
  obtain ⟨d, fields, interfaces, hd, hbody, -⟩ := get?_federated_query_fields hr hm
  exact federated_of_complete hn (newTypes_federated r members) (newDirectives_federated r members)
    (roots_federated r members ▸ hd)
    (extended_queryType hbody (get?_queryFields_service fields _))

theorem mem_objectsWithDirective_iff {k : String} (hn : r.names.Nodup) :
    n ∈ r.objectsWithDirective k ↔
      ∃ d, r.get? n = some d ∧ d.isObject = true ∧ carries d.directives k = true := by
  simp only [objectsWithDirective, List.mem_map, List.mem_filter, Bool.and_eq_true]
  constructor
  · rintro ⟨d, ⟨hd, hobject, hcarries⟩, rfl⟩
    exact ⟨d, get?_of_mem hn hd, hobject, hcarries⟩
  · rintro ⟨d, hd, hobject, hcarries⟩
    exact ⟨d, ⟨mem_types_of_get? hd, hobject, hcarries⟩, name_of_get? hd⟩

theorem mem_entityMembers_iff (hn : r.names.Nodup) : n ∈ entityMembers r entities ↔
    ∃ d, r.get? n = some d ∧ d.isObject = true ∧
      (carries d.directives "key" = true ∨ n ∈ entities.keys) := by
  rw [entityMembers, mem_appendNew, mem_objectsWithDirective_iff hn, List.mem_filter,
    isObject_iff]
  constructor
  · rintro (⟨d, hd, hobject, hkey⟩ | ⟨hfetched, d, hd, hobject⟩)
    · exact ⟨d, hd, hobject, .inl hkey⟩
    · exact ⟨d, hd, hobject, .inr hfetched⟩
  · rintro ⟨d, hd, hobject, hkey | hfetched⟩
    · exact .inl ⟨d, hd, hobject, hkey⟩
    · exact .inr ⟨hfetched, d, hd, hobject⟩

theorem get?_federated_object (hd : r.get? n = some d) (hobject : d.isObject = true) :
    ∃ d', (r.federated members).get? n = some d' ∧ d'.isObject = true ∧
      d'.directives = d.directives := by
  by_cases hn : n = r.roots.query
  · subst hn
    refine ⟨_, get?_federated_query hd, ?_⟩
    cases hbody : d.body with
    | object fields interfaces =>
      rw [TypeDef.extended, hbody]
      exact ⟨rfl, List.append_nil _⟩
    | _ => simp [TypeDef.isObject, hbody] at hobject
  · exact ⟨d, get?_federated_of_ne hd hn, hobject, rfl⟩

theorem entityMembers_federated_subset (hr : r.names.Nodup)
    (hn : (r.federated members).names.Nodup) :
    entityMembers r entities ⊆ entityMembers (r.federated members) entities := by
  intro n h
  obtain ⟨d, hd, hobject, hentity⟩ := (mem_entityMembers_iff hr).mp h
  obtain ⟨d', hd', hobject', hdirectives⟩ := get?_federated_object hd hobject
  exact (mem_entityMembers_iff hn).mpr ⟨d', hd', hobject', hdirectives ▸ hentity⟩

theorem federable_federated_iff {others : List String} (hr : r.Sound) (hm : r.Federable members) :
    (r.federated members).Federable others ↔
      (others ≠ [] → (r.federated members).contains "_Entity" = false) := by
  have hquery := contains_federated_query r members
  rw [← roots_federated r members] at hquery
  constructor
  · exact fun h => h.union
  · refine fun h => ⟨fun _ => ?_, h, fun hnot => ?_⟩
    · obtain ⟨d, fields, interfaces, hd, hbody, -⟩ := get?_federated_query_fields hr hm
      rw [roots_federated]
      exact isObject_iff.mpr ⟨d, hd, by simp [TypeDef.isObject, hbody]⟩
    · rw [hquery] at hnot
      cases hnot

/-- The second time succeeds without a change just if there are no members. -/
theorem exists_again_iff (hr : r.FromTexts) (h : addFederationTypes r entities = .done s) :
    (∃ t, addFederationTypes s entities = .done t ∧ t.declared = s.declared ∧
      t.directives = s.directives) ↔ entityMembers s entities = [] := by
  have hs := (fromTexts_addFederationTypes hr h).sound
  obtain ⟨hm, hsame⟩ := (addFederationTypes_eq_done_iff_federable hr.sound).mp h
  constructor
  · rintro ⟨t, ht, hdeclared, -⟩
    obtain ⟨hagain, rfl⟩ := (addFederationTypes_eq_done_iff_federable hs).mp ht
    by_contra hmembers
    -- The union would be new, and the types would not be the same.
    have hnew := contains_federated_entity (r := s) hmembers
    rw [contains_iff, names_eq, hdeclared, ← names_eq] at hnew
    exact contains_eq_false_iff.mp (hagain.union hmembers) hnew
  · intro hnone
    have hagain : s.Federable [] := by
      rw [hsame]
      exact (federable_federated_iff hr.sound hm).mpr fun h => absurd rfl h
    refine ⟨s.federated [], (addFederationTypes_eq_done_iff_federable hs).mpr ?_, ?_⟩
    · rw [hnone]
      exact ⟨hagain, rfl⟩
    · rw [hsame] at hs ⊢
      exact federated_federated hr.sound hm hs.distinct

theorem ne_done_again (hr : r.FromTexts) (h : addFederationTypes r entities = .done s)
    (hmembers : entityMembers r entities ≠ []) (t : TypeRegistry) :
    addFederationTypes s entities ≠ .done t := by
  intro ht
  have hs := (fromTexts_addFederationTypes hr h).sound
  obtain ⟨-, hsame⟩ := (addFederationTypes_eq_done_iff_federable hr.sound).mp h
  obtain ⟨hagain, -⟩ := (addFederationTypes_eq_done_iff_federable hs).mp ht
  have hsubset : entityMembers r entities ⊆ entityMembers s entities := by
    rw [hsame] at hs ⊢
    exact entityMembers_federated_subset hr.sound.distinct hs.distinct
  have hthere := contains_federated_entity (r := r) hmembers
  rw [← hsame, hagain.union fun h => hmembers (List.subset_nil.mp (h ▸ hsubset))] at hthere
  cases hthere

/-- Adding federation to types from texts. It succeeds just if the query type, where it is there, is
an object type, the name of the union of the entities is free, where there are members, and no other
new type has the name of a new query type. Then the fields of federation are there and all other
types are as they were. The second time nothing changes if there are no members; but where there
were members the first time, there is no second time. -/
theorem addFederationTypes_iff (r : TypeRegistry) (entities : EntityTable) (hr : r.FromTexts) :
    ((∃ s, addFederationTypes r entities = .done s) ↔ r.Federable (entityMembers r entities)) ∧
    ∀ s, addFederationTypes r entities = .done s →
      s.field? ⟨r.roots.query, "_service"⟩ = some queryServiceField ∧
      (entityMembers r entities ≠ [] →
        s.field? ⟨r.roots.query, "_entities"⟩ = some queryEntitiesField) ∧
      (∀ n d, r.get? n = some d → n ≠ r.roots.query → s.get? n = some d) ∧
      ((∃ t, addFederationTypes s entities = .done t ∧ t.declared = s.declared ∧
        t.directives = s.directives) ↔ entityMembers s entities = []) ∧
      (entityMembers r entities ≠ [] → ∀ t, addFederationTypes s entities ≠ .done t) := by
  constructor
  · simp [addFederationTypes_eq_done_iff_federable hr.sound]
  · intro s hs
    obtain ⟨hm, hsame⟩ := (addFederationTypes_eq_done_iff_federable hr.sound).mp hs
    refine ⟨?_, fun hmembers => ?_, fun n d hd hn => ?_, exists_again_iff hr hs,
      ne_done_again hr hs⟩
    · rw [hsame]
      exact field?_federated_service hr.sound hm
    · rw [hsame]
      exact field?_federated_entities hr.sound hm hmembers
    · rw [hsame]
      exact get?_federated_of_ne hd hn

theorem exists_fromTexts_of_any (text : String) (p : TypeRegistry → Bool)
    (h : (Fragment.parse "main" text).toOption.any (fun f =>
      (initial.mergeFragments [f]).failure.isNone &&
        p (initial.mergeFragments [f]).registry) = true) : ∃ r, FromTexts r ∧ p r = true := by
  cases hf : Fragment.parse "main" text with
  | error e =>
    rw [hf] at h
    cases h
  | ok f =>
    rw [hf] at h
    obtain ⟨hfailure, hp⟩ := Bool.and_eq_true_iff.mp h
    exact ⟨_, .merged .initial (List.forall_mem_singleton.mpr (Fragment.isParsed_of_parse hf))
      (Registration.eq_done_of_failure (Option.isNone_iff_eq_none.mp hfailure)), hp⟩

theorem addFederationTypes_iff_book :
    ∃ r, FromTexts r ∧ r.contains "_Any" = true ∧ (r.directive? "external").isSome = true ∧
      ∃ s, addFederationTypes r [] = .done s ∧
        s.field? ⟨"Query", "_entities"⟩ = some queryEntitiesField ∧
        ∀ t, addFederationTypes s [] ≠ .done t := by
  obtain ⟨r, hr, hchecked⟩ := exists_fromTexts_of_any
    ("type Query \x7b ok: Boolean \x7d scalar _Any directive @external on FIELD_DEFINITION " ++
      "type Book @key(fields: \"id\") \x7b id: ID \x7d")
    (fun r => r.contains "_Any" && (r.directive? "external").isSome &&
      decide (r.roots.query = "Query") && r.contains "Query" && r.isObject "Query" &&
        !r.contains "_Entity" && decide (entityMembers r [] ≠ [])) (by decide +kernel)
  simp only [Bool.and_eq_true, Bool.not_eq_true', decide_eq_true_eq] at hchecked
  obtain ⟨⟨⟨⟨⟨⟨hany, hexternal⟩, hquery⟩, hthere⟩, hobject⟩, hentity⟩, hmembers⟩ := hchecked
  obtain ⟨hsucceeds, hafter⟩ := addFederationTypes_iff r [] hr
  have hm : r.Federable (entityMembers r []) := by
    refine ⟨fun _ => hquery ▸ hobject, fun _ => hentity, fun hnot => ?_⟩
    rw [hquery, hthere] at hnot
    cases hnot
  obtain ⟨s, hs⟩ := hsucceeds.mpr hm
  obtain ⟨-, hentities, -, -, hagain⟩ := hafter s hs
  exact ⟨r, hr, hany, hexternal, s, hs, hquery ▸ hentities hmembers, hagain hmembers⟩

/-- A union of the entities that is there already makes the addition fail. -/
theorem declared_entity_union_fails :
    ¬ ∀ (r : TypeRegistry) (entities : EntityTable), r.FromTexts →
      needsFederation r entities = true →
      (r.contains r.roots.query = true → r.isObject r.roots.query = true) →
      ∃ s, addFederationTypes r entities = .done s := by
  intro h
  obtain ⟨r, hr, hchecked⟩ := exists_fromTexts_of_any
    ("type Query \x7b ok: Boolean \x7d type Book @key(fields: \"id\") \x7b id: ID \x7d " ++
      "union _Entity = Book")
    (fun r => needsFederation r [] && r.isObject r.roots.query && r.contains "_Entity" &&
      decide (entityMembers r [] ≠ [])) (by decide +kernel)
  simp only [Bool.and_eq_true, decide_eq_true_eq] at hchecked
  obtain ⟨⟨⟨hneeds, hquery⟩, hentity⟩, hmembers⟩ := hchecked
  obtain ⟨s, hs⟩ := h r [] hr hneeds fun _ => hquery
  obtain ⟨hm, -⟩ := (addFederationTypes_eq_done_iff_federable hr.sound).mp hs
  rw [hm.union hmembers] at hentity
  cases hentity

end TypeRegistry

end SchemaAssembly
