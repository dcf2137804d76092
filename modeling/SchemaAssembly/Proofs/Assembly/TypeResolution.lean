import SchemaAssembly.Proofs.Assembly.FieldFetchers
import SchemaAssembly.Proofs.Federation.Additions

/-!
Which object type a value has. Every interface and union of a schema has a resolver, the one that
was given last or the standard one; and whatever a resolver answers, only an object type that the
declared type admits gets through.
-/

set_option autoImplicit false

namespace SchemaAssembly

namespace CodeRegistry

variable {r : CodeRegistry} {T : String}

/-- What a pass finds when it enters resolvers under distinct names. -/
theorem resolver?_foldl_setResolver {β : Type} {key : β → String} {value : β → TypeResolver}
    {xs : List β} (hd : (xs.map key).Nodup) (r : CodeRegistry) (T : String) :
    (xs.foldl (fun r x => r.setResolver (key x) (value x)) r).resolver? T =
      ((xs.find? fun x => key x = T).map value).or (r.resolver? T) := by
  induction xs generalizing r with
  | nil => rfl
  | cons x rest ih =>
    obtain ⟨hnot, hrest⟩ := List.nodup_cons.mp hd
    rw [List.foldl_cons, ih hrest, resolver?_setResolver]
    by_cases hx : key x = T
    · have hnone : (rest.find? fun y => key y = T) = none := by
        rw [List.find?_eq_none]
        intro y hy hyT
        exact hnot (List.mem_map.mpr ⟨y, hy, (of_decide_eq_true hyT).trans hx.symm⟩)
      simp [hx, hnone]
    · simp [hx]

theorem resolver?_dressed (r : CodeRegistry) (w : RuntimeWiring) (types : TypeRegistry)
    (T : String) : (r.dressed w types).resolver? T = r.resolver? T := by
  refine foldl_keeps (fun r => CodeRegistry.resolver? r T) ?_ (w.wiredFields types) r
  intro r c
  split <;> rfl

end CodeRegistry

theorem Entries.get?_eq_find? {α : Type} (name : String) (t : Entries α) :
    get? name t = (t.find? fun e => e.1 = name).map (·.2) := by
  induction t with
  | nil => rfl
  | cons e rest ih =>
    obtain ⟨k, v⟩ := e
    by_cases hk : k = name <;> simp [get?, hk, ih]

namespace CodeCall

def resolver? (T : String) : CodeCall → Option TypeResolver
  | setResolver name resolver => if name = T then some resolver else none
  | _ => none

theorem resolver?_apply (T : String) (r : CodeRegistry) (call : CodeCall) :
    (apply r call).resolver? T = (call.resolver? T).or (r.resolver? T) := by
  cases call with
  | setResolver name resolver => exact CodeRegistry.resolver?_setResolver r name resolver T
  | _ => rfl

theorem resolver?_foldl (T : String) (calls : List CodeCall) (r : CodeRegistry) :
    (calls.foldl apply r).resolver? T = (lastGiven (resolver? T) calls).or (r.resolver? T) :=
  foldl_eq_lastGiven (fun r => CodeRegistry.resolver? r T) (resolver?_apply T) calls r

end CodeCall

namespace WiringCall

def resolver? (T : String) : WiringCall → Option TypeResolver
  | setResolver name resolver => if name = T then some resolver else none
  | _ => none

theorem get?_resolvers_apply (T : String) (w : RuntimeWiring) (call : WiringCall) :
    Entries.get? T (apply w call).resolvers =
      (call.resolver? T).or (Entries.get? T w.resolvers) := by
  cases call with
  | setResolver name resolver =>
    simp only [apply, RuntimeWiring.setResolver, resolver?]
    by_cases hT : name = T
    · rw [if_pos hT, hT, Entries.get?_put_self]
      rfl
    · rw [if_neg hT, Entries.get?_put_of_ne resolver w.resolvers (Ne.symm hT)]
      rfl
  | addDirective name wiring =>
    simp only [apply, RuntimeWiring.addDirective]
    split <;> rfl
  | _ => rfl

theorem get?_resolvers_foldl (T : String) (calls : List WiringCall) (w : RuntimeWiring) :
    Entries.get? T (calls.foldl apply w).resolvers =
      (lastGiven (resolver? T) calls).or (Entries.get? T w.resolvers) :=
  foldl_eq_lastGiven (fun w => Entries.get? T (RuntimeWiring.resolvers w))
    (get?_resolvers_apply T) calls w

theorem nodup_resolvers_foldl (calls : List WiringCall) (w : RuntimeWiring)
    (h : (w.resolvers.map (·.1)).Nodup) :
    ((calls.foldl apply w).resolvers.map (·.1)).Nodup := by
  induction calls generalizing w with
  | nil => exact h
  | cons call rest ih =>
    apply ih
    cases call with
    | setResolver name resolver => exact Entries.nodup_keys_put h
    | addDirective name wiring =>
      simp only [apply, RuntimeWiring.addDirective]
      split <;> exact h
    | _ => exact h

end WiringCall

section Passes

variable {types : TypeRegistry} {components : List Component} {r s : CodeRegistry} {T : String}

theorem resolver?_registerResolvers (h : registerResolvers types components r = .ok s)
    (T : String) : s.resolver? T =
      (Entries.get? T (components.flatMap (·.resolvers))).or (r.resolver? T) := by
  obtain ⟨step, heq, henters⟩ := registerResolvers_enters types
  rw [heq] at h
  obtain ⟨⟨hall, hfresh⟩, rfl⟩ := henters.foldlM_eq_ok_iff.mp h
  let rows := components.flatMap fun c => c.resolvers.map fun d => (c.name, d)
  have hnames : rows.filterMap (resolvable? types) = rows.map (·.2.1) := by
    rw [← List.filterMap_eq_map]
    refine List.filterMap_congr fun d hd => ?_
    obtain ⟨n, hn⟩ := Option.isSome_iff_exists.mp (hall d hd)
    have hsame := (Option.ite_none_right_eq_some.mp hn).2
    rw [hn, ← hsame]
    rfl
  have hdeclared : rows.map (·.2) = components.flatMap (·.resolvers) := by
    simp [rows, List.map_flatMap, Function.comp_def]
  have hnodup : (rows.map (·.2.1)).Nodup := hnames ▸ hfresh.1
  rw [CodeRegistry.resolver?_foldl_setResolver hnodup, ← hdeclared, Entries.get?_eq_find?,
    List.find?_map, Option.map_map]
  rfl

theorem resolver?_foldl_standard (ds : List TypeDef) (r : CodeRegistry) (T : String) :
    (ds.foldl (fun r d => if (r.resolver? d.name).isSome then r
      else r.setResolver d.name .standard) r).resolver? T =
        (r.resolver? T).or (if T ∈ ds.map (·.name) then some .standard else none) := by
  induction ds generalizing r with
  | nil => simp
  | cons d rest ih =>
    rw [List.foldl_cons, ih]
    by_cases hd : d.name = T
    · subst hd
      cases hresolver : r.resolver? d.name <;> simp [hresolver, CodeRegistry.resolver?_setResolver]
    · have hkept : (if (r.resolver? d.name).isSome then r
          else r.setResolver d.name .standard).resolver? T = r.resolver? T := by
        split
        · rfl
        · simp [CodeRegistry.resolver?_setResolver, hd]
      simp [hkept, Ne.symm hd]

theorem mem_abstractNames_iff (hn : types.names.Nodup) {T : String} :
    T ∈ (types.types.filter TypeDef.isAbstract).map (·.name) ↔ types.isAbstract T = true := by
  rw [TypeRegistry.isAbstract_iff, List.mem_map]
  constructor
  · rintro ⟨d, hd, rfl⟩
    obtain ⟨hmem, habs⟩ := List.mem_filter.mp hd
    exact ⟨d, TypeRegistry.get?_of_mem hn hmem, habs⟩
  · rintro ⟨d, hd, habs⟩
    exact ⟨d, List.mem_filter.mpr ⟨TypeRegistry.mem_types_of_get? hd, habs⟩,
      TypeRegistry.name_of_get? hd⟩

/-- The standard resolver stands in for all that are missing. -/
theorem resolver?_defaultResolvers (hn : types.names.Nodup) (r : CodeRegistry) (T : String) :
    (defaultResolvers types r).resolver? T =
      (r.resolver? T).or (if types.isAbstract T then some .standard else none) := by
  rw [defaultResolvers, resolver?_foldl_standard]
  simp only [mem_abstractNames_iff hn]

end Passes

structure ResolverSources where
  federation? : String → Option TypeResolver
  wiringCalls : List WiringCall
  codeCalls : List CodeCall
  /-- What components declare, each under the name of an interface or union. -/
  declared : Entries TypeResolver

/-- The resolver that was given last. -/
def ResolverSources.given? (x : ResolverSources) (T : String) : Option TypeResolver :=
  (x.federation? T).or <|
  (lastGiven (WiringCall.resolver? T) x.wiringCalls).or <|
  (lastGiven (CodeCall.resolver? T) x.codeCalls).or <|
  Entries.get? T x.declared

namespace Assembler

variable {a : Assembler} {files : FileTree} {raw : Option String} {visibility : Visibility}
  {s : Snapshot}

/-- The resolver that federation enters for the union of the entities. -/
def unionResolver? (a : Assembler) (merged : MergedTypes) (s : Snapshot) (T : String) :
    Option TypeResolver :=
  if needsFederation merged.types s.entities = true ∧ s.schema.types.contains "_Entity" = true ∧
      "_Entity" = T then
    some (a.federationResolver s.entities).typeResolver
  else none

def resolverSources (a : Assembler) (merged : MergedTypes) (resolved : CodeRegistry)
    (s : Snapshot) : ResolverSources where
  federation? := a.unionResolver? merged s
  wiringCalls := a.wiringCalls
  codeCalls := a.codeCalls merged.types (defaultResolvers merged.types resolved)
  declared := a.activeComponents.flatMap (·.resolvers)

theorem resolver?_contributedCode (a : Assembler) (types : TypeRegistry) (start : CodeRegistry)
    (T : String) : (a.contributedCode types a.wiring start).resolver? T =
      (lastGiven (WiringCall.resolver? T) a.wiringCalls).or
        ((lastGiven (CodeCall.resolver? T) (a.codeCalls types start)).or
          (start.resolver? T)) := by
  have hnodup := WiringCall.nodup_resolvers_foldl a.wiringCalls {} List.nodup_nil
  rw [← wiring_eq] at hnodup
  have hfetchers : ∀ r : CodeRegistry, (a.wiring.fetchers.foldl
      (fun (r : CodeRegistry) e => r.bind e.1 e.2) r).resolver? T = r.resolver? T := by
    intro r
    refine foldl_keeps (fun r => CodeRegistry.resolver? r T) ?_ _ r
    exact fun _ _ => rfl
  rw [contributedCode, foldl_codeCalls, CodeRegistry.resolver?_foldl_setResolver hnodup, hfetchers,
    ← Entries.get?_eq_find?, wiring_eq, WiringCall.get?_resolvers_foldl,
    CodeCall.resolver?_foldl]
  congr 1
  exact Option.or_none

/-- The types of a snapshot grew from those that everything was bound to. -/
theorem OverTexts.grown (ha : a.OverTexts) (h : a.assemble files raw visibility = .ok s)
    {merged : MergedTypes} (hmerged : a.mergeTypes files raw = .ok merged) :
    merged.types.Grown s.schema.types (entityMembers merged.types s.entities) ∧
      s.schema.types.names.Nodup ∧ merged.types.names.Nodup := by
  have hsound := (ha.mergeTypes hmerged).sound
  obtain ⟨u, hu, rfl⟩ := assemble_eq_ok_iff.mp h
  obtain ⟨merged', hmerged', -, hcase⟩ := types_of_unwired hu
  cases hmerged.symm.trans hmerged'
  rcases hcase with ⟨-, htypes⟩ | ⟨-, hadded⟩
  · rw [Snapshot.types_dressed, htypes]
    exact ⟨.refl _ _, hsound.distinct, hsound.distinct⟩
  · obtain ⟨hgrown, hnodup⟩ := grown_of_addFederationTypes hsound hadded
    exact ⟨hgrown, hnodup, hsound.distinct⟩

theorem resolver?_of_unwired (ha : a.OverTexts) (h : a.unwired files raw visibility = .ok s) :
    ∃ merged resolved, a.mergeTypes files raw = .ok merged ∧
      bindFetchers merged.types a.activeComponents = .ok s.bindings ∧
      registerResolvers merged.types a.activeComponents
        (bindAll (ArgumentResolver.standard a.argumentResolvers a.mapper) s.bindings) =
          .ok resolved ∧
      ∀ T, s.schema.code.resolver? T =
        ((a.resolverSources merged resolved s).given? T).or
          (if merged.types.isAbstract T then some .standard else none) := by
  obtain ⟨merged, resolved, hstages⟩ := exists_stages h
  have hsound := (ha.mergeTypes hstages.merge).sound
  have hbound : ∀ resolvers T, (bindAll resolvers s.bindings).resolver? T = none := by
    intro resolvers T
    refine foldl_keeps (fun r => CodeRegistry.resolver? r T) ?_ s.bindings {}
    exact fun _ _ => rfl
  have hstart : ∀ T, (defaultResolvers merged.types resolved).resolver? T =
      (Entries.get? T (a.activeComponents.flatMap (·.resolvers))).or
        (if merged.types.isAbstract T then some .standard else none) := by
    intro T
    rw [resolver?_defaultResolvers hsound.distinct, resolver?_registerResolvers hstages.resolve,
      hbound, Option.or_none]
  have hcontributed := resolver?_contributedCode a merged.types
    (defaultResolvers merged.types resolved)
  simp only [hstart] at hcontributed
  refine ⟨merged, resolved, hstages.merge, hstages.bind, hstages.resolve, fun T => ?_⟩
  -- Federation enters its resolver last, so it stands before all that were contributed.
  rcases hstages.finish with ⟨hneeds, -, hcode⟩ | ⟨hneeds, -, hcode⟩
  · rw [hcode, hcontributed, ResolverSources.given?]
    simp only [resolverSources, unionResolver?, hneeds, Bool.false_eq_true, false_and, if_false,
      Option.or_assoc, Option.none_or]
  · rw [hcode, CodeRegistry.resolver?_withFederation, hcontributed, ResolverSources.given?]
    simp only [resolverSources, unionResolver?, hneeds, true_and, Option.or_assoc]

end Assembler

section Answers

variable {q : TypeQuestion} {x : Schema} {T n : String} {v : Json}

/-- The value is an object that names its type. -/
def Json.NamesType (v : Json) (n : String) : Prop :=
  ∃ members, v = .obj members ∧ findNamed? "__typename" members = some (.str n)

theorem typename?_eq_some_iff : q.typename? = some n ↔ q.value.NamesType n := by
  unfold TypeQuestion.typename? Json.NamesType
  constructor
  · intro h
    obtain ⟨w, hw, hn⟩ := Option.bind_eq_some_iff.mp h
    cases hv : q.value with
    | obj members =>
      rw [hv] at hw
      cases w with
      | str s =>
        cases hn
        exact ⟨members, rfl, hw⟩
      | _ => cases hn
    | _ =>
      rw [hv] at hw
      cases hw
  · rintro ⟨members, hv, hn⟩
    rw [hv, Json.get?, hn]
    rfl

theorem isPossible_iff (hn : q.types.names.Nodup) :
    q.isPossible n = true ↔ q.types.Admits q.abstractType n := by
  rw [TypeQuestion.isPossible, List.contains_iff_mem, TypeRegistry.mem_possibleTypes_iff hn]

theorem checked_eq_ok_iff {resolver : TypeResolver} : resolver.checked q = .ok n ↔
    resolver q = .ok n ∧ q.isPossible n = true := by
  unfold TypeResolver.checked
  cases resolver q with
  | error e => simp
  | ok m =>
    by_cases hm : q.isPossible m = true
    · simp only [hm, if_true, Except.ok.injEq]
      exact ⟨fun h => ⟨h, h ▸ hm⟩, fun h => h.1⟩
    · simp only [hm, Bool.false_eq_true, if_false, reduceCtorEq, Except.ok.injEq, false_iff]
      rintro ⟨rfl, h⟩
      exact hm h

theorem TypeRegistry.Admits.isObject {r : TypeRegistry} (h : r.Admits T n) :
    r.isObject n = true := by
  obtain ⟨d, hd, hobject, -⟩ := h
  simp only [TypeRegistry.isObject, hd, hobject]

theorem standard_eq_ok_iff (hn : q.types.names.Nodup) : TypeResolver.standard q = .ok n ↔
    q.value.NamesType n ∧ q.types.Admits q.abstractType n := by
  unfold TypeResolver.standard
  rw [← typename?_eq_some_iff]
  cases q.typename? with
  | none => simp
  | some m =>
    by_cases hm : q.types.Admits q.abstractType m
    · have hpossible := (isPossible_iff hn).mpr hm
      simp only [hm.isObject, hpossible, Bool.and_self, if_true, Except.ok.injEq,
        Option.some.injEq]
      exact ⟨fun h => ⟨h, h ▸ hm⟩, fun h => h.1⟩
    · have hpossible := Bool.eq_false_iff.mpr (mt (isPossible_iff hn).mp hm)
      simp only [hpossible, Bool.and_false, Bool.false_eq_true, if_false, reduceCtorEq,
        Option.some.injEq, false_iff]
      rintro ⟨rfl, h⟩
      exact hm h

/-- Whatever the resolver, the answer is an object type that the declared type admits. -/
theorem Schema.admits_of_resolveType (hn : x.types.names.Nodup) (h : x.resolveType T v = .ok n) :
    x.types.Admits T n := by
  unfold Schema.resolveType at h
  cases hresolver : x.code.resolver? T with
  | none =>
    rw [hresolver] at h
    cases h
  | some resolver =>
    rw [hresolver] at h
    exact (isPossible_iff hn).mp (checked_eq_ok_iff.mp h).2

theorem Schema.resolveType_standard_iff (hn : x.types.names.Nodup)
    (hresolver : x.code.resolver? T = some .standard) : x.resolveType T v = .ok n ↔
      v.NamesType n ∧ x.types.Admits T n := by
  unfold Schema.resolveType
  rw [hresolver]
  dsimp only
  rw [checked_eq_ok_iff, standard_eq_ok_iff hn, isPossible_iff hn]
  exact ⟨fun h => h.1, fun h => ⟨h, h.2⟩⟩

end Answers

namespace Assembler

variable {a : Assembler} {files : FileTree} {raw : Option String} {visibility : Visibility}
  {s : Snapshot}

theorem given?_entity {merged : MergedTypes} {resolved : CodeRegistry}
    (hneeds : needsFederation merged.types s.entities = true)
    (hcontains : s.schema.types.contains "_Entity" = true) :
    (a.resolverSources merged resolved s).given? "_Entity" =
      some (a.federationResolver s.entities).typeResolver := by
  simp only [ResolverSources.given?, resolverSources, unionResolver?, hneeds, hcontains,
    and_self, if_true, Option.some_or]

theorem resolver?_of_assemble (ha : a.OverTexts)
    (h : a.assemble files raw visibility = .ok s) :
    ∃ merged resolved, a.mergeTypes files raw = .ok merged ∧
      bindFetchers merged.types a.activeComponents = .ok s.bindings ∧
      registerResolvers merged.types a.activeComponents
        (bindAll (ArgumentResolver.standard a.argumentResolvers a.mapper) s.bindings) =
          .ok resolved ∧
      ∀ T, s.schema.types.isAbstract T = true → s.schema.code.resolver? T =
        some (((a.resolverSources merged resolved s).given? T).getD
          .standard) := by
  obtain ⟨u, hu, rfl⟩ := assemble_eq_ok_iff.mp h
  obtain ⟨merged, resolved, hmerged, hbindings, hresolved, hfound⟩ :=
    resolver?_of_unwired ha hu
  obtain ⟨merged', hmerged', -, htypes⟩ := types_of_unwired hu
  cases hmerged.symm.trans hmerged'
  obtain ⟨hgrown, -, -⟩ := ha.grown h hmerged
  refine ⟨merged, resolved, hmerged, hbindings, hresolved, fun T habs => ?_⟩
  have hdressed : (u.dressed a.wiring).schema.code.resolver? T = u.schema.code.resolver? T :=
    CodeRegistry.resolver?_dressed u.schema.code a.wiring u.schema.types T
  rw [hdressed, hfound]
  change ((a.resolverSources merged resolved u).given? T).or _ =
    some (((a.resolverSources merged resolved u).given? T).getD .standard)
  by_cases hT : T ∈ merged.types.names
  · rw [← hgrown.isAbstract_eq hT, habs, if_pos rfl]
    cases (a.resolverSources merged resolved u).given? T <;> rfl
  · -- A new abstract type is the union of the entities, which federation resolves.
    have hentity := hgrown.eq_entity_of_isAbstract habs hT
    subst hentity
    have hneeds : needsFederation merged.types u.entities = true := by
      rcases htypes with ⟨-, hsame⟩ | ⟨hneeds, -⟩
      · rw [Snapshot.types_dressed, hsame] at habs
        obtain ⟨d, hd, -⟩ := TypeRegistry.isAbstract_iff.mp habs
        exact absurd (TypeRegistry.mem_names_of_get? hd) hT
      · exact hneeds
    have hcontains : u.schema.types.contains "_Entity" = true := by
      obtain ⟨d, hd, -⟩ := TypeRegistry.isAbstract_iff.mp habs
      exact TypeRegistry.isSome_entry?_iff.mpr (TypeRegistry.mem_names_of_get? hd)
    rw [given?_entity hneeds hcontains]
    rfl

/-- Type resolution over types from texts. An answer is an object type that the declared type
admits, whatever the resolver. Every interface and union has a resolver, the one that was given last
or the standard one. Where it is the standard one, a value resolves to the type that it names, just
if the declared type admits that. -/
theorem resolveType_of_assemble (a : Assembler) (files : FileTree) (raw : Option String)
    (visibility : Visibility) (s : Snapshot) (ha : a.OverTexts)
    (h : a.assemble files raw visibility = .ok s) :
    (∀ T v n, s.schema.resolveType T v = .ok n → s.schema.types.Admits T n) ∧
    (∀ T, s.schema.code.resolver? T = some .standard → ∀ v n,
      s.schema.resolveType T v = .ok n ↔ v.NamesType n ∧ s.schema.types.Admits T n) ∧
    ∃ merged resolved, a.mergeTypes files raw = .ok merged ∧
      bindFetchers merged.types a.activeComponents = .ok s.bindings ∧
      registerResolvers merged.types a.activeComponents
        (bindAll (ArgumentResolver.standard a.argumentResolvers a.mapper) s.bindings) =
          .ok resolved ∧
      ∀ T, s.schema.types.isAbstract T = true → s.schema.code.resolver? T =
        some (((a.resolverSources merged resolved s).given? T).getD .standard) := by
  obtain ⟨u, hu, -⟩ := assemble_eq_ok_iff.mp h
  obtain ⟨merged, hmerged, -⟩ := types_of_unwired hu
  obtain ⟨-, hnodup, -⟩ := ha.grown h hmerged
  exact ⟨fun _ _ _ => Schema.admits_of_resolveType hnodup,
    fun _ hresolver _ _ => Schema.resolveType_standard_iff hnodup hresolver,
    resolver?_of_assemble ha h⟩

def mediaText : String :=
  "interface Media \x7b id: ID \x7d union Item = Book | Film type Film \x7b id: ID \x7d " ++
    "type Book implements Media \x7b id: ID \x7d"

def media : Assembler where
  settings := { extensions := { validation := false } }
  components := [{ name := "media", resolvers := [("Media", .ofFunction fun _ => some "Film")] }]

theorem overTexts_media : media.OverTexts := nofun

/-- A film is an item if it says so; nothing is a film where media are asked for. -/
theorem resolveType_of_assemble_media :
    media.OverTexts ∧
    ∃ s, media.assemble .empty (some mediaText) .all = .ok s ∧
      (∀ v n, s.schema.resolveType "Item" v = .ok n ↔
        v.NamesType n ∧ s.schema.types.Admits "Item" n) ∧
      s.schema.resolveType "Item" (.obj [("__typename", .str "Film")]) = .ok "Film" ∧
      ∀ v, s.schema.resolveType "Media" v ≠ .ok "Film" := by
  have hchecked : (media.assemble .empty (some mediaText) .all).toOption.any (fun s =>
      s.schema.types.isAbstract "Item" && decide s.schema.types.names.Nodup &&
        (s.schema.types.possibleTypes "Item").contains "Film" &&
        !(s.schema.types.possibleTypes "Media").contains "Film") = true := by decide +kernel
  obtain ⟨s, hs, hchecked⟩ := Except.exists_ok_of_any hchecked
  simp only [Bool.and_eq_true, Bool.not_eq_true', List.contains_iff_mem, decide_eq_true_eq,
    ← Bool.not_eq_true (List.contains _ _)] at hchecked
  obtain ⟨⟨⟨habs, hnodup⟩, hfilm⟩, hother⟩ := hchecked
  rw [TypeRegistry.mem_possibleTypes_iff hnodup] at hfilm hother
  obtain ⟨hsound, hstandard, merged, resolved, -, -, -, hfound⟩ :=
    resolveType_of_assemble media .empty _ .all s overTexts_media hs
  have hunion : media.unionResolver? merged s "Item" = none :=
    if_neg fun h => absurd h.2.2 (by decide)
  have hgiven : (media.resolverSources merged resolved s).given? "Item" = none := by
    change (media.unionResolver? merged s "Item").or _ = none
    rw [hunion]
    rfl
  have hitem := hfound "Item" habs
  rw [hgiven] at hitem
  refine ⟨overTexts_media, s, hs, hstandard "Item" hitem, ?_, ?_⟩
  · exact (hstandard "Item" hitem _ _).mpr ⟨⟨_, rfl, rfl⟩, hfilm⟩
  · exact fun v hv => hother (hsound "Media" v "Film" hv)

end Assembler

end SchemaAssembly
