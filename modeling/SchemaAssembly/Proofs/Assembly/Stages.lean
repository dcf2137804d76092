import SchemaAssembly.Proofs.Assembly.DiscoveryOrder
import SchemaAssembly.Proofs.Wiring.Fetchers

/-!
What an assembly that succeeds went through. All passes but the last one give a snapshot whose
fetchers are not wrapped yet; what these passes gave is known from it, and the last pass changes
nothing but the fetchers.
-/

set_option autoImplicit false

namespace SchemaAssembly

namespace CodeRegistry

variable {types next : TypeRegistry} {entities : EntityTable} {federation : FederationResolver}
  {sdl : String}

theorem resolver?_setResolver (r : CodeRegistry) (name : String) (resolver : TypeResolver)
    (T : String) : (r.setResolver name resolver).resolver? T =
      (if name = T then some resolver else none).or (r.resolver? T) := by
  unfold setResolver resolver?
  by_cases hT : name = T
  · rw [if_pos hT, hT, Entries.get?_put_self]
    rfl
  · rw [if_neg hT, Entries.get?_put_of_ne resolver r.resolvers (Ne.symm hT)]
    rfl

/-- The code with the fetchers of new fields, and the resolver of the entities if there are any. -/
def withFederation (r : CodeRegistry) (next : TypeRegistry) (added : List Coordinates)
    (federation : FederationResolver) (sdl : String) : CodeRegistry :=
  let bound := added.foldl (fun (r : CodeRegistry) c =>
    r.bind c (if c.field = "_entities" then federation.entitiesFetcher else .service sdl)) r
  if next.contains "_Entity" then bound.setResolver "_Entity" federation.typeResolver else bound

theorem of_addFederation {code code' : CodeRegistry}
    (h : addFederation types entities federation sdl code = .ok (next, code')) :
    addFederationTypes types entities = .done next ∧
      code' = code.withFederation next (federationFields types (entityMembers types entities))
        federation sdl := by
  unfold addFederation at h
  split at h
  · cases h
  · rename_i next' hnext
    cases h
    exact ⟨Registration.toExcept_eq_ok_iff.mp hnext, rfl⟩

theorem bound?_withFederation (r : CodeRegistry) (added : List Coordinates) (c : Coordinates) :
    (r.withFederation next added federation sdl).bound? c =
      (if c ∈ added then
        some (if c.field = "_entities" then federation.entitiesFetcher else .service sdl)
      else none).or (r.bound? c) := by
  rw [← bound?_foldl_bind_self fun d =>
    if d.field = "_entities" then federation.entitiesFetcher else .service sdl]
  unfold withFederation
  split <;> rfl

theorem resolver?_withFederation (r : CodeRegistry) (added : List Coordinates) (T : String) :
    (r.withFederation next added federation sdl).resolver? T =
      (if next.contains "_Entity" = true ∧ "_Entity" = T then some federation.typeResolver
        else none).or (r.resolver? T) := by
  have hfields : ∀ value : Coordinates → Fetcher,
      (added.foldl (fun (r : CodeRegistry) c => r.bind c (value c)) r).resolver? T =
        r.resolver? T := by
    intro value
    refine foldl_keeps (fun r => CodeRegistry.resolver? r T) ?_ added r
    exact fun _ _ => rfl
  unfold withFederation
  by_cases hcontains : next.contains "_Entity" = true
  · simp only [hcontains, if_true, resolver?_setResolver, hfields, true_and]
  · simp only [hcontains, Bool.false_eq_true, if_false, hfields, false_and, Option.none_or]

theorem fallback_withFederation (r : CodeRegistry) (added : List Coordinates) :
    (r.withFederation next added federation sdl).fallback = r.fallback := by
  have hfields : ∀ value : Coordinates → Fetcher,
      (added.foldl (fun (r : CodeRegistry) c => r.bind c (value c)) r).fallback = r.fallback := by
    intro value
    refine foldl_keeps CodeRegistry.fallback ?_ added r
    exact fun _ _ => rfl
  unfold withFederation
  split <;> exact hfields _

end CodeRegistry

def Snapshot.dressed (s : Snapshot) (w : RuntimeWiring) : Snapshot :=
  { s with schema := { s.schema with code := s.schema.code.dressed w s.schema.types } }

@[simp]
theorem Snapshot.types_dressed (s : Snapshot) (w : RuntimeWiring) :
    (s.dressed w).schema.types = s.schema.types := rfl

theorem Snapshot.fetcher_dressed (s : Snapshot) (w : RuntimeWiring) (c : Coordinates) :
    (s.dressed w).schema.fetcher c =
      ((s.dressed w).schema.code.bound? c).getD s.schema.code.fallback :=
  congrArg (Option.getD _) CodeRegistry.fallback_dressed

namespace Assembler

/-- The snapshot before the last pass over its fetchers. -/
def unwired (a : Assembler) (files : FileTree) (raw : Option String) (visibility : Visibility) :
    Except ConfigurationError Snapshot := do
  let components := a.activeComponents
  let merged ← a.mergeTypes files raw
  let bindings ← bindFetchers merged.types components
  let bound := bindAll (ArgumentResolver.standard a.argumentResolvers a.mapper) bindings
  let loaders ← registerLoaders a.loaderInstrumentation components
  let resolved ← registerResolvers merged.types components bound
  let code := a.contributedCode merged.types a.wiring (defaultResolvers merged.types resolved)
  let entities ← registerEntities components
  let (types, code) ←
    if needsFederation merged.types entities then
      addFederation merged.types entities (a.federationResolver entities) merged.sdl code
    else .ok (merged.types, code)
  return {
    schema := ⟨types, code, a.wiring.scalars, visibility, merged.sdl⟩
    bindings := bindings
    instrumentation := instrumentationFlags bindings entities
    loaders := loaders
    entities := entities
    exceptionHandler := a.exceptionHandler }

variable {a : Assembler} {files : FileTree} {raw : Option String} {visibility : Visibility}
  {s : Snapshot}

theorem assemble_eq : a.assemble files raw visibility =
    (a.unwired files raw visibility).map fun s => s.dressed a.wiring := by
  change _ = (fun s : Snapshot => s.dressed a.wiring) <$> a.unwired files raw visibility
  simp only [assemble, unwired, map_bind, map_pure,
    apply_ite (Functor.map fun s => Snapshot.dressed s a.wiring)]
  rfl

theorem assemble_eq_ok_iff : a.assemble files raw visibility = .ok s ↔
    ∃ u, a.unwired files raw visibility = .ok u ∧ s = u.dressed a.wiring := by
  rw [assemble_eq]
  cases a.unwired files raw visibility with
  | error e => simp [Except.map]
  | ok u => simp [Except.map, eq_comm]

theorem assemble_eq_error_iff_unwired {e : ConfigurationError} :
    a.assemble files raw visibility = .error e ↔ a.unwired files raw visibility = .error e := by
  rw [assemble_eq]
  cases a.unwired files raw visibility <;> simp [Except.map]

/-- What the passes before the last one gave. Everything but the code and the types of federation
was made from the merged types. -/
structure Stages (a : Assembler) (files : FileTree) (raw : Option String) (s : Snapshot)
    (merged : MergedTypes) (resolved : CodeRegistry) : Prop where
  merge : a.mergeTypes files raw = .ok merged
  bind : bindFetchers merged.types a.activeComponents = .ok s.bindings
  resolve : registerResolvers merged.types a.activeComponents
    (bindAll (ArgumentResolver.standard a.argumentResolvers a.mapper) s.bindings) = .ok resolved
  own : registerEntities a.activeComponents = .ok s.entities
  sdl : s.schema.sdl = merged.sdl
  finish :
    let code := a.contributedCode merged.types a.wiring (defaultResolvers merged.types resolved)
    needsFederation merged.types s.entities = false ∧
        s.schema.types = merged.types ∧ s.schema.code = code ∨
      needsFederation merged.types s.entities = true ∧
        addFederationTypes merged.types s.entities = .done s.schema.types ∧
        s.schema.code = code.withFederation s.schema.types
          (federationFields merged.types (entityMembers merged.types s.entities))
          (a.federationResolver s.entities) merged.sdl

theorem exists_stages (h : a.unwired files raw visibility = .ok s) :
    ∃ merged resolved, a.Stages files raw s merged resolved := by
  obtain ⟨merged, hmerged, h⟩ := Except.bind_eq_ok.mp h
  obtain ⟨bindings, hbindings, h⟩ := Except.bind_eq_ok.mp h
  obtain ⟨loaders, -, h⟩ := Except.bind_eq_ok.mp h
  obtain ⟨resolved, hresolved, h⟩ := Except.bind_eq_ok.mp h
  obtain ⟨entities, hentities, h⟩ := Except.bind_eq_ok.mp h
  dsimp only at h
  split at h
  · rename_i hneeds
    obtain ⟨⟨types, code⟩, hfederated, h⟩ := Except.bind_eq_ok.mp h
    cases h
    obtain ⟨hadded, hcode⟩ := CodeRegistry.of_addFederation hfederated
    exact ⟨merged, resolved, hmerged, hbindings, hresolved, hentities, rfl,
      .inr ⟨hneeds, hadded, hcode⟩⟩
  · rename_i hneeds
    cases h
    exact ⟨merged, resolved, hmerged, hbindings, hresolved, hentities, rfl,
      .inl ⟨Bool.eq_false_iff.mpr hneeds, rfl, rfl⟩⟩

theorem types_of_unwired (h : a.unwired files raw visibility = .ok s) :
    ∃ merged, a.mergeTypes files raw = .ok merged ∧
      bindFetchers merged.types a.activeComponents = .ok s.bindings ∧
      (needsFederation merged.types s.entities = false ∧ s.schema.types = merged.types ∨
        needsFederation merged.types s.entities = true ∧
          addFederationTypes merged.types s.entities = .done s.schema.types) := by
  obtain ⟨merged, resolved, hstages⟩ := exists_stages h
  exact ⟨merged, hstages.merge, hstages.bind,
    hstages.finish.imp (fun h => ⟨h.1, h.2.1⟩) fun h => ⟨h.1, h.2.1⟩⟩

theorem sdl_of_assemble {merged : MergedTypes} (h : a.assemble files raw visibility = .ok s)
    (hmerged : a.mergeTypes files raw = .ok merged) : s.schema.sdl = merged.sdl := by
  obtain ⟨u, hu, rfl⟩ := assemble_eq_ok_iff.mp h
  obtain ⟨merged', resolved, hstages⟩ := exists_stages hu
  cases hmerged.symm.trans hstages.merge
  exact hstages.sdl

end Assembler

end SchemaAssembly
