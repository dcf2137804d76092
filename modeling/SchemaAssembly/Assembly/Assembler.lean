import SchemaAssembly.Assembly.Snapshot
import SchemaAssembly.Federation.Types
import SchemaAssembly.Sdl.Load
import SchemaAssembly.Validation.Rule

/-!
Assembly: types are merged from fragments and contributors, handlers are bound to fields, and
loaders, scalars, resolvers and federation are added; directives are put around the fetchers last.
-/

set_option autoImplicit false

namespace SchemaAssembly

structure FederationResolver where
  entitiesFetcher : Fetcher
  typeResolver : TypeResolver

structure Assembler where
  settings : Settings := {}
  components : List Component := []
  /-- Only accepted components take part. -/
  accepts : Component → Bool := fun _ => true
  /-- Stands in place of the files at the schema locations. -/
  rawSchema : Option String := none
  fragments : List ParsedFragment := []
  /-- A registry to start from. -/
  types : Option TypeRegistry := none
  argumentResolvers : List ArgumentResolver := []
  mapper : InputMapper := .standard
  exceptionHandler : ExceptionHandler := .standard
  /-- Reads the patterns of the validation. -/
  patterns : PatternEngine := .standard
  /-- Stands in place of the resolver over the entity fetchers. -/
  federation : Option FederationResolver := none
  entityMapping : Entries String := []
  loaderInstrumentation : List LoaderInstrumentation := []
  visibility : Option Visibility := none

/-- The types with the text they were merged from. -/
structure MergedTypes where
  types : TypeRegistry
  sdl : String

def contributeTypes (r : TypeRegistry) (contribute : TypeContributor) :
    Except ConfigurationError TypeRegistry :=
  match contribute r with
  | .error e => .error e
  | .ok fragments => (r.mergeFragments (fragments.map (·.fragment))).toExcept

def addValidationDirectives (r : TypeRegistry) : Except ConfigurationError TypeRegistry :=
  match missingDirectives? r with
  | none => .ok r
  | some sdl =>
    match Fragment.parse "<validation>" sdl with
    | .error e => .error e
    | .ok fragment => (r.mergeFragments [fragment]).toExcept

/-- The fetcher for a binding. Copies of a handler share the fetcher of the first one bound. -/
def boundFetcher (resolvers : List ArgumentResolver) (bindings : List Binding) (b : Binding) :
    Fetcher :=
  .ofHandler resolvers ((bindings.find? fun a => a.handler.id == b.handler.id).getD b).handler

def bindAll (resolvers : List ArgumentResolver) (bindings : List Binding) : CodeRegistry :=
  bindings.foldl
    (fun r b => r.bind b.coordinates (boundFetcher resolvers bindings b)) {}

def registerLoaders (instrumentation : List LoaderInstrumentation) (components : List Component) :
    Except ConfigurationError LoaderTable :=
  (components.flatMap fun c => c.loaders.map fun l => (c, l)).foldlM
    (fun (t : LoaderTable) l => t.registerDeclared l.1.name l.1.decorated l.2.1 l.2.2)
    { instrumentation := instrumentation }

/-- Registers the type resolvers of all components, each for an abstract type without one. -/
def registerResolvers (types : TypeRegistry) (components : List Component) (r : CodeRegistry) :
    Except ConfigurationError CodeRegistry :=
  (components.flatMap fun c => c.resolvers.map fun d => (c.name, d)).foldlM
    (fun (r : CodeRegistry) d =>
      let name := d.2.1
      match types.get? name with
      | none => .error (.invalidTypeResolver name d.1 "type not found")
      | some t =>
        if !t.isAbstract then
          .error (.invalidTypeResolver name d.1 "type is not an interface or union")
        else if (r.resolver? name).isSome then .error (.duplicateTypeResolver name)
        else .ok (r.setResolver name d.2.2))
    r

/-- Gives the standard resolver to every abstract type without one. -/
def defaultResolvers (types : TypeRegistry) (r : CodeRegistry) : CodeRegistry :=
  (types.types.filter TypeDef.isAbstract).foldl
    (fun r d => if (r.resolver? d.name).isSome then r else r.setResolver d.name .standard) r

def registerEntities (components : List Component) : Except ConfigurationError EntityTable :=
  (components.flatMap fun c => c.entities.map fun d => (c.name, d)).foldlM
    (fun (t : EntityTable) d =>
      match Entries.get? d.2.1 t with
      | some first => .error (.duplicateEntityFetcher d.2.1 first.owner d.1)
      | none => .ok (Entries.put d.2.1 ⟨d.1, d.2.2⟩ t))
    []

/-- The flags of all bindings, and those of the entities, which are never instrumented. -/
def instrumentationFlags (bindings : List Binding) (entities : EntityTable) : Entries Bool :=
  entities.keys.foldl (fun flags t => Entries.put ("__entities." ++ t) false flags)
    (bindings.foldl (fun flags b => Entries.put b.coordinates.key b.instrumented flags) [])

/-- Adds the federation types, the fetchers of their fields and the resolver of entities. -/
def addFederation (types : TypeRegistry) (entities : EntityTable) (federation : FederationResolver)
    (sdl : String) (code : CodeRegistry) : Except ConfigurationError (TypeRegistry × CodeRegistry) :=
  match (addFederationTypes types entities).toExcept with
  | .error e => .error e
  | .ok next =>
    let added := federationFields types (entityMembers types entities)
    let code := added.foldl
      (fun (r : CodeRegistry) c =>
        r.bind c (if c.field = "_entities" then federation.entitiesFetcher else .service sdl))
      code
    .ok (next,
      if next.contains "_Entity" then code.setResolver "_Entity" federation.typeResolver else code)

/-- Gives a fetcher to every field that carries a directive with a wiring, so that there is one
to wrap. -/
def bindWiredFields (w : RuntimeWiring) (types : TypeRegistry) (r : CodeRegistry) : CodeRegistry :=
  (w.wiredFields types).foldl (fun r c => if r.isBound c then r else r.bind c .property) r

namespace Assembler

def activeComponents (a : Assembler) : List Component := a.components.filter a.accepts

/-- The visibility from the settings, unless one is given. -/
def standardVisibility (a : Assembler) : Visibility :=
  a.visibility.getD (if a.settings.introspection then .all else .noIntrospection)

/-- The fragments from the raw schema or the schema locations, then those given. -/
def gatherFragments (a : Assembler) (files : FileTree) (raw : Option String) :
    Except ConfigurationError (List Fragment) :=
  let located := match raw with
    | some sdl => (Fragment.parse "<raw>" sdl).map fun f => [f]
    | none => Fragment.load files a.settings.resolvedLocations
  located.map fun fragments => fragments ++ a.fragments.map (·.fragment)

def mergeTypes (a : Assembler) (files : FileTree) (raw : Option String) :
    Except ConfigurationError MergedTypes := do
  let components := a.activeComponents
  let fragments ← a.gatherFragments files raw
  if fragments.isEmpty && a.types.isNone && !components.any Component.hasContributors then
    throw (.noSchemaFound a.settings.resolvedLocations)
  let merged ← ((a.types.getD .initial).mergeFragments fragments).toExcept
  let contributed ← (components.flatMap (·.typeContributors)).foldlM contributeTypes merged
  let types ←
    if a.settings.extensions.validation then addValidationDirectives contributed
    else .ok contributed
  return ⟨types, types.sdl⟩

/-- Scalars and directive wirings: the built-in ones that are switched on, then those of the
components, then whatever contributors add. -/
def wiring (a : Assembler) : RuntimeWiring :=
  let components := a.activeComponents
  let extended := (ScalarType.extended a.settings.extensions.scalars).foldl
    RuntimeWiring.addScalar {}
  let validated :=
    if a.settings.extensions.validation then extended.addDirective "" (.validation a.patterns)
    else extended
  let registered := components.foldl
    (fun w c =>
      c.directives.foldl (fun (w : RuntimeWiring) d => w.addDirective d.1 d.2)
        (c.scalars.foldl RuntimeWiring.addScalar w))
    validated
  (components.flatMap (·.wiringContributors)).foldl
    (fun w contribute => (contribute w).foldl WiringCall.apply w) registered

/-- The bindings and resolvers after contributors and wiring had their say. -/
def contributedCode (a : Assembler) (types : TypeRegistry) (w : RuntimeWiring)
    (code : CodeRegistry) : CodeRegistry :=
  let contributed := (a.activeComponents.flatMap (·.codeContributors)).foldl
    (fun r contribute => (contribute types r).foldl CodeCall.apply r) code
  w.resolvers.foldl (fun (r : CodeRegistry) e => r.setResolver e.1 e.2)
    (w.fetchers.foldl (fun (r : CodeRegistry) e => r.bind e.1 e.2) contributed)

/-- The resolver for the federation fields. -/
def federationResolver (a : Assembler) (entities : EntityTable) : FederationResolver :=
  a.federation.getD ⟨.entities entities a.exceptionHandler, .entity a.entityMapping⟩

def assemble (a : Assembler) (files : FileTree) (raw : Option String) (visibility : Visibility) :
    Except ConfigurationError Snapshot := do
  let components := a.activeComponents
  let merged ← a.mergeTypes files raw
  let bindings ← bindFetchers merged.types components
  let bound := bindAll (ArgumentResolver.standard a.argumentResolvers a.mapper) bindings
  let loaders ← registerLoaders a.loaderInstrumentation components
  let resolved ← registerResolvers merged.types components bound
  let wiring := a.wiring
  let code := a.contributedCode merged.types wiring (defaultResolvers merged.types resolved)
  let entities ← registerEntities components
  let (types, code) ←
    if needsFederation merged.types entities then
      addFederation merged.types entities (a.federationResolver entities) merged.sdl code
    else .ok (merged.types, code)
  let code := (bindWiredFields wiring types code).mapFetchers (wiring.wrap types)
  return {
    schema := ⟨types, code, wiring.scalars, visibility, merged.sdl⟩
    bindings := bindings
    instrumentation := instrumentationFlags bindings entities
    loaders := loaders
    entities := entities
    exceptionHandler := a.exceptionHandler }

/-- A pass over the raw schema and with the visibility of the assembler itself. -/
def assembleOwn (a : Assembler) (files : FileTree) : Except ConfigurationError Snapshot :=
  a.assemble files a.rawSchema a.standardVisibility

end Assembler

end SchemaAssembly
