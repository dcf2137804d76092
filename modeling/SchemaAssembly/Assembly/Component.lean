import SchemaAssembly.Federation.Entity
import SchemaAssembly.Loader.Definition
import SchemaAssembly.Sdl.Fragment
import SchemaAssembly.Wiring.Runtime

/-!
Components: what one part of a program contributes to a schema.
-/

set_option autoImplicit false

namespace SchemaAssembly

/-- A handler for a field of a type. -/
structure FetcherDefinition where
  parentType : String
  /-- The name of the handler unless given. -/
  field : Option String := none
  handler : Handler
  instrumentation : Option Bool := none

namespace FetcherDefinition

def fieldName (d : FetcherDefinition) : String := d.field.getD d.handler.name

def coordinates (d : FetcherDefinition) : Coordinates := ⟨d.parentType, d.fieldName⟩

/-- Whether the field is instrumented; unless stated, all are but those of asynchronous handlers. -/
def isInstrumented (d : FetcherDefinition) : Bool :=
  d.instrumentation.getD (d.handler.shape != .async)

end FetcherDefinition

/-- Gives fragments, looking at the types known so far. -/
abbrev TypeContributor := TypeRegistry → Except ConfigurationError (List ParsedFragment)

/-- Gives what is to be done with the code registry, looking at it after all bindings were made. -/
abbrev CodeContributor := TypeRegistry → CodeRegistry → List CodeCall

/-- Gives what is to be done with the runtime wiring, looking at what is registered so far. -/
abbrev WiringContributor := RuntimeWiring → List WiringCall

structure Component where
  name : String
  decorated : Bool := false
  fetchers : List FetcherDefinition := []
  entities : List (String × EntityHandler) := []
  resolvers : List (String × TypeResolver) := []
  loaders : List (LoaderScope × LoaderDefinition) := []
  scalars : List ScalarType := []
  directives : List (String × DirectiveWiring) := []
  typeContributors : List TypeContributor := []
  codeContributors : List CodeContributor := []
  wiringContributors : List WiringContributor := []

namespace Component

/-- Adds a handler for a field; the component becomes its owner. -/
def addFetcher (c : Component) (d : FetcherDefinition) : Component :=
  { c with fetchers := c.fetchers ++ [{ d with handler := { d.handler with owner := c.name } }] }

def hasContributors (c : Component) : Bool :=
  !c.typeContributors.isEmpty || !c.codeContributors.isEmpty || !c.wiringContributors.isEmpty

end Component

end SchemaAssembly
