import SchemaAssembly.Error.Response
import SchemaAssembly.Request.Context
import SchemaAssembly.Schema.Registry

/-!
The environment of one field: everything that is known when its value is fetched.
-/

set_option autoImplicit false

namespace SchemaAssembly

structure FieldEnvironment where
  coordinates : Coordinates
  source : Json
  /-- The arguments in ascending order of their names. -/
  arguments : List (String × Json)
  definition : Option FieldDef
  types : Option TypeRegistry
  context : RequestContext
  requestVariables : List (String × Json)
  path : List PathSegment
  loaders : Option (List String)

namespace FieldEnvironment

/-- An environment that knows only the field. -/
def of (c : Coordinates) : FieldEnvironment :=
  ⟨c, .null, [], none, none, .empty, [], [.field c.field], none⟩

def argument? (e : FieldEnvironment) (name : String) : Option Json := findNamed? name e.arguments

/-- Fills in the types of a schema and the definition of the field, unless they are there. -/
def withTypes (registry : TypeRegistry) (e : FieldEnvironment) : FieldEnvironment :=
  { e with
    types := e.types.or (some registry)
    definition := e.definition.or (registry.field? e.coordinates) }

end FieldEnvironment

end SchemaAssembly
