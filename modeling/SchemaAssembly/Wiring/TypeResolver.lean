import SchemaAssembly.Error.Resolution
import SchemaAssembly.Schema.Registry

/-!
Type resolvers tell the object type of a value whose declared type is an interface or a union.
-/

set_option autoImplicit false

namespace SchemaAssembly

/-- A value whose object type is asked for. -/
structure TypeQuestion where
  value : Json
  abstractType : String
  types : TypeRegistry

namespace TypeQuestion

def typename? (q : TypeQuestion) : Option String :=
  (q.value.get? "__typename").bind Json.asString?

def isPossible (q : TypeQuestion) (name : String) : Bool :=
  (q.types.possibleTypes q.abstractType).contains name

def noType (q : TypeQuestion) : ResolutionError := .noConcreteType q.abstractType q.typename?

end TypeQuestion

abbrev TypeResolver := TypeQuestion → Except ResolutionError String

def TypeRegistry.isObject (r : TypeRegistry) (name : String) : Bool :=
  match r.get? name with
  | some d => d.isObject
  | none => false

namespace TypeResolver

/-- Takes the type that the value names, if it is a possible one. -/
def standard : TypeResolver := fun q =>
  match q.typename? with
  | some name => if q.types.isObject name && q.isPossible name then .ok name else .error q.noType
  | none => .error q.noType

/-- A resolver from a function that may find no type. -/
def ofFunction (f : TypeQuestion → Option String) : TypeResolver := fun q =>
  match f q with
  | some name => .ok name
  | none => .error q.noType

/-- Asks a resolver and refuses an answer that is not a possible type. -/
def checked (resolve : TypeResolver) : TypeResolver := fun q =>
  match resolve q with
  | .error e => .error e
  | .ok name =>
    if q.isPossible name then .ok name else .error (.invalidResolvedType q.abstractType name)

end TypeResolver

end SchemaAssembly
