import SchemaAssembly.Assembly.Component

/-!
Bindings of handlers to the fields of object types. A handler declared on an interface or a union
is bound on every object type that its values may have, unless a handler is declared there itself;
of several such interfaces and unions the first in order of names counts.
-/

set_option autoImplicit false

namespace SchemaAssembly

structure Binding where
  handler : Handler
  declaredParent : String
  parentType : String
  field : String
  instrumented : Bool

namespace Binding

def coordinates (b : Binding) : Coordinates := ⟨b.parentType, b.field⟩

def owner (b : Binding) : String := b.handler.owner

/-- Whether the handler was declared on an interface or a union. -/
def isFannedOut (b : Binding) : Bool := b.declaredParent != b.parentType

/-- Binds a definition on a type. -/
def of (d : FetcherDefinition) (parentType : String) : Binding :=
  ⟨d.handler, d.parentType, parentType, d.fieldName, d.isInstrumented⟩

end Binding

/-- All definitions with the names of their components, in order. -/
def declaredFetchers (components : List Component) : List (String × FetcherDefinition) :=
  components.flatMap fun c => c.fetchers.map fun d => (c.name, d)

/-- Enters a definition under its coordinates, after those already there. -/
def declareAt (declared : CoordinateMap (List FetcherDefinition)) (d : FetcherDefinition) :
    CoordinateMap (List FetcherDefinition) :=
  declared.insert d.coordinates ((declared.get? d.coordinates).getD [] ++ [d])

/-- The definitions by their coordinates, in ascending order. -/
def declarations (definitions : List FetcherDefinition) :
    CoordinateMap (List FetcherDefinition) :=
  definitions.foldl declareAt []

/-- Bindings on the declared types, and on the object types behind abstract ones. -/
def spread (types : TypeRegistry) (definitions : List FetcherDefinition) : CoordinateMap Binding :=
  let direct := definitions.filter fun d => !types.isAbstract d.parentType
  let indirect := definitions.filter fun d => types.isAbstract d.parentType
  let bound := direct.foldl
    (fun m d => CoordinateMap.insert d.coordinates (.of d d.parentType) m) []
  (indirect.flatMap fun d => (types.possibleTypes d.parentType).map (Binding.of d)).foldl
    (fun m b => CoordinateMap.insertIfAbsent b.coordinates b m) bound

/-- The bindings of all components in ascending order of their coordinates. Every declared type
must be there, and no coordinates may be declared twice. -/
def bindFetchers (types : TypeRegistry) (components : List Component) :
    Except ConfigurationError (List Binding) :=
  let all := declaredFetchers components
  match all.find? fun d => !types.contains d.2.parentType with
  | some (owner, d) => .error (.missingParentType d.parentType owner d.handler.name)
  | none =>
    let declared := declarations (all.map (·.2))
    match declared.find? fun d => decide (1 < d.2.length) with
    | some (c, _) => .error (.duplicateDataFetcher c)
    | none => .ok ((spread types (declared.flatMap (·.2))).map (·.2))

end SchemaAssembly
