import SchemaAssembly.Assembly.Binding
import SchemaAssembly.Wiring.Schema

/-!
Snapshots: the result of one assembly, which serves requests until the next one is published.
-/

set_option autoImplicit false

namespace SchemaAssembly

structure Snapshot where
  schema : Schema
  bindings : List Binding
  /-- By the written coordinates of fields, and by `__entities.` and the name of an entity type. -/
  instrumentation : Entries Bool
  loaders : LoaderTable
  entities : EntityTable
  exceptionHandler : ExceptionHandler

namespace Snapshot

/-- Whether a field is instrumented; fields of which nothing is known are. -/
def isInstrumented (s : Snapshot) (key : String) : Bool := (s.instrumentation.get? key).getD true

/-- What remains of a fetch after the exception handler dealt with a failure. -/
def recovered (s : Snapshot) (e : FieldEnvironment) :
    Except HandlerError FetchResult → FetchResult
  | .ok r => r
  | .error err => ⟨.null, s.exceptionHandler ⟨err, e.path, some e.coordinates⟩⟩

/-- Fetches one field. The types and the definition of the field are filled in where they are
missing. -/
def fetchField (s : Snapshot) (e : FieldEnvironment) : Work FetchResult :=
  ((s.schema.fetcher e.coordinates).fetch (e.withTypes s.schema.types)).map (s.recovered e)

end Snapshot

end SchemaAssembly
