import SchemaAssembly.Entries
import SchemaAssembly.Json.Value

/-!
The context of a request: values that accompany it, at most one of each kind.
-/

set_option autoImplicit false

namespace SchemaAssembly

/-- Values by the name of their kind. -/
abbrev RequestContext := Entries Json

namespace RequestContext

def empty : RequestContext := []

def insert (c : RequestContext) (kind : String) (value : Json) : Option Json × RequestContext :=
  (Entries.get? kind c, Entries.put kind value c)

def remove (c : RequestContext) (kind : String) : Option Json × RequestContext :=
  (Entries.get? kind c, Entries.erase kind c)

end RequestContext

end SchemaAssembly
