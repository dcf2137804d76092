import SchemaAssembly.Error.Resolution
import SchemaAssembly.Text.SimpleName

/-!
Failures of handlers. A failure names the type of the error behind it and may carry a
classification.
-/

set_option autoImplicit false

namespace SchemaAssembly

structure HandlerError where
  typeName : String
  message : String
  kind : Option ErrorKind
  /-- Whether another error is behind this one. -/
  wraps : Bool
  deriving DecidableEq

namespace HandlerError

def ofMessage (message : String) : HandlerError :=
  ⟨"gqlwire_runtime::handler::HandlerError", message, none, false⟩

def ofKind (kind : ErrorKind) (message : String) : HandlerError :=
  { ofMessage message with kind := some kind }

/-- A failure caused by an error of the named type. -/
def wrapping (typeName message : String) : HandlerError := ⟨typeName, message, none, true⟩

/-- Keeps the classification of the resolution error. -/
def ofResolution (e : ResolutionError) : HandlerError :=
  { wrapping "gqlwire_core::error::ResolutionError" e.message with kind := e.kind? }

def ofBadRequest (e : BadRequestError) : HandlerError :=
  { wrapping "gqlwire_core::error::BadRequestError" e.message with kind := some .badRequest }

/-- The type name without the module before it and the parameters after it. -/
def shortTypeName (e : HandlerError) : String :=
  simpleName (String.ofList (e.typeName.toList.takeWhile fun c => c != '<'))

end HandlerError

/-- What a handler answers with: a value or a failure. -/
abbrev Outcome := Except HandlerError Json

end SchemaAssembly
