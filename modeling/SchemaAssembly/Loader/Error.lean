import SchemaAssembly.Handler.Error

/-!
Failures of a load: the batch it belonged to failed, or it was dropped.
-/

set_option autoImplicit false

namespace SchemaAssembly

inductive LoaderError where
  | failed (loader : String) (cause : HandlerError)
  | lengthMismatch (loader : String) (expected actual : Nat)
  | cancelled (loader : String)
  deriving DecidableEq

namespace LoaderError

def name : LoaderError → String
  | failed .. => "Handler"
  | lengthMismatch .. => "LengthMismatch"
  | cancelled .. => "Cancelled"

def message : LoaderError → String
  | failed loader cause =>
    "Batch loader `" ++ loader ++ "` failed: " ++ cause.typeName ++ ": " ++ cause.message
  | lengthMismatch loader expected actual =>
    "Batch loader `" ++ loader ++ "` returned " ++ toString actual ++ " values for " ++
      toString expected ++ " keys"
  | cancelled loader => "Key was dropped from batch loader `" ++ loader ++ "` before dispatch"

/-- The cause itself where a handler failed, else a failure around this error. -/
def toHandlerError : LoaderError → HandlerError
  | failed _ cause => cause
  | e => .wrapping "gqlwire_runtime::dataloader::LoaderError" e.message

end LoaderError

end SchemaAssembly
