import SchemaAssembly.Fetcher.Basic

/-!
Failed fetches become errors of the response through an exception handler.
-/

set_option autoImplicit false

namespace SchemaAssembly

structure FailureReport where
  error : HandlerError
  path : List PathSegment
  coordinates : Option Coordinates := none

abbrev ExceptionHandler := FailureReport → List ResponseError

/-- The one error for a failure: classified failures keep their classification and message, all
others are internal and show the type of their cause. -/
def FailureReport.toError (r : FailureReport) : ResponseError :=
  let e := match r.error.kind with
    | some kind => ResponseError.of kind r.error.message
    | none => ResponseError.of .internal (r.error.typeName ++ ": " ++ r.error.message)
  (e.withPath r.path).withExtension "class" (.str r.error.shortTypeName)

def ExceptionHandler.standard : ExceptionHandler := fun r => [r.toError]

end SchemaAssembly
