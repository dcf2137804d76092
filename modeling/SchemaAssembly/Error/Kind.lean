import SchemaAssembly.Coordinates

/-!
The classification of errors that clients see.
-/

set_option autoImplicit false

namespace SchemaAssembly

inductive ErrorKind where
  | internal
  | notFound
  | permissionDenied
  | badRequest
  | unavailable
  | unknown
  deriving DecidableEq, Inhabited

namespace ErrorKind

def name : ErrorKind → String
  | internal => "INTERNAL"
  | notFound => "NOT_FOUND"
  | permissionDenied => "PERMISSION_DENIED"
  | badRequest => "BAD_REQUEST"
  | unavailable => "UNAVAILABLE"
  | unknown => "UNKNOWN"

def all : List ErrorKind :=
  [internal, notFound, permissionDenied, badRequest, unavailable, unknown]

def parse? (s : String) : Option ErrorKind := all.find? fun k => k.name == s

/-- Whether the caller is at fault. -/
def isClientError : ErrorKind → Bool
  | notFound | permissionDenied | badRequest => true
  | _ => false

end ErrorKind

end SchemaAssembly
