import SchemaAssembly.Entries
import SchemaAssembly.Error.Kind
import SchemaAssembly.Json.Decode

/-!
Errors as they appear in a response: a message, where it happened, and extension data whose
`errorType` entry holds the classification.
-/

set_option autoImplicit false

namespace SchemaAssembly

inductive PathSegment where
  | field (name : String)
  | index (i : Nat)
  deriving DecidableEq

namespace PathSegment

def text : PathSegment → String
  | field name => name
  | index i => toString i

def json : PathSegment → Json
  | field name => .str name
  | index i => .int i

def decode : Decoder PathSegment
  | .str s => .ok (.field s)
  | .int n =>
    if 0 ≤ n ∧ n ≤ 0xffffffffffffffff then .ok (.index n.toNat)
    else .error (.noVariant "PathSegment")
  | _ => .error (.noVariant "PathSegment")

end PathSegment

structure SourceLocation where
  line : Nat
  column : Nat
  deriving DecidableEq

namespace SourceLocation

def json (l : SourceLocation) : Json :=
  .object [("line", .int l.line), ("column", .int l.column)]

def decode : Decoder SourceLocation :=
  .record "struct SourceLocation"
    [.of "line" true .size fun n (l : SourceLocation) => { l with line := n },
     .of "column" true .size fun n l => { l with column := n }]
    ⟨0, 0⟩

end SourceLocation

structure ResponseError where
  message : String
  path : List PathSegment
  locations : List SourceLocation
  extensions : Entries Json

namespace ResponseError

/-- An error that carries its classification. -/
def of (kind : ErrorKind) (message : String) : ResponseError :=
  ⟨message, [], [], [("errorType", .str kind.name)]⟩

def withPath (path : List PathSegment) (e : ResponseError) : ResponseError :=
  { e with path := path }

def withLocation (line column : Nat) (e : ResponseError) : ResponseError :=
  { e with locations := e.locations ++ [⟨line, column⟩] }

def withExtension (name : String) (value : Json) (e : ResponseError) : ResponseError :=
  { e with extensions := e.extensions.put name value }

def withDetail (detail : String) : ResponseError → ResponseError :=
  withExtension "errorDetail" (.str detail)

def withOrigin (origin : String) : ResponseError → ResponseError :=
  withExtension "origin" (.str origin)

def withDebugLink (link : String) : ResponseError → ResponseError :=
  withExtension "debugUri" (.str link)

def withDebugData (data : Json) : ResponseError → ResponseError :=
  withExtension "debugInfo" data

/-- The classification in the extensions, when it is a known one. -/
def kind? (e : ResponseError) : Option ErrorKind :=
  (e.extensions.get? "errorType").bind fun v => v.asString?.bind ErrorKind.parse?

/-- The members of the written form; empty parts are left out. -/
def json (e : ResponseError) : Json :=
  .object <| [("message", .str e.message)] ++
    (if e.path.isEmpty then [] else [("path", .list (e.path.map PathSegment.json))]) ++
    (if e.locations.isEmpty then [] else
      [("locations", .list (e.locations.map SourceLocation.json))]) ++
    (if e.extensions.isEmpty then [] else [("extensions", .object e.extensions)])

def decode : Decoder ResponseError :=
  .record "struct GraphQLError"
    [.of "message" true .string fun s (e : ResponseError) => { e with message := s },
     .of "path" false (.list PathSegment.decode) fun p e => { e with path := p },
     .of "locations" false (.list SourceLocation.decode) fun l e => { e with locations := l },
     .of "extensions" false .members fun x e => { e with extensions := x }]
    ⟨"", [], [], []⟩

end ResponseError

end SchemaAssembly
