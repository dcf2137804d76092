import SchemaAssembly.Fetcher.Basic

/-!
JSON reports of errors, outcomes and fetch results.
-/

set_option autoImplicit false

namespace SchemaAssembly

/-- The report of an assembly error. A text that does not match the grammar is reported by its
fragment, with its position if `positioned`, and without a message. -/
def ConfigurationError.json (positioned : Bool) (e : ConfigurationError) : Json :=
  let head := [("error", Json.str e.name), ("code", .str e.code)]
  match e with
  | .invalidConfig _ => .object head
  | .invalidFragment fragment .unexpected p =>
    .object (head ++ [("syntax", .bool true), ("fragment", .str fragment)] ++
      (if positioned then [("line", .int p.line), ("column", .int p.column)] else []))
  | _ =>
    .object (head ++ [("message", .str e.message)] ++
      (match e.help? with
       | some h => [("help", .str h)]
       | none => []))

def kindJson (k : Option ErrorKind) : Json := .ofString? (k.map (·.name))

def ResolutionError.json (e : ResolutionError) : Json :=
  .object [("error", .str e.name), ("message", .str e.message), ("error_type", kindJson e.kind?)]

def DecodeError.json (e : DecodeError) : Json :=
  .object [("error", .str "serde"), ("message", .str e.message)]

def HandlerError.json (e : HandlerError) : Json :=
  .object [("error", .str "HandlerError"), ("type_name", .str e.typeName),
    ("short_type_name", .str e.shortTypeName), ("message", .str e.message),
    ("error_type", kindJson e.kind), ("has_source", .bool e.wraps)]

def LoaderError.json (e : LoaderError) : Json :=
  .object [("error", .str e.name), ("message", .str e.message),
    ("handler_error", e.toHandlerError.json)]

/-- A result is shown under `ok`, an error by its own report. -/
def resultJson {ε : Type} (failure : ε → Json) : Except ε Json → Json
  | .ok v => .object [("ok", v)]
  | .error e => failure e

def FetchResult.json (r : FetchResult) : Json :=
  .object [("data", r.data), ("errors", .list (r.errors.map ResponseError.json)),
    ("has_errors", .bool !r.errors.isEmpty)]

end SchemaAssembly
