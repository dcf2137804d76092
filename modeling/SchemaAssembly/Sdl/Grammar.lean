import SchemaAssembly.Schema.Definition
import SchemaAssembly.Sdl.Reader

/-!
The grammar of schema texts, read straight into definitions. Numbers out of range and misplaced
operation roots are noted as faults of a text that otherwise matches.
-/

set_option autoImplicit false

namespace SchemaAssembly

namespace Sdl

structure NamedRoots where
  query : Option String
  mutation : Option String
  subscription : Option String
  deriving Inhabited

inductive Definition where
  | type (definition : TypeDef)
  | extension (definition : TypeDef)
  | directive (definition : DirectiveDef)
  | roots (roots : NamedRoots)

open Reader

def name : Reader String := lexeme readName

def description : Reader (Option String) := optional (lexeme readString)

/-- A number out of range reads as zero and is noted. -/
def number : Reader Json := do
  let (start, l) ← lexemeAt readNumberText
  match l.1.value? with
  | some n => return Json.ofNumeral n
  | none =>
    fault start (.invalidNumber l.2)
    return .int 0
where
  readNumberText (cs : List Char) : Option ((NumberLiteral × Nat) × List Char) :=
    (readNumber cs).map fun (l, rest) => ((l, cs.length - rest.length), rest)

/-- A constant, down to a bounded depth. -/
def constantWithin : Nat → Reader Json
  | 0 => firstOf []
  | depth + 1 =>
    firstOf [
      number,
      do
        let s ← lexeme readString
        return .str s,
      do
        word "true"
        return .bool true,
      do
        word "false"
        return .bool false,
      do
        word "null"
        return .null,
      do
        let s ← lexeme readEnumValue
        return .str s,
      do
        word "["
        let items ← many (constantWithin depth)
        word "]"
        return .list items,
      do
        word "\x7b"
        let members ← many do
          let n ← name
          word ":"
          let v ← constantWithin depth
          return (n, v)
        word "\x7d"
        return .object members]

def constant : Reader Json := fun c => constantWithin (c.rest.length + 1) c

/-- Arguments of a directive; a repeated name keeps its place and takes the last value. -/
def directiveUse : Reader DirectiveUse := do
  word "@"
  let n ← name
  let args ← optional do
    word "("
    let args ← many1 do
      let a ← name
      word ":"
      let v ← constant
      return (a, v)
    word ")"
    return args
  return ⟨n, (args.getD []).foldl (fun acc a => acc.put a.1 a.2) []⟩

def directives : Reader (List DirectiveUse) := many1 directiveUse

def optionalDirectives : Reader (List DirectiveUse) := do
  return (← optional directives).getD []

def inputField : Reader InputField := do
  let d ← description
  let n ← name
  word ":"
  let t ← lexeme readTypeRef
  let default ← optional do
    word "="
    constant
  let uses ← optionalDirectives
  return ⟨n, d, t, default, uses⟩

/-- Definitions by name; a repeated name keeps its place and takes the last definition. -/
def byName {α : Type} (nameOf : α → String) (items : List α) : Entries α :=
  items.foldl (fun acc a => Entries.put (nameOf a) a acc) []

def arguments : Reader (Entries InputField) := do
  word "("
  let fields ← many1 inputField
  word ")"
  return byName InputField.name fields

def optionalArguments : Reader (Entries InputField) := do
  return (← optional arguments).getD []

def field : Reader FieldDef := do
  let d ← description
  let n ← name
  let args ← optionalArguments
  word ":"
  let t ← lexeme readTypeRef
  let uses ← optionalDirectives
  return ⟨n, d, t, args, uses, deprecationOf uses⟩

def braced {α : Type} (p : Reader α) : Reader (List α) := do
  word "\x7b"
  let items ← many1 p
  word "\x7d"
  return items

def fields : Reader (Entries FieldDef) := do
  return byName FieldDef.name (← braced field)

def inputFields : Reader (Entries InputField) := do
  return byName InputField.name (← braced inputField)

def enumValue : Reader EnumValue := do
  let d ← description
  let n ← lexeme readEnumValue
  let uses ← optionalDirectives
  return ⟨n, d, deprecationOf uses⟩

def enumValues : Reader (List EnumValue) := braced enumValue

/-- Names joined by a separator, which may also stand in front. -/
def joinedNames (separator : String) : Reader (List String) := do
  let _ ← optional (word separator)
  let first ← name
  let rest ← many do
    word separator
    name
  return first :: rest

def interfaces : Reader (List String) := do
  word "implements"
  joinedNames "&"

def members : Reader (List String) := do
  word "="
  joinedNames "|"

/-- Directives and then a body, either of which may be absent. -/
def openBody {α : Type} (body : Reader α) : Reader (List DirectiveUse × Option α) := do
  let uses ← optionalDirectives
  let b ← optional body
  return (uses, b)

/-- Directives and then a body, not both absent. -/
def someBody {α : Type} (body : Reader α) : Reader (List DirectiveUse × Option α) :=
  Reader.or
    (do
      let uses ← optionalDirectives
      let b ← body
      return (uses, some b))
    (do
      let uses ← directives
      return (uses, none))

def scalarType (d : Option String) : Reader TypeDef := do
  word "scalar"
  let n ← name
  let uses ← optionalDirectives
  return ⟨n, d, uses, .scalar⟩

def objectType (d : Option String) : Reader TypeDef := do
  word "type"
  let n ← name
  let is ← optional interfaces
  let (uses, fs) ← openBody fields
  return ⟨n, d, uses, .object (fs.getD []) (is.getD [])⟩

def interfaceType (d : Option String) : Reader TypeDef := do
  word "interface"
  let n ← name
  let is ← optional interfaces
  let (uses, fs) ← openBody fields
  return ⟨n, d, uses, .interface (fs.getD []) (is.getD [])⟩

def unionType (d : Option String) : Reader TypeDef := do
  word "union"
  let n ← name
  let (uses, ms) ← openBody members
  return ⟨n, d, uses, .union (ms.getD [])⟩

def enumType (d : Option String) : Reader TypeDef := do
  word "enum"
  let n ← name
  let (uses, vs) ← openBody enumValues
  return ⟨n, d, uses, .enumeration (vs.getD [])⟩

def inputType (d : Option String) : Reader TypeDef := do
  word "input"
  let n ← name
  let (uses, fs) ← openBody inputFields
  return ⟨n, d, uses, .input (fs.getD [])⟩

def typeDefinition : Reader TypeDef := do
  let d ← description
  firstOf [scalarType d, objectType d, interfaceType d, unionType d, enumType d, inputType d]

def scalarExtension : Reader TypeDef := do
  word "scalar"
  let n ← name
  let uses ← directives
  return ⟨n, none, uses, .scalar⟩

def objectExtension : Reader TypeDef := do
  word "type"
  let n ← name
  Reader.or
    (do
      let is ← optional interfaces
      let (uses, fs) ← someBody fields
      return ⟨n, none, uses, .object (fs.getD []) (is.getD [])⟩)
    (do
      let is ← interfaces
      return ⟨n, none, [], .object [] is⟩)

def interfaceExtension : Reader TypeDef := do
  word "interface"
  let n ← name
  let is ← optional interfaces
  let (uses, fs) ← someBody fields
  return ⟨n, none, uses, .interface (fs.getD []) (is.getD [])⟩

def unionExtension : Reader TypeDef := do
  word "union"
  let n ← name
  let (uses, ms) ← someBody members
  return ⟨n, none, uses, .union (ms.getD [])⟩

def enumExtension : Reader TypeDef := do
  word "enum"
  let n ← name
  let (uses, vs) ← someBody enumValues
  return ⟨n, none, uses, .enumeration (vs.getD [])⟩

def inputExtension : Reader TypeDef := do
  word "input"
  let n ← name
  let (uses, fs) ← someBody inputFields
  return ⟨n, none, uses, .input (fs.getD [])⟩

def typeExtension : Reader TypeDef := do
  word "extend"
  firstOf [scalarExtension, objectExtension, interfaceExtension, unionExtension, enumExtension,
    inputExtension]

inductive Operation where
  | query
  | mutation
  | subscription

def Operation.name : Operation → String
  | query => "query"
  | mutation => "mutation"
  | subscription => "subscription"

def NamedRoots.get? (roots : NamedRoots) : Operation → Option String
  | .query => roots.query
  | .mutation => roots.mutation
  | .subscription => roots.subscription

def NamedRoots.set (roots : NamedRoots) (op : Operation) (type : String) : NamedRoots :=
  match op with
  | .query => { roots with query := some type }
  | .mutation => { roots with mutation := some type }
  | .subscription => { roots with subscription := some type }

def operation : Reader Operation :=
  firstOf [
    do
      word "query"
      return .query,
    do
      word "mutation"
      return .mutation,
    do
      word "subscription"
      return .subscription]

def rootDefinition : Reader (Nat × Operation × String) := do
  let start ← here
  let op ← operation
  word ":"
  let type ← name
  return (start, op, type)

/-- Collects the roots; one that is named again is noted. -/
def collectRoots (roots : NamedRoots) : List (Nat × Operation × String) → Reader NamedRoots
  | [] => found roots
  | (start, op, type) :: rest => do
    if (roots.get? op).isSome then
      fault start (.repeatedRoot op.name)
    collectRoots (roots.set op type) rest

def schemaDefinition : Reader NamedRoots := do
  let start ← here
  word "schema"
  let _ ← optionalDirectives
  let defs ← braced rootDefinition
  let roots ← collectRoots default defs
  if roots.query.isNone then
    fault start .missingQueryRoot
  return roots

def schemaExtension : Reader NamedRoots := do
  word "extend"
  word "schema"
  let (_, defs) ← someBody (braced rootDefinition)
  collectRoots default (defs.getD [])

/-- Longer words before their beginnings. -/
def locationWords : List (String × DirectiveLocation) := [
  ("QUERY", .query),
  ("MUTATION", .mutation),
  ("SUBSCRIPTION", .subscription),
  ("FIELD_DEFINITION", .fieldDefinition),
  ("FIELD", .field),
  ("FRAGMENT_DEFINITION", .fragmentDefinition),
  ("FRAGMENT_SPREAD", .fragmentSpread),
  ("INLINE_FRAGMENT", .inlineFragment),
  ("VARIABLE_DEFINITION", .variableDefinition),
  ("SCHEMA", .schema),
  ("SCALAR", .scalar),
  ("OBJECT", .object),
  ("ARGUMENT_DEFINITION", .argumentDefinition),
  ("INTERFACE", .interface),
  ("UNION", .union),
  ("ENUM_VALUE", .enumValue),
  ("ENUM", .enumeration),
  ("INPUT_OBJECT", .inputObject),
  ("INPUT_FIELD_DEFINITION", .inputFieldDefinition)]

def location : Reader DirectiveLocation :=
  firstOf (locationWords.map fun (w, l) => do
    word w
    return l)

def locations : Reader (List DirectiveLocation) := do
  let _ ← optional (word "|")
  let first ← location
  let rest ← many do
    word "|"
    location
  return first :: rest

/-- Every definition counts as repeatable, whether or not the word is there. -/
def directiveDefinition : Reader DirectiveDef := do
  let d ← description
  word "directive"
  word "@"
  let n ← name
  let args ← optionalArguments
  let _ ← optional (word "repeatable")
  word "on"
  let ls ← locations
  return ⟨n, d, args, ls, true⟩

def definition : Reader Definition :=
  firstOf [
    do return .roots (← schemaDefinition),
    do return .roots (← schemaExtension),
    do return .type (← typeDefinition),
    do return .extension (← typeExtension),
    do return .directive (← directiveDefinition)]

/-- A whole text: one definition at least, and nothing after the last. -/
def document : Reader (List Definition) := do
  let defs ← many1 definition
  atEnd
  return defs

end Sdl

end SchemaAssembly
