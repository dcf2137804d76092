import SchemaAssembly.Json.Value
import SchemaAssembly.Number.Decimal

/-!
JSON text: the compact form, in which a value also serves as the key of a loader cache, and a form
with two blanks of indentation.
-/

set_option autoImplicit false

namespace SchemaAssembly

def hex4 (n : Nat) : List Char :=
  let ds := Nat.toDigits 16 n
  List.replicate (4 - ds.length) '0' ++ ds

/-- A character inside quotes: the quote, the backslash and the control characters are escaped. -/
def escapeChar (c : Char) : List Char :=
  if c = '"' then ['\\', '"']
  else if c = '\\' then ['\\', '\\']
  else if c = '\n' then ['\\', 'n']
  else if c = '\r' then ['\\', 'r']
  else if c = '\t' then ['\\', 't']
  else if c = '\x08' then ['\\', 'b']
  else if c = '\x0c' then ['\\', 'f']
  else if c.toNat < 32 then '\\' :: 'u' :: hex4 c.toNat
  else [c]

def quoteChars (cs : List Char) : List Char := '"' :: cs.flatMap escapeChar ++ ['"']

def quoted (s : String) : String := String.ofList (quoteChars s.toList)

namespace Json

mutual

def text : Json → String
  | .null => "null"
  | .bool true => "true"
  | .bool false => "false"
  | .int n => toString n
  | .float x => Layout.json.text x
  | .str s => quoted s
  | .list items => "[" ++ itemsText items ++ "]"
  | .obj members => "\x7b" ++ membersText members ++ "\x7d"

def itemsText : List Json → String
  | [] => ""
  | [v] => text v
  | v :: w :: rest => text v ++ "," ++ itemsText (w :: rest)

def membersText : List (String × Json) → String
  | [] => ""
  | [(n, v)] => quoted n ++ ":" ++ text v
  | (n, v) :: m :: rest => quoted n ++ ":" ++ text v ++ "," ++ membersText (m :: rest)

end

def indent (depth : Nat) : String := String.ofList (List.replicate (2 * depth) ' ')

mutual

/-- The text with one item or member to a line; empty lists and objects stay closed. -/
def prettyText (depth : Nat) : Json → String
  | .list [] => "[]"
  | .list (v :: rest) =>
    "[\n" ++ prettyItems (depth + 1) (v :: rest) ++ "\n" ++ indent depth ++ "]"
  | .obj [] => "\x7b\x7d"
  | .obj (m :: rest) =>
    "\x7b\n" ++ prettyMembers (depth + 1) (m :: rest) ++ "\n" ++ indent depth ++ "\x7d"
  | v => text v

def prettyItems (depth : Nat) : List Json → String
  | [] => ""
  | [v] => indent depth ++ prettyText depth v
  | v :: w :: rest => indent depth ++ prettyText depth v ++ ",\n" ++ prettyItems depth (w :: rest)

def prettyMembers (depth : Nat) : List (String × Json) → String
  | [] => ""
  | [(n, v)] => indent depth ++ quoted n ++ ": " ++ prettyText depth v
  | (n, v) :: m :: rest =>
    indent depth ++ quoted n ++ ": " ++ prettyText depth v ++ ",\n" ++ prettyMembers depth (m :: rest)

end

def pretty (v : Json) : String := prettyText 0 v

end Json

end SchemaAssembly
