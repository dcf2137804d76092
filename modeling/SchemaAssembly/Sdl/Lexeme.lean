import SchemaAssembly.Json.Reader
import SchemaAssembly.Schema.TypeRef

/-!
The lexemes of schema texts. Each reader takes one lexeme from the head of a text and gives the
rest; blanks and comments between lexemes are skipped by `skipIgnored`. A word that is a keyword
need not end where the next name could go on.
-/

set_option autoImplicit false

namespace SchemaAssembly

namespace Sdl

/-- Blanks between lexemes: space, comma, tab, line ends and the byte order mark. -/
def isIgnored (c : Char) : Bool :=
  c = ' ' || c = ',' || c = '\t' || c = '\n' || c = '\r' || c = '\ufeff'

def isLineEnd (c : Char) : Bool := c = '\n' || c = '\r'

/-- Skips blanks and comments; `inComment` says where the text starts. -/
def skipFrom : Bool → List Char → List Char
  | _, [] => []
  | true, c :: rest => skipFrom (!isLineEnd c) rest
  | false, c :: rest =>
    if isIgnored c then skipFrom false rest
    else if c = '#' then skipFrom true rest
    else c :: rest

def skipIgnored (cs : List Char) : List Char := skipFrom false cs

def readWord : List Char → List Char → Option (Unit × List Char)
  | [], cs => some ((), cs)
  | _ :: _, [] => none
  | w :: word, c :: rest => if w = c then readWord word rest else none

def isNameStart (c : Char) : Bool := c.isAlpha || c = '_'

def isNameChar (c : Char) : Bool := c.isAlphanum || c = '_'

def readName : List Char → Option (String × List Char)
  | [] => none
  | c :: rest =>
    if isNameStart c then
      some (String.ofList (c :: rest.takeWhile isNameChar), rest.dropWhile isNameChar)
    else none

/-- A reference to a type as it is written: a name or a list, nullable or not. -/
inductive TypeSyntax where
  | named (name : String) (nullable : Bool)
  | list (item : TypeSyntax) (nullable : Bool)
  deriving DecidableEq

/-- The reference that is meant. -/
def TypeSyntax.ref : TypeSyntax → TypeRef
  | named name nullable => if nullable then .option (.named name) else .named name
  | list item nullable => if nullable then .option (.list item.ref) else .list item.ref

/-- Whether there is no `!`, and what comes after it. -/
def readNullable : List Char → Bool × List Char
  | '!' :: rest => (false, rest)
  | rest => (true, rest)

/-- A reference has no blanks inside. -/
def readTypeWithin : Nat → List Char → Option (TypeSyntax × List Char)
  | 0, _ => none
  | fuel + 1, '[' :: rest =>
    match readTypeWithin fuel rest with
    | some (item, ']' :: tail) => some (.list item (readNullable tail).1, (readNullable tail).2)
    | _ => none
  | _ + 1, cs =>
    (readName cs).map fun (name, tail) =>
      (.named name (readNullable tail).1, (readNullable tail).2)

def readType (cs : List Char) : Option (TypeSyntax × List Char) :=
  readTypeWithin (cs.length + 1) cs

def readTypeRef (cs : List Char) : Option (TypeRef × List Char) :=
  (readType cs).map fun (t, rest) => (t.ref, rest)

/-- A number that no name follows directly. -/
def readNumber (cs : List Char) : Option (NumberLiteral × List Char) :=
  match NumberLiteral.read? cs with
  | some (l, rest) =>
    match rest with
    | c :: _ => if isNameStart c then none else some (l, rest)
    | [] => some (l, rest)
  | none => none

/-- An enum value may not begin with one of the three constant words. -/
def readEnumValue (cs : List Char) : Option (String × List Char) :=
  let starts (w : String) : Bool := (readWord w.toList cs).isSome
  if starts "true" || starts "false" || starts "null" then none else readName cs

/-- The raw text of a block string after its opening quotes; an escaped triple quote stays. -/
def readBlock (acc : List Char) : List Char → Option (List Char × List Char)
  | '"' :: '"' :: '"' :: rest => some (acc.reverse, rest)
  | '\\' :: '"' :: '"' :: '"' :: rest => readBlock ('"' :: '"' :: '"' :: '\\' :: acc) rest
  | c :: rest => readBlock (c :: acc) rest
  | [] => none

def readQuoted (acc : List Char) : List Char → Option (List Char × List Char)
  | '"' :: rest => some (acc.reverse, rest)
  | '\\' :: 'u' :: a :: b :: c :: d :: rest =>
    match hexNumber? [a, b, c, d] with
    | some n => if 0xD800 ≤ n ∧ n < 0xE000 then none else readQuoted (Char.ofNat n :: acc) rest
    | none => none
  | '\\' :: e :: rest =>
    match e with
    | '"' => readQuoted ('"' :: acc) rest
    | '\\' => readQuoted ('\\' :: acc) rest
    | '/' => readQuoted ('/' :: acc) rest
    | 'b' => readQuoted ('\x08' :: acc) rest
    | 'f' => readQuoted ('\x0c' :: acc) rest
    | 'n' => readQuoted ('\n' :: acc) rest
    | 'r' => readQuoted ('\r' :: acc) rest
    | 't' => readQuoted ('\t' :: acc) rest
    | _ => none
  | c :: rest => if isLineEnd c then none else readQuoted (c :: acc) rest
  | [] => none

/-- Splits at `\r\n`, `\r` and `\n`; `line` holds the current line reversed. -/
def splitLines (line : List Char) : List Char → List (List Char)
  | [] => [line.reverse]
  | '\r' :: '\n' :: rest => line.reverse :: splitLines [] rest
  | c :: rest =>
    if isLineEnd c then line.reverse :: splitLines [] rest else splitLines (c :: line) rest

def isIndent (c : Char) : Bool := c = ' ' || c = '\t'

def hasContent (line : List Char) : Bool := line.any fun c => !isIndent c

/-- The least indent of the lines with content. -/
def commonIndent : List (List Char) → Option Nat
  | [] => none
  | line :: rest =>
    if hasContent line then
      let own := (line.takeWhile isIndent).length
      match commonIndent rest with
      | none => some own
      | some n => some (Nat.min own n)
    else commonIndent rest

/-- The value of a block string: the common indent is cut from all lines but the first, and lines
without content are dropped at both ends. -/
def blockValue (raw : List Char) : List Char :=
  match splitLines [] raw with
  | [] => []
  | first :: rest =>
    let n := (commonIndent rest).getD 0
    let cut := first :: rest.map fun line => if n ≤ line.length then line.drop n else line
    let kept := ((cut.dropWhile (!hasContent ·)).reverse.dropWhile (!hasContent ·)).reverse
    List.intercalate ['\n'] kept

def readString (cs : List Char) : Option (String × List Char) :=
  let block := match cs with
    | '"' :: '"' :: '"' :: rest => (readBlock [] rest).map fun (raw, tail) => (blockValue raw, tail)
    | _ => none
  let found := match block with
    | some r => some r
    | none =>
      match cs with
      | '"' :: rest => readQuoted [] rest
      | _ => none
  found.map fun (value, tail) => (String.ofList value, tail)

end Sdl

end SchemaAssembly
