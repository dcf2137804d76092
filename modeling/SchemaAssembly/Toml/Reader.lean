import SchemaAssembly.Json.Reader
import SchemaAssembly.Toml.Table

/-!
Reading TOML 1.0 documents. Dates and times are checked and kept as an object with one member
holding their text, so that they never pass for another kind of value.
-/

set_option autoImplicit false

namespace SchemaAssembly

namespace Toml

/-- A value read at the head of a text, with the rest of it. -/
abbrev Reading (α : Type) := Option (α × List Char)

def isSpace (c : Char) : Bool := c = ' ' || c = '\t'

def skipSpaces (cs : List Char) : List Char := cs.dropWhile isSpace

/-- The text after a line break, if it starts with one. -/
def afterBreak? : List Char → Option (List Char)
  | '\n' :: rest => some rest
  | '\r' :: '\n' :: rest => some rest
  | _ => none

/-- Control characters other than the tab may not stand in comments and strings. -/
def isPlain (c : Char) : Bool := c = '\t' || (32 ≤ c.toNat && c.toNat ≠ 127)

/-- Skips a comment up to the end of its line. -/
def skipComment : List Char → List Char
  | '#' :: rest => rest.dropWhile isPlain
  | cs => cs

/-- Blanks, comments and line breaks between the parts of an array or between lines. -/
def skipLines : Nat → List Char → List Char
  | 0, cs => cs
  | fuel + 1, cs =>
    let cs := skipComment (skipSpaces cs)
    match afterBreak? cs with
    | some rest => skipLines fuel rest
    | none => cs

/-- The rest after the end of a line: blanks, a comment, and a line break or the end. -/
def endLine (cs : List Char) : Option (List Char) :=
  match skipComment (skipSpaces cs) with
  | [] => some []
  | rest => afterBreak? rest

/-- A Unicode scalar value from hexadecimal digits. -/
def scalarOfHex? (ds : List Char) : Option Char :=
  (hexNumber? ds).bind fun n =>
    if n < 0xD800 ∨ (0xE000 ≤ n ∧ n < 0x110000) then some (Char.ofNat n) else none

def readEscape : List Char → Reading Char
  | 'b' :: r => some ('\x08', r)
  | 't' :: r => some ('\t', r)
  | 'n' :: r => some ('\n', r)
  | 'f' :: r => some ('\x0c', r)
  | 'r' :: r => some ('\r', r)
  | '"' :: r => some ('"', r)
  | '\\' :: r => some ('\\', r)
  | 'u' :: r =>
    if (r.take 4).length = 4 then (scalarOfHex? (r.take 4)).map (·, r.drop 4) else none
  | 'U' :: r =>
    if (r.take 8).length = 8 then (scalarOfHex? (r.take 8)).map (·, r.drop 8) else none
  | _ => none

def readBasic : Nat → List Char → List Char → Reading (List Char)
  | 0, _, _ => none
  | fuel + 1, acc, cs =>
    match cs with
    | '"' :: rest => some (acc.reverse, rest)
    | '\\' :: rest => (readEscape rest).bind fun (c, tail) => readBasic fuel (c :: acc) tail
    | c :: rest => if isPlain c then readBasic fuel (c :: acc) rest else none
    | [] => none

def readLiteral : List Char → List Char → Reading (List Char)
  | _, [] => none
  | acc, c :: rest =>
    if c = '\'' then some (acc.reverse, rest)
    else if isPlain c then readLiteral (c :: acc) rest else none

/-- Up to two quotes directly before the closing three belong to the text. -/
def closeBlock (quote : Char) (acc cs : List Char) : Reading (List Char) :=
  let run := (cs.takeWhile (· = quote)).length
  let kept := if run < 5 then run - 3 else 2
  some ((List.replicate kept quote ++ acc).reverse, cs.drop (kept + 3))

/-- After a backslash at the end of a line, all blanks and line breaks are skipped. -/
def continueLine (cs : List Char) : Option (List Char) :=
  match afterBreak? (skipSpaces cs) with
  | none => none
  | some rest => some (skip rest.length rest)
where
  skip : Nat → List Char → List Char
    | 0, cs => cs
    | fuel + 1, cs =>
      let cs := skipSpaces cs
      match afterBreak? cs with
      | some rest => skip fuel rest
      | none => cs

def readBasicBlock : Nat → List Char → List Char → Reading (List Char)
  | 0, _, _ => none
  | fuel + 1, acc, cs =>
    match cs with
    | '"' :: '"' :: '"' :: _ => closeBlock '"' acc cs
    | '\\' :: rest =>
      match readEscape rest with
      | some (c, tail) => readBasicBlock fuel (c :: acc) tail
      | none => (continueLine rest).bind fun tail => readBasicBlock fuel acc tail
    | '\r' :: '\n' :: rest => readBasicBlock fuel ('\n' :: acc) rest
    | '\n' :: rest => readBasicBlock fuel ('\n' :: acc) rest
    | c :: rest => if isPlain c then readBasicBlock fuel (c :: acc) rest else none
    | [] => none

def readLiteralBlock : Nat → List Char → List Char → Reading (List Char)
  | 0, _, _ => none
  | fuel + 1, acc, cs =>
    match cs with
    | '\'' :: '\'' :: '\'' :: _ => closeBlock '\'' acc cs
    | '\r' :: '\n' :: rest => readLiteralBlock fuel ('\n' :: acc) rest
    | '\n' :: rest => readLiteralBlock fuel ('\n' :: acc) rest
    | c :: rest => if isPlain c then readLiteralBlock fuel (c :: acc) rest else none
    | [] => none

def dropBreak (cs : List Char) : List Char := (afterBreak? cs).getD cs

def readText (cs : List Char) : Reading String :=
  let fuel := cs.length + 1
  let chars := match cs with
    | '"' :: '"' :: '"' :: rest => readBasicBlock fuel [] (dropBreak rest)
    | '"' :: rest => readBasic fuel [] rest
    | '\'' :: '\'' :: '\'' :: rest => readLiteralBlock fuel [] (dropBreak rest)
    | '\'' :: rest => readLiteral [] rest
    | _ => none
  chars.map fun (s, rest) => (String.ofList s, rest)

def isBareKeyChar (c : Char) : Bool := c.isAlphanum || c = '_' || c = '-'

def readSimpleKey (cs : List Char) : Reading String :=
  match cs with
  | '"' :: rest => (readBasic (rest.length + 1) [] rest).map fun (s, t) => (String.ofList s, t)
  | '\'' :: rest => (readLiteral [] rest).map fun (s, t) => (String.ofList s, t)
  | _ =>
    let key := cs.takeWhile isBareKeyChar
    if key.isEmpty then none else some (String.ofList key, cs.drop key.length)

/-- A dotted key: its leading parts and its last part. -/
def readKey : Nat → List Char → Reading (List String × String)
  | 0, _ => none
  | fuel + 1, cs =>
    match readSimpleKey (skipSpaces cs) with
    | none => none
    | some (part, rest) =>
      match skipSpaces rest with
      | '.' :: tail => (readKey fuel tail).map fun ((path, last), more) => ((part :: path, last), more)
      | tail => some (([], part), tail)

/-- Digits of a base in groups joined by single underscores. -/
def readGrouped (isDigit : Char → Bool) (cs : List Char) : Reading (List Char) :=
  let run := cs.takeWhile fun c => isDigit c || c = '_'
  let wellGrouped (prev : Option Char) (c : Char) : Option Char :=
    prev.bind fun p => if c = '_' ∧ p = '_' then none else some c
  match run with
  | [] => none
  | first :: _ =>
    if first = '_' then none
    else
      match run.foldl wellGrouped (some 'x') with
      | none => none
      | some last =>
        if last = '_' then none else some (run.filter (· ≠ '_'), cs.drop run.length)

def isHexDigit (c : Char) : Bool := (hexValue? c).isSome

def fitsInt64 (n : Int) : Bool := decide (-0x8000000000000000 ≤ n ∧ n < 0x8000000000000000)

def intItem (n : Int) (rest : List Char) : Reading Json :=
  if fitsInt64 n then some (.int n, rest) else none

def readBased (base : Nat) (isDigit : Char → Bool) (cs : List Char) : Reading Json :=
  (readGrouped isDigit cs).bind fun (ds, rest) =>
    intItem (ds.foldl (fun n c => n * base + (hexValue? c).getD 0) 0) rest

/-- A decimal number; a leading zero stands alone. Its value as a float is that of its digits. -/
def readDecimal (cs : List Char) : Reading Json :=
  let (negative, body) := match cs with
    | '-' :: r => (true, r)
    | '+' :: r => (false, r)
    | _ => (false, cs)
  match body with
  | 'i' :: 'n' :: 'f' :: rest | 'n' :: 'a' :: 'n' :: rest => some (.float (.zero negative), rest)
  | _ =>
    match readGrouped Char.isDigit body with
    | none => none
    | some (whole, rest) =>
      if whole.head? = some '0' ∧ 1 < whole.length then none
      else
        let fraction : Option (Bool × List Char × List Char) := match rest with
          | '.' :: r => (readGrouped Char.isDigit r).map fun (ds, t) => (true, ds, t)
          | _ => some (false, [], rest)
        match fraction with
        | none => none
        | some (hasFraction, ds, rest) =>
          match rest with
          | 'e' :: r | 'E' :: r =>
            let (down, r) := match r with
              | '-' :: t => (true, t)
              | '+' :: t => (false, t)
              | _ => (false, r)
            (readGrouped Char.isDigit r).bind fun (es, t) =>
              (NumberLiteral.value? ⟨negative, whole, ds, some (down, es)⟩).map fun n =>
                (Json.ofNumeral n, t)
          | _ =>
            if hasFraction then
              (NumberLiteral.value? ⟨negative, whole, ds, none⟩).map fun n => (Json.ofNumeral n, rest)
            else
              let n : Int := decimalValue whole
              intItem (if negative then -n else n) rest

/-- Reads exactly `count` digits whose value lies between the bounds. -/
def readFixed (count low high : Nat) (cs : List Char) : Option (Nat × List Char) :=
  let ds := cs.take count
  if ds.length = count ∧ ds.all Char.isDigit then
    let n := decimalValue ds
    if low ≤ n ∧ n ≤ high then some (n, cs.drop count) else none
  else none

def expectChar (c : Char) : List Char → Option (List Char)
  | [] => none
  | d :: rest => if c = d then some rest else none

def isLeapYear (y : Nat) : Bool := y % 4 = 0 && (y % 100 ≠ 0 || y % 400 = 0)

def daysInMonth (y m : Nat) : Nat :=
  if m = 2 then (if isLeapYear y then 29 else 28)
  else if m = 4 ∨ m = 6 ∨ m = 9 ∨ m = 11 then 30 else 31

def readDate (cs : List Char) : Option (List Char) := do
  let (y, cs) ← readFixed 4 0 9999 cs
  let cs ← expectChar '-' cs
  let (m, cs) ← readFixed 2 1 12 cs
  let cs ← expectChar '-' cs
  let (_, cs) ← readFixed 2 1 (daysInMonth y m) cs
  return cs

def readTime (cs : List Char) : Option (List Char) := do
  let (_, cs) ← readFixed 2 0 23 cs
  let cs ← expectChar ':' cs
  let (_, cs) ← readFixed 2 0 59 cs
  let cs ← expectChar ':' cs
  let (_, cs) ← readFixed 2 0 60 cs
  match cs with
  | '.' :: rest =>
    let ds := rest.takeWhile Char.isDigit
    if ds.isEmpty then none else return rest.drop ds.length
  | _ => return cs

/-- The rest after an offset from UTC, which may be absent. -/
def readOffset (cs : List Char) : Option (List Char) :=
  match cs with
  | 'Z' :: rest | 'z' :: rest => some rest
  | '+' :: rest | '-' :: rest => do
    let (_, rest) ← readFixed 2 0 23 rest
    let rest ← expectChar ':' rest
    let (_, rest) ← readFixed 2 0 59 rest
    return rest
  | _ => some cs

def readDateTime (cs : List Char) : Reading Json :=
  let found := match readDate cs with
    | some afterDate =>
      match afterDate with
      | 'T' :: r | 't' :: r => (readTime r).bind readOffset
      | ' ' :: r =>
        match readTime r with
        | some afterTime => readOffset afterTime
        | none => some afterDate
      | _ => some afterDate
    | none => readTime cs
  found.map fun rest =>
    (.obj [("$date-time", .str (String.ofList (cs.take (cs.length - rest.length))))], rest)

mutual

def readItem : Nat → List Char → Reading Json
  | 0, _ => none
  | fuel + 1, cs =>
    match cs with
    | '"' :: _ | '\'' :: _ => (readText cs).map fun (s, rest) => (.str s, rest)
    | '[' :: rest => (readArray fuel rest).map fun (vs, more) => (.list vs, more)
    | '\x7b' :: rest =>
      match skipSpaces rest with
      | '\x7d' :: more => some (.obj [], more)
      | tail => (readInline fuel [] tail).map fun (t, more) => (Table.json t, more)
    | 't' :: 'r' :: 'u' :: 'e' :: rest => some (.bool true, rest)
    | 'f' :: 'a' :: 'l' :: 's' :: 'e' :: rest => some (.bool false, rest)
    | '0' :: 'x' :: rest => readBased 16 isHexDigit rest
    | '0' :: 'o' :: rest => readBased 8 (fun c => c.isDigit && c ≠ '8' && c ≠ '9') rest
    | '0' :: 'b' :: rest => readBased 2 (fun c => c = '0' || c = '1') rest
    | _ =>
      match readDateTime cs with
      | some r => some r
      | none => readDecimal cs

def readArray : Nat → List Char → Reading (List Json)
  | 0, _ => none
  | fuel + 1, cs =>
    match skipLines cs.length cs with
    | ']' :: rest => some ([], rest)
    | tail =>
      match readItem fuel tail with
      | none => none
      | some (v, more) =>
        match skipLines more.length more with
        | ',' :: rest => (readArray fuel rest).map fun (vs, last) => (v :: vs, last)
        | ']' :: rest => some ([v], rest)
        | _ => none

def readInline : Nat → Table → List Char → Reading Table
  | 0, _, _ => none
  | fuel + 1, t, cs =>
    match readKey fuel cs with
    | none => none
    | some ((path, name), rest) =>
      match rest with
      | '=' :: tail =>
        match readItem fuel (skipSpaces tail) with
        | none => none
        | some (v, more) =>
          match t.insertDotted v path name with
          | none => none
          | some t =>
            match skipSpaces more with
            | ',' :: next => readInline fuel t next
            | '\x7d' :: next => some (t, next)
            | _ => none
      | _ => none

end

/-- A key line: dotted path, last part, value. -/
abbrev KeyLine := List String × String × Json

def readKeyLine (fuel : Nat) (cs : List Char) : Option (KeyLine × List Char) := do
  let ((path, name), rest) ← readKey fuel cs
  let tail ← expectChar '=' rest
  let (v, more) ← readItem fuel (skipSpaces tail)
  let next ← endLine more
  return ((path, name, v), next)

/-- A header: whether it appends to an array, and its path. -/
structure Header where
  appends : Bool
  path : List String
  name : String

def readHeader (fuel : Nat) (cs : List Char) : Option (Header × List Char) := do
  match cs with
  | '[' :: '[' :: rest =>
    let ((path, name), tail) ← readKey fuel rest
    let tail ← expectChar ']' tail
    let tail ← expectChar ']' tail
    let next ← endLine tail
    return (⟨true, path, name⟩, next)
  | '[' :: rest =>
    let ((path, name), tail) ← readKey fuel rest
    let tail ← expectChar ']' tail
    let next ← endLine tail
    return (⟨false, path, name⟩, next)
  | _ => none

/-- The key lines up to the next header or the end. -/
def readKeyLines : Nat → List Char → Reading (List KeyLine)
  | 0, _ => none
  | fuel + 1, cs =>
    match skipSpaces (skipLines cs.length cs) with
    | [] => some ([], [])
    | '[' :: rest => some ([], '[' :: rest)
    | tail =>
      match readKeyLine (2 * tail.length + 2) tail with
      | none => none
      | some (line, next) =>
        (readKeyLines fuel next).map fun (lines, more) => (line :: lines, more)

def fill (lines : List KeyLine) (t : Table) : Option Table :=
  lines.foldl (fun acc (path, name, v) => acc.bind fun t => t.insertDotted v path name) (some t)

/-- The sections after the key lines of the root table. -/
def readSections : Nat → Table → List Char → Option Table
  | 0, _, _ => none
  | fuel + 1, t, cs =>
    match cs with
    | [] => some t
    | _ => do
      let (header, rest) ← readHeader (cs.length + 1) cs
      let (lines, next) ← readKeyLines (rest.length + 2) rest
      let t ← if header.appends then t.appendTable (fill lines) header.path header.name
        else t.insertTable (fill lines) header.path header.name
      readSections fuel t next

def parse? (s : String) : Option Json := do
  let cs := match s.toList with
    | '\ufeff' :: rest => rest
    | cs => cs
  let (lines, rest) ← readKeyLines (cs.length + 2) cs
  let root ← fill lines []
  let t ← readSections (rest.length + 1) root rest
  return t.json

end Toml

end SchemaAssembly
