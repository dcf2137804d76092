import SchemaAssembly.Json.Reader
import SchemaAssembly.Number.Literal
import SchemaAssembly.Pattern.Basic
import SchemaAssembly.Pattern.Property

/-!
Reading patterns. The notation has literals, escapes, classes with set operations, groups,
alternatives, repetitions, assertions and flags; it has no look-around and no references to
groups. A text that is no pattern gives nothing.
-/

set_option autoImplicit false

namespace SchemaAssembly

structure PatternFlags where
  ignoreCase : Bool := false
  multiLine : Bool := false
  dotAll : Bool := false
  verbose : Bool := false
  unicode : Bool := true
  anyLineEnd : Bool := false

namespace PatternReader

def skipVerbose (inComment : Bool) : List Char → List Char
  | [] => []
  | c :: rest =>
    if inComment then skipVerbose (c != '\n') rest
    else if isBlank c then skipVerbose false rest
    else if c = '#' then skipVerbose true rest
    else c :: rest

def skip (flags : PatternFlags) (cs : List Char) : List Char :=
  if flags.verbose then skipVerbose false cs else cs

/-- The set with all characters that differ in case, where the flags ask for it. -/
def fold (flags : PatternFlags) (a : CharSet) : CharSet :=
  if flags.ignoreCase then
    (if flags.unicode then .folded a else .intersection (.range 0 0x7f) (.folded a))
  else a

def wordSet (flags : PatternFlags) : CharSet :=
  if flags.unicode then .wordChars else .asciiWordChars

/-- Where only bytes of ASCII are meant, a set must not have others. -/
def checkSet (flags : PatternFlags) (a : CharSet) : Option CharSet :=
  if flags.unicode then some a
  else if (List.range 0x80).any fun i => a.holds (0x80 + i) then none
  else some a

inductive Atom where
  | char (n : Nat)
  | set (a : CharSet)
  | look (a : Assertion)

/-- Characters that have a meaning of their own somewhere. -/
def isMeta (c : Char) : Bool :=
  ['\\', '.', '+', '*', '?', '(', ')', '|', '[', ']', '\x7b', '\x7d', '^', '$', '#', '&', '-',
    '~'].contains c

/-- Characters that stand for themselves after a backslash. -/
def isEscapable (c : Char) : Bool :=
  isMeta c || (c.toNat < 128 && !c.isAlphanum && c != '<' && c != '>')

def charOf? (n : Nat) : Option Nat :=
  if n < 0xd800 ∨ (0xe000 ≤ n ∧ n < 0x110000) then some n else none

def readHexDigits (flags : PatternFlags) : Nat → Nat → List Char → Option (Nat × List Char)
  | 0, n, cs => some (n, cs)
  | k + 1, n, c :: rest => do
    let d ← hexValue? c
    readHexDigits flags k (n * 16 + d) (skip flags rest)
  | _ + 1, _, [] => none

def readBraced (flags : PatternFlags) : Nat → List Char → Option (List Char × List Char)
  | 0, _ => none
  | _ + 1, [] => none
  | fuel + 1, c :: rest =>
    if c = '\x7d' then some ([], skip flags rest)
    else (readBraced flags fuel (skip flags rest)).map fun (cs, r) => (c :: cs, r)

/-- A character by its number, in braces or with a fixed count of digits. -/
def readHex (flags : PatternFlags) (digits : Nat) (cs : List Char) : Option (Atom × List Char) :=
  match skip flags cs with
  | [] => none
  | '\x7b' :: rest => do
    let (ds, rest) ← readBraced flags rest.length (skip flags rest)
    if ds.isEmpty then none
    else
      let values ← ds.mapM hexValue?
      let n ← charOf? (values.foldl (fun n d => n * 16 + d) 0)
      return (.char n, rest)
  | cs => do
    let (n, rest) ← readHexDigits flags digits 0 cs
    let n ← charOf? n
    return (.char n, rest)

/-- Splits a property at its first sign of equality; tells whether it is negated. -/
def splitProperty : List Char → Option (List Char × Bool × List Char)
  | [] => none
  | '!' :: '=' :: rest => some ([], true, rest)
  | c :: rest =>
    if c = '=' ∨ c = ':' then some ([], false, rest)
    else (splitProperty rest).map fun (name, negated, value) => (c :: name, negated, value)

/-- A property between braces, or a category of one letter. -/
def readProperty (flags : PatternFlags) (negated : Bool) (cs : List Char) :
    Option (Atom × List Char) :=
  let finish (negated : Bool) (a : CharSet) (rest : List Char) : Option (Atom × List Char) :=
    if flags.unicode then some (.set (.complementIf negated (fold flags a)), rest) else none
  match skip flags cs with
  | [] => none
  | '\x7b' :: rest => do
    let (name, rest) ← readBraced flags rest.length (skip flags rest)
    match splitProperty name with
    | some (property, unequal, value) =>
      let a ← CharSet.propertyValue? (String.ofList property) (String.ofList value)
      finish (negated != unequal) a rest
    | none =>
      let a ← CharSet.property? (String.ofList name)
      finish negated a rest
  | c :: rest => do
    let a ← CharSet.property? (String.ofList [c])
    finish negated a rest

def isBoundaryNameChar (c : Char) : Bool := c.isAlpha || c = '-'

/-- A word boundary, perhaps with its kind in braces. Braces that begin with something else belong
to a repetition. -/
def readBoundary (flags : PatternFlags) (cs : List Char) : Option (Atom × List Char) :=
  let word := wordSet flags
  match cs with
  | '\x7b' :: rest =>
    match skip flags rest with
    | [] => none
    | c :: more =>
      if isBoundaryNameChar c then do
        let (name, rest) ← readBraced flags (c :: more).length (c :: more)
        match String.ofList name with
        | "start" => some (.look (.wordStart word), rest)
        | "end" => some (.look (.wordEnd word), rest)
        | "start-half" => some (.look (.noWordBefore word), rest)
        | "end-half" => some (.look (.noWordAfter word), rest)
        | _ => none
      else some (.look (.boundary word), cs)
  | _ => some (.look (.boundary word), cs)

def readEscape (flags : PatternFlags) : List Char → Option (Atom × List Char)
  | [] => none
  | c :: rest =>
    let named (negated : Bool) (wide narrow : CharSet) : Option (Atom × List Char) :=
      some (.set (.complementIf negated (if flags.unicode then wide else narrow)), rest)
    match c with
    | 'x' => readHex flags 2 rest
    | 'u' => readHex flags 4 rest
    | 'U' => readHex flags 8 rest
    | 'p' => readProperty flags false rest
    | 'P' => readProperty flags true rest
    | 'd' => named false .digits .asciiDigits
    | 'D' => named true .digits .asciiDigits
    | 's' => named false .blanks .asciiBlanks
    | 'S' => named true .blanks .asciiBlanks
    | 'w' => named false .wordChars .asciiWordChars
    | 'W' => named true .wordChars .asciiWordChars
    | 'a' => some (.char 7, rest)
    | 'f' => some (.char 12, rest)
    | 't' => some (.char 9, rest)
    | 'n' => some (.char 10, rest)
    | 'r' => some (.char 13, rest)
    | 'v' => some (.char 11, rest)
    | 'A' => some (.look .startText, rest)
    | 'z' => some (.look .endText, rest)
    | 'b' => readBoundary flags rest
    | 'B' => some (.look (.noBoundary (wordSet flags)), rest)
    | '<' => some (.look (.wordStart (wordSet flags)), rest)
    | '>' => some (.look (.wordEnd (wordSet flags)), rest)
    | c => if isEscapable c then some (.char c.toNat, rest) else none

inductive ClassOp where
  | intersection
  | difference
  | symmetricDifference

/-- Applies the operation that waits for its right side. -/
def combine (flags : PatternFlags) (left : Option (ClassOp × CharSet)) (right : CharSet) :
    CharSet :=
  match left with
  | none => right
  | some (.intersection, a) => .intersection (fold flags a) (fold flags right)
  | some (.difference, a) => .difference (fold flags a) (fold flags right)
  | some (.symmetricDifference, a) => .symmetricDifference (fold flags a) (fold flags right)

/-- A named class of ASCII characters, as in `[:alpha:]`. -/
def readAsciiClass (cs : List Char) : Option (CharSet × List Char) :=
  match cs with
  | '[' :: ':' :: rest =>
    let (negated, rest) := match rest with
      | '^' :: rest => (true, rest)
      | rest => (false, rest)
    let name := rest.takeWhile fun c => c != ':'
    match rest.drop name.length with
    | ':' :: ']' :: rest =>
      (CharSet.asciiClass? (String.ofList name)).map fun a => (.complementIf negated a, rest)
    | _ => none
  | _ => none

/-- One character or escape inside a class. -/
def readClassAtom (flags : PatternFlags) : List Char → Option (Atom × List Char)
  | '\\' :: rest => readEscape flags rest
  | c :: rest => some (.char c.toNat, rest)
  | [] => none

def atomSet? : Atom → Option CharSet
  | .char n => some (.single n)
  | .set a => some a
  | .look _ => none

/-- A single item or a range inside a class. -/
def readClassRange (flags : PatternFlags) (cs : List Char) : Option (CharSet × List Char) := do
  let (first, rest) ← readClassAtom flags cs
  match skip flags rest with
  | [] => none
  | '-' :: after =>
    match skip flags after with
    | [] => none
    | next :: more =>
      if next = ']' ∨ next = '-' then
        let a ← atomSet? first
        return (a, '-' :: after)
      else
        let (last, rest) ← readClassAtom flags (next :: more)
        match first, last with
        | .char low, .char high => if low ≤ high then some (.range low high, rest) else none
        | _, _ => none
  | rest => do
    let a ← atomSet? first
    return (a, rest)

/-- Hyphens at the head of a class stand for themselves. -/
def readHyphens (flags : PatternFlags) : Nat → List Char → Nat × List Char
  | 0, cs => (0, cs)
  | fuel + 1, '-' :: rest =>
    let (n, rest) := readHyphens flags fuel (skip flags rest)
    (n + 1, rest)
  | _ + 1, cs => (0, cs)

mutual

def readClass (flags : PatternFlags) : Nat → List Char → Option (CharSet × List Char)
  | 0, _ => none
  | fuel + 1, cs =>
    let cs := skip flags cs
    let (negated, cs) := match cs with
      | '^' :: rest => (true, skip flags rest)
      | cs => (false, cs)
    let (hyphens, cs) := readHyphens flags cs.length cs
    let start : List CharSet := if hyphens = 0 then [] else [.single '-'.toNat]
    let (start, cs) := match hyphens, cs with
      | 0, ']' :: rest => ([.single ']'.toNat], skip flags rest)
      | _, cs => (start, cs)
    match readClassItems flags fuel start none cs with
    | none => none
    | some (a, rest) => some (.complementIf negated (fold flags a), rest)

def readClassItems (flags : PatternFlags) :
    Nat → List CharSet → Option (ClassOp × CharSet) → List Char → Option (CharSet × List Char)
  | 0, _, _, _ => none
  | fuel + 1, items, left, cs =>
    let sofar := CharSet.unionAll items
    match skip flags cs with
    | [] => none
    | ']' :: rest => some (combine flags left sofar, rest)
    | '&' :: '&' :: rest =>
      readClassItems flags fuel [] (some (.intersection, combine flags left sofar)) rest
    | '-' :: '-' :: rest =>
      readClassItems flags fuel [] (some (.difference, combine flags left sofar)) rest
    | '~' :: '~' :: rest =>
      readClassItems flags fuel [] (some (.symmetricDifference, combine flags left sofar)) rest
    | '[' :: rest =>
      match readAsciiClass ('[' :: rest) with
      | some (a, rest) => readClassItems flags fuel (items ++ [a]) left rest
      | none =>
        match readClass flags fuel rest with
        | none => none
        | some (a, rest) => readClassItems flags fuel (items ++ [a]) left rest
    | cs =>
      match readClassRange flags cs with
      | none => none
      | some (a, rest) => readClassItems flags fuel (items ++ [a]) left rest

end

def readCount (cs : List Char) : Option (Option Nat × List Char) :=
  let cs := cs.dropWhile isBlank
  let ds := cs.takeWhile Char.isDigit
  let rest := (cs.drop ds.length).dropWhile isBlank
  if ds.isEmpty then some (none, rest)
  else
    let n := decimalValue ds
    if n < 0x100000000 then some (some n, rest) else none

def readBounds (flags : PatternFlags) (cs : List Char) :
    Option (Nat × Option Nat × List Char) := do
  let (least, rest) ← readCount (skip flags cs)
  let least ← least
  match rest with
  | '\x7d' :: rest => return (least, some least, rest)
  | ',' :: rest =>
    match skip flags rest with
    | '\x7d' :: rest => return (least, none, rest)
    | rest =>
      let (most, rest) ← readCount rest
      let most ← most
      match rest with
      | '\x7d' :: rest => if least ≤ most then some (least, some most, rest) else none
      | _ => none
  | _ => none

/-- A question mark that makes a repetition prefer fewer times, which changes no match. -/
def skipLazy : List Char → List Char
  | '?' :: rest => rest
  | cs => cs

def setFlag (flags : PatternFlags) (c : Char) (on : Bool) : Option PatternFlags :=
  match c with
  | 'i' => some { flags with ignoreCase := on }
  | 'm' => some { flags with multiLine := on }
  | 's' => some { flags with dotAll := on }
  | 'U' => some flags
  | 'u' => some { flags with unicode := on }
  | 'R' => some { flags with anyLineEnd := on }
  | 'x' => some { flags with verbose := on }
  | _ => none

/-- Flags up to a colon or a closing parenthesis, each at most once; the result tells which of
the two it was and whether there was any flag at all. -/
def readFlags (flags : PatternFlags) (seen : List Char) :
    List Char → Option (PatternFlags × Bool × Bool × List Char)
  | [] => none
  | c :: rest =>
    let dangling := seen.head? == some '-'
    if c = ':' ∨ c = ')' then
      if dangling then none else some (flags, c == ':', !seen.isEmpty, rest)
    else if seen.contains c then none
    else if c = '-' then readFlags flags (c :: seen) rest
    else
      match setFlag flags c (!seen.contains '-') with
      | none => none
      | some flags => readFlags flags (c :: seen) rest

def isNameStart (c : Char) : Bool := c = '_' || CharSet.alphabetic.holds c.toNat

def isNameChar (c : Char) : Bool :=
  c = '_' || c = '.' || c = '[' || c = ']' ||
    (CharSet.union .alphabetic (.ofCategories [.decimalNumber, .letterNumber, .otherNumber])).holds
      c.toNat

def readGroupName (cs : List Char) : Option (String × List Char) :=
  let name := cs.takeWhile fun c => c != '>'
  match name, cs.drop name.length with
  | c :: more, _ :: rest =>
    if isNameStart c && more.all isNameChar then some (String.ofList name, rest) else none
  | _, _ => none

structure GroupState where
  flags : PatternFlags
  /-- Complete alternatives. -/
  alternatives : List Pattern
  /-- The items of the last alternative, latest first; a change of flags is an item that cannot
  be repeated. -/
  items : List (Option Pattern)
  names : List String

namespace GroupState

def push (s : GroupState) (p : Pattern) : GroupState := { s with items := some p :: s.items }

def repeatLast (s : GroupState) (least : Nat) (most : Option Nat) : Option GroupState :=
  match s.items with
  | some p :: rest => some { s with items := some (.repeated p least most) :: rest }
  | _ => none

def sequence (s : GroupState) : Pattern :=
  (s.items.filterMap id).foldl (fun later p => .seq p later) .empty

def close (s : GroupState) : Pattern :=
  s.alternatives.foldr (fun p later => .alt p later) s.sequence

def alternate (s : GroupState) : GroupState :=
  { s with alternatives := s.alternatives ++ [s.sequence], items := [] }

end GroupState

def charPattern (flags : PatternFlags) (a : CharSet) : Option Pattern :=
  (checkSet flags a).map Pattern.char

def atomPattern (flags : PatternFlags) : Atom → Option Pattern
  | .char n => charPattern flags (fold flags (.single n))
  | .set a => charPattern flags a
  | .look a => some (.look a)

/-- The point: any character, or any but those that end lines. -/
def dotSet (flags : PatternFlags) : CharSet :=
  if flags.dotAll then .range 0 0x10ffff
  else if flags.anyLineEnd then .complement (.ranges [(10, 10), (13, 13)])
  else .complement (.single 10)

def startAssertion (flags : PatternFlags) : Assertion :=
  if flags.multiLine then (if flags.anyLineEnd then .startAnyLine else .startLine) else .startText

def endAssertion (flags : PatternFlags) : Assertion :=
  if flags.multiLine then (if flags.anyLineEnd then .endAnyLine else .endLine) else .endText

def readItems : Nat → GroupState → List Char → Option (GroupState × List Char)
  | 0, _, _ => none
  | fuel + 1, s, cs =>
    let group (flags : PatternFlags) (names : List String) (cs : List Char) :
        Option (GroupState × List Char) :=
      match readItems fuel ⟨flags, [], [], names⟩ cs with
      | some (inner, ')' :: rest) =>
        readItems fuel { s.push inner.close with names := inner.names } rest
      | _ => none
    let named (cs : List Char) : Option (GroupState × List Char) :=
      match readGroupName cs with
      | some (name, rest) => if s.names.contains name then none else group s.flags (name :: s.names) rest
      | none => none
    let repeating (least : Nat) (most : Option Nat) (rest : List Char) :
        Option (GroupState × List Char) :=
      match s.repeatLast least most with
      | some s => readItems fuel s (skipLazy rest)
      | none => none
    let pushing (p : Option Pattern) (rest : List Char) : Option (GroupState × List Char) :=
      match p with
      | some p => readItems fuel (s.push p) rest
      | none => none
    match skip s.flags cs with
    | [] => some (s, [])
    | ')' :: rest => some (s, ')' :: rest)
    | '|' :: rest => readItems fuel s.alternate rest
    | '(' :: rest =>
      match skip s.flags rest with
      | '?' :: '=' :: _ | '?' :: '!' :: _ | '?' :: '<' :: '=' :: _ | '?' :: '<' :: '!' :: _ => none
      | '?' :: 'P' :: '<' :: rest => named rest
      | '?' :: '<' :: rest => named rest
      | '?' :: rest =>
        match readFlags s.flags [] rest with
        | some (flags, true, _, rest) => group flags s.names rest
        | some (flags, false, true, rest) =>
          readItems fuel { s with flags := flags, items := none :: s.items } rest
        | _ => none
      | rest => group s.flags s.names rest
    | '[' :: rest =>
      match readClass s.flags (rest.length + 1) rest with
      | some (a, rest) => pushing (charPattern s.flags a) rest
      | none => none
    | '?' :: rest => repeating 0 (some 1) rest
    | '*' :: rest => repeating 0 none rest
    | '+' :: rest => repeating 1 none rest
    | '\x7b' :: rest =>
      match readBounds s.flags rest with
      | some (least, most, rest) => repeating least most (skip s.flags rest)
      | none => none
    | '\\' :: rest =>
      match readEscape s.flags rest with
      | some (a, rest) => pushing (atomPattern s.flags a) rest
      | none => none
    | '.' :: rest => pushing (charPattern s.flags (dotSet s.flags)) rest
    | '^' :: rest => pushing (some (.look (startAssertion s.flags))) rest
    | '$' :: rest => pushing (some (.look (endAssertion s.flags))) rest
    | c :: rest => pushing (atomPattern s.flags (.char c.toNat)) rest

end PatternReader

def Pattern.ofText? (s : String) : Option Pattern :=
  let cs := s.toList
  match PatternReader.readItems (cs.length + 1) ⟨{}, [], [], []⟩ cs with
  | some (state, []) =>
    let p := state.close
    if p.weight ≤ Pattern.weightLimit then some p else none
  | _ => none

end SchemaAssembly
