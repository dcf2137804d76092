import SchemaAssembly.Files.Tree

/-!
Patterns of file locations. Within one component `*` stands for any characters, `?` for one and
brackets for one of a set; `**` as a whole component stands for any directories, none included.
-/

set_option autoImplicit false

namespace SchemaAssembly

namespace Glob

inductive Token where
  | char (c : Char)
  | anyChar
  | anySequence
  | directories
  | within (ranges : List (Char × Char))
  | except (ranges : List (Char × Char))
  deriving DecidableEq

inductive Fault where
  | wildcards
  | recursive
  | range
  deriving DecidableEq

structure PatternError where
  position : Nat
  fault : Fault
  deriving DecidableEq

def PatternError.message (e : PatternError) : String :=
  "Pattern syntax error near position " ++ toString e.position ++ ": " ++
    match e.fault with
    | .wildcards => "wildcards are either regular `*` or recursive `**`"
    | .recursive => "recursive wildcards must form a single path component"
    | .range => "invalid range pattern"

/-- The ranges between brackets; a dash between two characters makes a range. -/
def setRanges : List Char → List (Char × Char)
  | a :: '-' :: b :: rest => (a, b) :: setRanges rest
  | a :: rest => (a, a) :: setRanges rest
  | [] => []

/-- The set after an opening bracket, and how many characters it and its bracket take. -/
def readSet (cs : List Char) : Option (Token × Nat) :=
  let close (from_ : Nat) : Option Nat :=
    let body := cs.drop from_
    let n := (body.takeWhile (· ≠ ']')).length
    if n < body.length then some n else none
  match cs with
  | '!' :: _ :: _ :: _ =>
    (close 2).map fun n => (.except (setRanges ((cs.drop 1).take (n + 1))), n + 3)
  | '!' :: _ => none
  | _ :: _ :: _ => (close 1).map fun n => (.within (setRanges (cs.take (n + 1))), n + 2)
  | _ => none

/-- Reads a pattern from position `i`, `prev` being the character before it. -/
def readTokens : Nat → Nat → Option Char → List Char → Except PatternError (List Token)
  | 0, _, _, _ => .ok []
  | fuel + 1, i, prev, cs =>
    match cs with
    | [] => .ok []
    | '?' :: rest => (readTokens fuel (i + 1) (some '?') rest).map (.anyChar :: ·)
    | '*' :: tail =>
      let stars := 1 + (tail.takeWhile (· = '*')).length
      let rest := cs.drop stars
      if 2 < stars then .error ⟨i + 2, .wildcards⟩
      else if stars = 1 then (readTokens fuel (i + 1) (some '*') rest).map (.anySequence :: ·)
      else if prev.isNone || prev = some '/' then
        match rest with
        | [] => .ok [.directories]
        | '/' :: more => (readTokens fuel (i + 3) (some '/') more).map (.directories :: ·)
        | _ => .error ⟨i + 2, .recursive⟩
      else .error ⟨i - 1, .recursive⟩
    | '[' :: rest =>
      match readSet rest with
      | some (t, n) => (readTokens fuel (i + 1 + n) (some ']') (rest.drop n)).map (t :: ·)
      | none => .error ⟨i, .range⟩
    | c :: rest => (readTokens fuel (i + 1) (some c) rest).map (.char c :: ·)

def parse (cs : List Char) : Except PatternError (List Token) :=
  readTokens (cs.length + 1) 0 none cs

def inRange (c : Char) (r : Char × Char) : Bool :=
  decide (r.1.toNat ≤ c.toNat ∧ c.toNat ≤ r.2.toNat)

/-- Whether the pattern of a component matches a whole name. -/
def matchesName : List Token → List Char → Bool
  | [], cs => cs.isEmpty
  | .anySequence :: ts, [] => matchesName ts []
  | .anySequence :: ts, c :: cs => matchesName ts (c :: cs) || matchesName (.anySequence :: ts) cs
  | .directories :: ts, cs => matchesName ts cs
  | .char d :: ts, c :: cs => c == d && matchesName ts cs
  | .anyChar :: ts, _ :: cs => matchesName ts cs
  | .within rs :: ts, c :: cs => rs.any (inRange c) && matchesName ts cs
  | .except rs :: ts, c :: cs => !rs.any (inRange c) && matchesName ts cs
  | _ :: _, [] => false
termination_by ts cs => ts.length + cs.length

def plainText? : List Token → Option (List Char)
  | [] => some []
  | .char c :: rest => (plainText? rest).map (c :: ·)
  | _ :: _ => none

def isDirectories (ts : List Token) : Bool := ts.contains .directories

/-- The paths below `path` that the components match. `"."` as a start is left out of the paths.
A run of `**` components goes through all directories below. -/
def search (t : FileTree) : Nat → String → List (List Token) → List String
  | 0, _, _ => []
  | _, path, [] => [path]
  | fuel + 1, path, ts :: rest =>
    let under (name : String) : String := if path = "." then name else Path.join path name
    match plainText? ts with
    | some cs =>
      let next := under (String.ofList cs)
      let special := cs = ['.'] || cs = ['.', '.']
      if (special && t.isDirectory path) || (!special && t.exists? next) then
        search t fuel next rest
      else []
    | none =>
      if !t.isDirectory path then []
      else if isDirectories ts then
        let later := rest.dropWhile isDirectories
        (t.childrenOf path).flatMap fun name =>
          let next := under name
          let here := match later with
            | [] => if t.isDirectory next then [next] else []
            | first :: others =>
              if matchesName first name.toList then search t fuel next others else []
          here ++ if t.isDirectory next then search t fuel next (ts :: later) else []
      else
        let specials : List (List Char) :=
          if ts.head? = some (.char '.') then [['.'], ['.', '.']] else []
        ((t.childrenOf path).filter fun name => matchesName ts name.toList).flatMap
            (fun name => search t fuel (under name) rest) ++
          (specials.filter (matchesName ts)).flatMap
            fun cs => search t fuel (Path.join path (String.ofList cs)) rest

/-- All paths that a pattern matches. A pattern is checked as a whole and then by components. -/
def paths (t : FileTree) (pattern : String) : Except PatternError (List String) := do
  let cs := pattern.toList
  let _ ← parse cs
  let absolute := Path.isAbsolute pattern
  let body := if absolute then cs.drop 1 else cs
  let parts := Path.splitAt '/' body
  let parts := if parts.getLast? = some [] then parts.dropLast else parts
  let components ← parts.mapM parse
  let components := if absolute && body.isEmpty then [[]] else components
  if components.isEmpty then return []
  let fuel := components.length + t.entries.length + 1
  let found := search t fuel (if absolute then "/" else ".") components
  if cs.getLast? = some '/' then return found.filter t.isDirectory
  return found

end Glob

end SchemaAssembly
