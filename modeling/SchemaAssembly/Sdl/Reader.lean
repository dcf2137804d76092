import SchemaAssembly.Error.Configuration
import SchemaAssembly.Sdl.Lexeme

/-!
Readers of schema texts by ordered choice: a choice is taken for good once it succeeds, and a
repetition takes all it can. A reader reports the furthest place where it was refused a lexeme;
for a text that does not match, no continuation was possible there.
-/

set_option autoImplicit false

namespace SchemaAssembly

namespace Sdl

/-- A place in a text, with the faults found in what was read so far, the latest first. -/
structure Cursor where
  rest : List Char
  offset : Nat
  faults : List (Nat × FragmentFault)

/-- What a reader found, and the furthest offset at which a lexeme was refused. -/
structure Outcome (α : Type) where
  result : Option (α × Cursor)
  reach : Nat

def Reader (α : Type) := Cursor → Outcome α

namespace Reader

variable {α β : Type}

def found (a : α) : Reader α := fun c => ⟨some (a, c), 0⟩

def andThen (p : Reader α) (f : α → Reader β) : Reader β := fun c =>
  match p c with
  | ⟨none, reach⟩ => ⟨none, reach⟩
  | ⟨some (a, d), reach⟩ =>
    let o := f a d
    ⟨o.result, Nat.max reach o.reach⟩

instance : Monad Reader where
  pure := found
  bind := andThen

/-- The first of two readers that succeeds. -/
def or (p q : Reader α) : Reader α := fun c =>
  match p c with
  | ⟨some r, reach⟩ => ⟨some r, reach⟩
  | ⟨none, reach⟩ =>
    let o := q c
    ⟨o.result, Nat.max reach o.reach⟩

def firstOf : List (Reader α) → Reader α
  | [] => fun _ => ⟨none, 0⟩
  | p :: rest => p.or (firstOf rest)

def optional (p : Reader α) : Reader (Option α) := fun c =>
  match p c with
  | ⟨some (a, d), reach⟩ => ⟨some (some a, d), reach⟩
  | ⟨none, reach⟩ => ⟨some (none, c), reach⟩

def atMost (p : Reader α) : Nat → Reader (List α)
  | 0 => found []
  | n + 1 => fun c =>
    match p c with
    | ⟨none, reach⟩ => ⟨some ([], c), reach⟩
    | ⟨some (a, d), reach⟩ =>
      let o := atMost p n d
      ⟨o.result.map fun (as, e) => (a :: as, e), Nat.max reach o.reach⟩

/-- As many as there are; every success takes at least one character. -/
def many (p : Reader α) : Reader (List α) := fun c => atMost p c.rest.length c

def many1 (p : Reader α) : Reader (List α) := do
  let first ← p
  let rest ← many p
  return first :: rest

/-- One lexeme after blanks and comments, with the offset where it starts. -/
def lexemeAt (read : List Char → Option (α × List Char)) : Reader (Nat × α) := fun c =>
  let cs := skipIgnored c.rest
  let start := c.offset + (c.rest.length - cs.length)
  match read cs with
  | none => ⟨none, start⟩
  | some (a, rest) =>
    ⟨some ((start, a), { c with rest := rest, offset := start + (cs.length - rest.length) }), 0⟩

def lexeme (read : List Char → Option (α × List Char)) : Reader α := do
  let (_, a) ← lexemeAt read
  return a

def word (w : String) : Reader Unit := lexeme (readWord w.toList)

def here : Reader Nat := fun c =>
  ⟨some (c.offset + (c.rest.length - (skipIgnored c.rest).length), c), 0⟩

/-- Notes a fault that leaves the text well formed. -/
def fault (offset : Nat) (f : FragmentFault) : Reader Unit := fun c =>
  ⟨some ((), { c with faults := (offset, f) :: c.faults }), 0⟩

def atEnd : Reader Unit := lexeme fun cs => if cs.isEmpty then some ((), cs) else none

end Reader

end Sdl

/-- The place of an offset; a carriage return goes back to the first column of its line. -/
def Position.ofOffset (cs : List Char) (offset : Nat) : Position :=
  (cs.take offset).foldl
    (fun p c =>
      if c = '\n' then ⟨p.line + 1, 1⟩
      else if c = '\r' then ⟨p.line, 1⟩
      else ⟨p.line, p.column + 1⟩)
    ⟨1, 1⟩

/-- The place of an offset when only line feeds end a line. -/
def Position.byLineFeeds : List Char → Nat → Position → Position
  | _, 0, p => p
  | [], _, p => p
  | '\r' :: '\n' :: rest, n + 1, p =>
    if n = 0 then ⟨p.line + 1, 1⟩ else byLineFeeds rest (n - 1) ⟨p.line + 1, 1⟩
  | c :: rest, n + 1, p =>
    byLineFeeds rest n (if c = '\n' then ⟨p.line + 1, 1⟩ else ⟨p.line, p.column + 1⟩)

end SchemaAssembly
