import SchemaAssembly.Pattern.CharSet

/-!
Patterns over texts, and whether one is found in a text. Matching keeps the set of positions that
can be reached, one truth value for each position from before the first character to after the
last.
-/

set_option autoImplicit false

namespace SchemaAssembly

/-- A condition on the characters before and after a position. -/
inductive Assertion where
  | startText
  | endText
  | startLine
  | endLine
  /-- Lines end with a carriage return, a line feed or both. -/
  | startAnyLine
  | endAnyLine
  | boundary (word : CharSet)
  | noBoundary (word : CharSet)
  | wordStart (word : CharSet)
  | wordEnd (word : CharSet)
  | noWordBefore (word : CharSet)
  | noWordAfter (word : CharSet)

inductive Pattern where
  | empty
  | char (set : CharSet)
  | look (a : Assertion)
  | seq (p q : Pattern)
  | alt (p q : Pattern)
  /-- At least `least` times, and at most `most` times if that is given. -/
  | repeated (p : Pattern) (least : Nat) (most : Option Nat)

structure Surroundings where
  before : Option Char
  after : Option Char

def inSet (set : CharSet) : Option Char → Bool
  | none => false
  | some c => set.holds c.toNat

def Assertion.holds (s : Surroundings) : Assertion → Bool
  | startText => s.before.isNone
  | endText => s.after.isNone
  | startLine => s.before.isNone || s.before == some '\n'
  | endLine => s.after.isNone || s.after == some '\n'
  | startAnyLine =>
    s.before.isNone || s.before == some '\n' || (s.before == some '\r' && s.after != some '\n')
  | endAnyLine =>
    s.after.isNone || s.after == some '\r' || (s.after == some '\n' && s.before != some '\r')
  | boundary w => inSet w s.before != inSet w s.after
  | noBoundary w => inSet w s.before == inSet w s.after
  | wordStart w => !inSet w s.before && inSet w s.after
  | wordEnd w => inSet w s.before && !inSet w s.after
  | noWordBefore w => !inSet w s.before
  | noWordAfter w => !inSet w s.after

def surroundings (before : Option Char) : List Char → List Surroundings
  | [] => [⟨before, none⟩]
  | c :: rest => ⟨before, some c⟩ :: surroundings (some c) rest

/-- One truth value for each position. -/
abbrev Reached := List Bool

def eitherReached (a b : Reached) : Reached := List.zipWith or a b

def iterate (f : Reached → Reached) : Nat → Reached → Reached
  | 0, m => m
  | n + 1, m => iterate f n (f m)

/-- What is reached by up to so many steps. -/
def reachedWithin (f : Reached → Reached) : Nat → Reached → Reached
  | 0, m => m
  | n + 1, m => reachedWithin f n (eitherReached m (f m))

namespace Pattern

/-- The positions reached by the pattern from the given ones. More steps than there are positions
reach nothing new. -/
def advance (text : List Surroundings) : Pattern → Reached → Reached
  | empty, m => m
  | char set, m => false :: (List.zipWith (fun s b => b && inSet set s.after) text m).dropLast
  | look a, m => List.zipWith (fun s b => b && a.holds s) text m
  | seq p q, m => q.advance text (p.advance text m)
  | alt p q, m => eitherReached (p.advance text m) (q.advance text m)
  | repeated p least most, m =>
    let more := match most with
      | none => text.length
      | some most => if most - least < text.length then most - least else text.length
    reachedWithin (p.advance text) more (iterate (p.advance text) least m)

def isFoundIn (p : Pattern) (s : String) : Bool :=
  let text := surroundings none s.toList
  (p.advance text (text.map fun _ => true)).any id

/-- A rough count of the bytes that a matching automaton needs. -/
def weight : Pattern → Nat
  | empty | look _ => 32
  | char set => set.weight
  | seq p q => p.weight + q.weight
  | alt p q => p.weight + q.weight + 64
  | repeated p least none => p.weight * (least + 1) + 64
  | repeated p least (some most) => p.weight * least + (p.weight + 64) * (most - least)

/-- Patterns that need more are refused. -/
def weightLimit : Nat := 10485760

end Pattern

end SchemaAssembly
