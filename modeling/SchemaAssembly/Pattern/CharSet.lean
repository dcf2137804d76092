import SchemaAssembly.Text.Blank
import SchemaAssembly.Text.LetterCase

/-!
Sets of characters as patterns describe them, and membership of a code point.
-/

set_option autoImplicit false

namespace SchemaAssembly

inductive CharSet where
  | ranges (rs : List (Nat × Nat))
  | category (c : Category)
  | complement (a : CharSet)
  | union (a b : CharSet)
  | intersection (a b : CharSet)
  | difference (a b : CharSet)
  | symmetricDifference (a b : CharSet)
  /-- All characters that differ from one in the set at most in case. -/
  | folded (a : CharSet)

/-- The code points with this folding. -/
def unfoldings (k : Nat) : List Nat :=
  k :: foldRuns.filterMap fun r =>
    let n := (Int.ofNat k - r.2.2.2).toNat
    if Nat.ble r.1 n && Nat.ble n r.2.1 && (n - r.1) % r.2.2.1 == 0 then some n else none

namespace CharSet

def holds : CharSet → Nat → Bool
  | ranges rs, n => inRanges rs n
  | category c, n => c.holds n
  | complement a, n => !a.holds n
  | union a b, n => a.holds n || b.holds n
  | intersection a b, n => a.holds n && b.holds n
  | difference a b, n => a.holds n && !b.holds n
  | symmetricDifference a b, n => a.holds n != b.holds n
  | folded a, n => (unfoldings (foldCase n)).any a.holds

def empty : CharSet := ranges []

def single (n : Nat) : CharSet := ranges [(n, n)]

def range (low high : Nat) : CharSet := ranges [(low, high)]

def unionAll : List CharSet → CharSet
  | [] => empty
  | [a] => a
  | a :: rest => union a (unionAll rest)

def ofCategories (cs : List Category) : CharSet := unionAll (cs.map category)

def complementIf (negated : Bool) (a : CharSet) : CharSet := if negated then complement a else a

def letters : List Category :=
  [.uppercaseLetter, .lowercaseLetter, .titlecaseLetter, .modifierLetter, .otherLetter]

def marks : List Category := [.nonspacingMark, .spacingMark, .enclosingMark]

/-- Letters inside circles and squares, which are symbols by category. -/
def enclosedLetterRanges : List (Nat × Nat) := [
  (0x24b6, 0x24e9), (0x1f130, 0x1f149), (0x1f150, 0x1f169), (0x1f170, 0x1f189)]

def digits : CharSet := category .decimalNumber

def blanks : CharSet := ranges blankRanges

/-- The characters of words: letters, marks, digits, connecting punctuation and the two joiners. -/
def wordChars : CharSet :=
  union (ofCategories (letters ++ marks ++ [.decimalNumber, .letterNumber, .connectorPunctuation]))
    (ranges ((0x200c, 0x200d) :: enclosedLetterRanges))

/-- Letters and the numbers and symbols that stand for letters. -/
def alphabetic : CharSet :=
  union (ofCategories (letters ++ [.letterNumber])) (ranges enclosedLetterRanges)

def asciiDigits : CharSet := range 0x30 0x39

def asciiBlanks : CharSet := ranges [(0x9, 0xd), (0x20, 0x20)]

def asciiWordChars : CharSet := ranges [(0x30, 0x39), (0x41, 0x5a), (0x5f, 0x5f), (0x61, 0x7a)]

def asciiClass? : String → Option CharSet
  | "alnum" => some (ranges [(0x30, 0x39), (0x41, 0x5a), (0x61, 0x7a)])
  | "alpha" => some (ranges [(0x41, 0x5a), (0x61, 0x7a)])
  | "ascii" => some (range 0 0x7f)
  | "blank" => some (ranges [(0x9, 0x9), (0x20, 0x20)])
  | "cntrl" => some (ranges [(0, 0x1f), (0x7f, 0x7f)])
  | "digit" => some asciiDigits
  | "graph" => some (range 0x21 0x7e)
  | "lower" => some (range 0x61 0x7a)
  | "print" => some (range 0x20 0x7e)
  | "punct" => some (ranges [(0x21, 0x2f), (0x3a, 0x40), (0x5b, 0x60), (0x7b, 0x7e)])
  | "space" => some asciiBlanks
  | "upper" => some (range 0x41 0x5a)
  | "word" => some asciiWordChars
  | "xdigit" => some (ranges [(0x30, 0x39), (0x41, 0x46), (0x61, 0x66)])
  | _ => none

/-- A rough count of the bytes that a matching automaton needs for the set. -/
def weight : CharSet → Nat
  | ranges rs => if rs.all fun r => Nat.ble r.2 0x7f then 32 + 8 * rs.length else 200 * rs.length
  | category c => 40 * (c.ranges.length + 1)
  | complement a => a.weight + 400
  | union a b | intersection a b | difference a b | symmetricDifference a b => a.weight + b.weight
  | folded a => 2 * a.weight

end CharSet

end SchemaAssembly
