import SchemaAssembly.Number.Binary64

/-!
Number literals `-?(0|[1-9][0-9]*)(.[0-9]+)?([eE][+-]?[0-9]+)?`. A literal without fraction and
exponent that fits 64 bits is an integer. Any other is a binary64 number made from its leading
digits, as many as fit 64 bits, and a power of ten, each step rounded to nearest.
-/

set_option autoImplicit false

namespace SchemaAssembly

inductive Numeral where
  | int (n : Int)
  | float (x : Binary64)
  deriving DecidableEq

/-- The parts of a literal; an absent fraction is empty. -/
structure NumberLiteral where
  negative : Bool
  whole : List Char
  fraction : List Char
  exponent : Option (Bool × List Char)
  deriving DecidableEq

def digitValue (c : Char) : Nat := c.toNat - '0'.toNat

/-- Reads digits into an accumulator as long as it stays below `2 ^ 64`; gives the accumulator,
the number of digits taken and the digits left. -/
def takeDigits (acc taken : Nat) : List Char → Nat × Nat × List Char
  | [] => (acc, taken, [])
  | c :: rest =>
    let next := acc * 10 + digitValue c
    if next < 0x10000000000000000 then takeDigits next (taken + 1) rest
    else (acc, taken, c :: rest)

/-- The value of a decimal digit text of any length. -/
def decimalValue (ds : List Char) : Nat := ds.foldl (fun n c => n * 10 + digitValue c) 0

namespace Binary64

/-- Scales by `10 ^ exponent` in binary64 steps, at most 308 powers at a time; `none` is a result
beyond the finite range. -/
def scaleByTen (x : Binary64) (exponent : Int) : Nat → Option Binary64
  | 0 => some (zero x.negative)
  | fuel + 1 =>
    if x.isZero then some x
    else if exponent.natAbs ≤ 308 then
      match ofNat? (Nat.pow 10 exponent.natAbs) with
      | none => none
      | some p => if 0 ≤ exponent then x.mul? p else x.div? p
    else if 0 ≤ exponent then none
    else
      match ofNat? (Nat.pow 10 308) with
      | none => none
      | some p =>
        match x.div? p with
        | none => none
        | some y => scaleByTen y (exponent + 308) fuel

/-- The number for a 64-bit significand and a power of ten. -/
def ofDecimal? (negative : Bool) (significand : Nat) (exponent : Int) : Option Binary64 :=
  match ofRatio? negative significand 1 with
  | none => none
  | some x => scaleByTen x exponent 5

end Binary64

namespace NumberLiteral

def read? (cs : List Char) : Option (NumberLiteral × List Char) :=
  let (negative, cs) := match cs with
    | '-' :: rest => (true, rest)
    | _ => (false, cs)
  let whole := match cs with
    | '0' :: _ => ['0']
    | _ => cs.takeWhile Char.isDigit
  if whole.isEmpty then none
  else
    let afterWhole := cs.drop whole.length
    let (fraction, afterFraction) := match afterWhole with
      | '.' :: rest =>
        let ds := rest.takeWhile Char.isDigit
        if ds.isEmpty then ([], afterWhole) else (ds, rest.drop ds.length)
      | _ => ([], afterWhole)
    let (exponent, rest) := match afterFraction with
      | 'e' :: rest | 'E' :: rest =>
        let (down, tail) := match rest with
          | '-' :: t => (true, t)
          | '+' :: t => (false, t)
          | t => (false, t)
        let ds := tail.takeWhile Char.isDigit
        if ds.isEmpty then (none, afterFraction) else (some (down, ds), tail.drop ds.length)
      | _ => (none, afterFraction)
    some (⟨negative, whole, fraction, exponent⟩, rest)

/-- The exponent as an integer, kept within 32 bits by the caller's rule. -/
def exponentValue : Option (Bool × List Char) → Int
  | none => 0
  | some (down, ds) => if down then -(decimalValue ds : Int) else decimalValue ds

def exponentTooLong : Option (Bool × List Char) → Bool
  | none => false
  | some (_, ds) => decide (0x80000000 ≤ decimalValue ds)

/-- The value, or `none` when it is beyond the finite binary64 range. -/
def value? (l : NumberLiteral) : Option Numeral :=
  let (significand, _, left) := takeDigits 0 0 l.whole
  if l.fraction.isEmpty && l.exponent.isNone && left.isEmpty then
    if !l.negative then some (.int significand)
    else if significand = 0 ∨ 0x8000000000000000 < significand then
      (Binary64.ofRatio? true significand 1).map .float
    else some (.int (-(significand : Int)))
  else
    let (significand, taken, _) := takeDigits significand 0 l.fraction
    if exponentTooLong l.exponent then
      match l.exponent with
      | some (false, _) => if significand = 0 then some (.float (.zero l.negative)) else none
      | _ => some (.float (.zero l.negative))
    else
      let exponent := (left.length : Int) - (taken : Int) + exponentValue l.exponent
      (Binary64.ofDecimal? l.negative significand exponent).map .float

end NumberLiteral

end SchemaAssembly
