/-!
Finite binary64 numbers in exact integer arithmetic. Every number has one canonical form, so
structural equality tells `0.0` and `-0.0` apart, and the order is that of the real values.
Results outside the finite range are `none`.
-/

set_option autoImplicit false

namespace SchemaAssembly

/-- The finite number `±significand * 2 ^ exponent`; the significand is below `2 ^ 53`, and at
least `2 ^ 52` unless the exponent is the smallest. -/
structure Binary64 where
  negative : Bool
  significand : Nat
  exponent : Int
  canonical : significand < 0x20000000000000 ∧ -1074 ≤ exponent ∧ exponent ≤ 971 ∧
    (0x10000000000000 ≤ significand ∨ exponent = -1074)
  deriving DecidableEq

/-- The nearest integer to `num / den`, a half going to the even neighbour. -/
def roundHalfEven (num den : Nat) : Nat :=
  let k := num / den
  let twice := 2 * (num % den)
  if twice < den then k
  else if den < twice then k + 1
  else if k % 2 = 0 then k else k + 1

namespace Binary64

def zero (negative : Bool) : Binary64 :=
  ⟨negative, 0, -1074, by decide⟩

instance : Inhabited Binary64 := ⟨zero false⟩

def isZero (x : Binary64) : Bool := x.significand == 0

/-- Builds the number when the three parts are in canonical form. -/
def ofParts? (negative : Bool) (significand : Nat) (exponent : Int) : Option Binary64 :=
  if h : significand < 0x20000000000000 ∧ -1074 ≤ exponent ∧ exponent ≤ 971 ∧
      (0x10000000000000 ≤ significand ∨ exponent = -1074) then
    some ⟨negative, significand, exponent, h⟩
  else none

/-- `num / den / 2 ^ exponent` as a pair of naturals. -/
def scaleRatio (num den : Nat) (exponent : Int) : Nat × Nat :=
  if 0 ≤ exponent then (num, den * Nat.pow 2 exponent.toNat)
  else (num * Nat.pow 2 (-exponent).toNat, den)

/-- The number nearest to `±num / den`, ties to the even significand. -/
def ofRatio? (negative : Bool) (num den : Nat) : Option Binary64 :=
  if num = 0 then some (zero negative)
  else
    let guess : Int := (num.log2 : Int) - (den.log2 : Int) - 53
    let low : Int := if guess < -1074 then -1074 else guess
    let (n, d) := scaleRatio num den low
    let e := if 0x20000000000000 ≤ n / d then low + 1 else low
    let (n, d) := scaleRatio num den e
    let m := roundHalfEven n d
    if m = 0x20000000000000 then ofParts? negative 0x10000000000000 (e + 1)
    else ofParts? negative m e

/-- The magnitude as a pair numerator, denominator. -/
def ratio (x : Binary64) : Nat × Nat :=
  if 0 ≤ x.exponent then (x.significand * Nat.pow 2 x.exponent.toNat, 1)
  else (x.significand, Nat.pow 2 (-x.exponent).toNat)

/-- The nearest number to a natural number below `2 ^ 1024`. -/
def ofNat? (n : Nat) : Option Binary64 := ofRatio? false n 1

/-- The nearest number to an integer; integers beyond the range give zero. -/
def ofInt (n : Int) : Binary64 :=
  (ofRatio? (decide (n < 0)) n.natAbs 1).getD (zero false)

def mul? (x y : Binary64) : Option Binary64 :=
  let (a, b) := x.ratio
  let (c, d) := y.ratio
  ofRatio? (xor x.negative y.negative) (a * c) (b * d)

def div? (x y : Binary64) : Option Binary64 :=
  let (a, b) := x.ratio
  let (c, d) := y.ratio
  if c = 0 then none else ofRatio? (xor x.negative y.negative) (a * d) (b * c)

def neg (x : Binary64) : Binary64 := { x with negative := !x.negative }

/-- The value in units of the smallest positive number. -/
def units (x : Binary64) : Int :=
  let magnitude : Int := Int.ofNat (x.significand * Nat.pow 2 (x.exponent + 1074).toNat)
  if x.negative then -magnitude else magnitude

/-- The order of the real values: the two zeros are equal. -/
def lt (x y : Binary64) : Bool := decide (x.units < y.units)

end Binary64

end SchemaAssembly
