import SchemaAssembly.Number.Binary64

/-!
Decimal text of binary64 numbers: the fewest digits that read back to the same number, nearest to
it among those, laid out as a `Layout` says. The digits do not depend on the layout but for ties.
-/

set_option autoImplicit false

namespace SchemaAssembly

structure Decimal where
  digits : Nat
  exponent : Int
  deriving DecidableEq

/-- Which of two equally near candidates is taken. -/
inductive TieRule
  | toEven
  | up
  deriving DecidableEq

/-- `a * 2 ^ p * 10 ^ t` compared in one scale: numerator and denominator. -/
def scaleDecimal (a : Nat) (p t : Int) : Nat × Nat :=
  let num := a * Nat.pow 2 p.toNat * Nat.pow 10 t.toNat
  let den := Nat.pow 2 (-p).toNat * Nat.pow 10 (-t).toNat
  (num, den)

namespace Binary64

/-- The bounds of the reals that round to the number, as quarters of its last place:
below, above, and whether the bounds themselves round to it. -/
def interval (x : Binary64) : Nat × Nat × Bool :=
  let m := x.significand
  let below := if m = 0x10000000000000 ∧ -1074 < x.exponent then 1 else 2
  (4 * m - below, 4 * m + 2, m % 2 = 0)

/-- The decimal exponent `e` with `10 ^ e ≤ |x| < 10 ^ (e + 1)`, for a number other than zero. -/
def decimalExponent (x : Binary64) : Int :=
  let (num, den) := x.ratio
  let whole := num / den
  if whole ≠ 0 then ((Nat.toDigits 10 whole).length : Int) - 1
  else
    let k := (Nat.toDigits 10 (den / num)).length
    if den ≤ num * Nat.pow 10 (k - 1) then -((k : Int) - 1) else -(k : Int)

/-- The multiple of `10 ^ grid` that reads back to the number and is nearest to it, if any. -/
def onGrid? (tie : TieRule) (x : Binary64) (grid : Int) : Option Nat :=
  let (low, high, closed) := x.interval
  let (v, d) := scaleDecimal (4 * x.significand) (x.exponent - 2) (-grid)
  let (lo, _) := scaleDecimal low (x.exponent - 2) (-grid)
  let (hi, _) := scaleDecimal high (x.exponent - 2) (-grid)
  let inside (k : Nat) : Bool :=
    let p := k * d
    if closed then decide (lo ≤ p ∧ p ≤ hi) else decide (lo < p ∧ p < hi)
  let k := v / d
  let twice := 2 * (v % d)
  let upFirst :=
    if twice < d then false
    else if d < twice then true
    else match tie with
      | .up => true
      | .toEven => k % 2 = 1
  let (near, far) := if upFirst then (k + 1, k) else (k, k + 1)
  if inside near then some near else if inside far then some far else none

/-- Tries grids of more and more digits; seventeen always suffice. -/
def shortestFrom (tie : TieRule) (x : Binary64) (top : Int) : Nat → Nat → Decimal
  | _, 0 => ⟨0, 0⟩
  | count, more + 1 =>
    let grid := top - (count : Int)
    match x.onGrid? tie grid with
    | some k => ⟨k, grid⟩
    | none => shortestFrom tie x top (count + 1) more

def trimZeros : Nat → Decimal → Decimal
  | 0, d => d
  | fuel + 1, d =>
    if d.digits ≠ 0 ∧ d.digits % 10 = 0 then trimZeros fuel ⟨d.digits / 10, d.exponent + 1⟩ else d

/-- The fewest decimal digits that read back as the magnitude of `x`. -/
def shortest (tie : TieRule) (x : Binary64) : Decimal :=
  if x.isZero then ⟨0, 0⟩
  else trimZeros 20 (shortestFrom tie x x.decimalExponent 0 18)

end Binary64

/-- How a decimal is written. `positional` bounds the exponents of the leading digit that are
written without an exponent mark; `none` means always. -/
structure Layout where
  tie : TieRule
  positional : Option (Int × Int)
  fraction : Bool

/-- JSON numbers: plain notation from `1e-5` up to below `1e16`, always with a fraction. -/
def Layout.json : Layout := ⟨.toEven, some (-5, 16), true⟩

/-- Plain notation at any size, a whole number without a fraction. -/
def Layout.plain : Layout := ⟨.up, none, false⟩

/-- Digits with a point: `exponent` is the weight of the last digit. -/
def positionalText (fraction : Bool) (d : Decimal) : String :=
  let ds := Nat.toDigits 10 d.digits
  if 0 ≤ d.exponent then
    String.ofList (ds ++ List.replicate (if d.digits = 0 then 0 else d.exponent.toNat) '0') ++
      (if fraction then ".0" else "")
  else
    let places := (-d.exponent).toNat
    let padded := List.replicate (places + 1 - ds.length) '0' ++ ds
    let whole := padded.length - places
    String.ofList (padded.take whole ++ '.' :: padded.drop whole)

/-- One digit before the point and a signed exponent. -/
def scientificText (d : Decimal) : String :=
  let ds := Nat.toDigits 10 d.digits
  let e := d.exponent + (ds.length : Int) - 1
  let mark := "e" ++ (if e < 0 then "-" else "+") ++ toString e.natAbs
  match ds with
  | [] => mark
  | [c] => String.ofList [c] ++ mark
  | c :: rest => String.ofList (c :: '.' :: rest) ++ mark

def Layout.text (layout : Layout) (x : Binary64) : String :=
  let d := x.shortest layout.tie
  let lead := d.exponent + ((Nat.toDigits 10 d.digits).length : Int) - 1
  let plain := x.isZero || match layout.positional with
    | none => true
    | some (low, high) => decide (low ≤ lead ∧ lead < high)
  (if x.negative then "-" else "") ++
    (if plain then positionalText layout.fraction d else scientificText d)

end SchemaAssembly
