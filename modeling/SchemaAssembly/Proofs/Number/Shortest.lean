import Mathlib.Algebra.Order.Field.Power
import Mathlib.Algebra.Order.Field.Rat
import Mathlib.Tactic.FieldSimp
import Mathlib.Tactic.Linarith
import Mathlib.Tactic.Positivity
import Mathlib.Tactic.Ring
import SchemaAssembly.Number.Decimal

/-!
The shortest decimal of a binary number. It lies in the interval that reads back as the number, and
no other number reads back from there, so a number is determined by its shortest decimal.
-/

set_option autoImplicit false

namespace SchemaAssembly

def Decimal.value (d : Decimal) : ℚ := d.digits * 10 ^ d.exponent

theorem zpow_mul_pow_toNat {b : ℚ} (hb : b ≠ 0) (p : Int) :
    b ^ p * b ^ (-p).toNat = b ^ p.toNat := by
  rw [← zpow_natCast, ← zpow_natCast, ← zpow_add₀ hb]
  congr 1
  omega

theorem scaleDecimal_den_pos (a : Nat) (p t : Int) : 0 < (scaleDecimal a p t).2 :=
  Nat.mul_pos (Nat.pow_pos (by decide)) (Nat.pow_pos (by decide))

theorem scaleDecimal_ratio (a : Nat) (p t : Int) :
    ((scaleDecimal a p t).1 : ℚ) = a * 2 ^ p * 10 ^ t * (scaleDecimal a p t).2 := by
  have h₂ := zpow_mul_pow_toNat (b := 2) (by norm_num) p
  have h₁ := zpow_mul_pow_toNat (b := 10) (by norm_num) t
  simp only [scaleDecimal, Nat.cast_mul, Nat.pow_eq, Nat.cast_pow, Nat.cast_ofNat]
  rw [← h₁, ← h₂]
  ring

namespace Binary64

def magnitude (x : Binary64) : ℚ := x.significand * 2 ^ x.exponent

def quarter (x : Binary64) : ℚ := 2 ^ (x.exponent - 2)

/-- The rationals that round to the magnitude, a tie to the even significand. -/
def Reads (x : Binary64) (q : ℚ) : Prop :=
  if x.significand % 2 = 0 then x.interval.1 * x.quarter ≤ q ∧ q ≤ x.interval.2.1 * x.quarter
  else x.interval.1 * x.quarter < q ∧ q < x.interval.2.1 * x.quarter

/-- Whether a multiple of `10 ^ grid` lies in the interval, in integers. -/
def onGridInside (x : Binary64) (grid : Int) (k : Nat) : Bool :=
  let d := (scaleDecimal (4 * x.significand) (x.exponent - 2) (-grid)).2
  let lo := (scaleDecimal x.interval.1 (x.exponent - 2) (-grid)).1
  let hi := (scaleDecimal x.interval.2.1 (x.exponent - 2) (-grid)).1
  if x.interval.2.2 then decide (lo ≤ k * d ∧ k * d ≤ hi) else decide (lo < k * d ∧ k * d < hi)

def onGridFloor (x : Binary64) (grid : Int) : Nat :=
  let v := scaleDecimal (4 * x.significand) (x.exponent - 2) (-grid)
  v.1 / v.2

theorem onGrid?_eq (tie : TieRule) (x : Binary64) (grid : Int) :
    ∃ near far, (near = x.onGridFloor grid ∨ far = x.onGridFloor grid) ∧
      x.onGrid? tie grid =
        if x.onGridInside grid near then some near
        else if x.onGridInside grid far then some far else none := by
  simp only [onGrid?]
  generalize (if _ < (_ : Nat) then false else _ : Bool) = upFirst
  cases upFirst with
  | false => exact ⟨_, _, .inl rfl, rfl⟩
  | true => exact ⟨_, _, .inr rfl, rfl⟩

theorem onGrid?_inside {tie : TieRule} {x : Binary64} {grid : Int} {k : Nat}
    (h : x.onGrid? tie grid = some k) : x.onGridInside grid k = true := by
  obtain ⟨near, far, -, he⟩ := onGrid?_eq tie x grid
  grind

theorem onGrid?_isSome {tie : TieRule} {x : Binary64} {grid : Int}
    (h : x.onGridInside grid (x.onGridFloor grid) = true) : (x.onGrid? tie grid).isSome := by
  obtain ⟨near, far, hk, he⟩ := onGrid?_eq tie x grid
  rw [he]
  rcases hk with rfl | rfl
  · simp [h]
  · split <;> rfl

theorem scaleDecimal_grid (x : Binary64) (grid : Int) (a : Nat) :
    ((scaleDecimal a (x.exponent - 2) (-grid)).1 : ℚ) =
      a * x.quarter / 10 ^ grid *
        (scaleDecimal (4 * x.significand) (x.exponent - 2) (-grid)).2 := by
  rw [scaleDecimal_ratio, zpow_neg, div_eq_mul_inv]
  rfl

theorem onGridInside_iff (x : Binary64) (grid : Int) (k : Nat) :
    x.onGridInside grid k = true ↔ x.Reads (k * 10 ^ grid) := by
  have ten : (0 : ℚ) < 10 ^ grid := by positivity
  have hd : (0 : ℚ) < (scaleDecimal (4 * x.significand) (x.exponent - 2) (-grid)).2 := by
    exact_mod_cast scaleDecimal_den_pos _ _ _
  have below (a : Nat) : (scaleDecimal a (x.exponent - 2) (-grid)).1 ≤
      k * (scaleDecimal (4 * x.significand) (x.exponent - 2) (-grid)).2 ↔
        a * x.quarter ≤ k * 10 ^ grid := by
    rw [← Nat.cast_le (α := ℚ), scaleDecimal_grid, Nat.cast_mul, mul_le_mul_iff_left₀ hd,
      div_le_iff₀ ten]
  have above (a : Nat) : k * (scaleDecimal (4 * x.significand) (x.exponent - 2) (-grid)).2 ≤
      (scaleDecimal a (x.exponent - 2) (-grid)).1 ↔ k * 10 ^ grid ≤ a * x.quarter := by
    rw [← Nat.cast_le (α := ℚ), scaleDecimal_grid, Nat.cast_mul, mul_le_mul_iff_left₀ hd,
      le_div_iff₀ ten]
  simp only [onGridInside, Reads, ← not_le, above, below]
  by_cases he : x.significand % 2 = 0 <;> simp [interval, he]

theorem magnitude_eq_quarters (x : Binary64) : x.magnitude = 4 * x.significand * x.quarter := by
  unfold magnitude quarter
  rw [zpow_sub₀ (by norm_num)]
  ring

theorem onGridFloor_bounds (x : Binary64) (grid : Int) :
    (x.onGridFloor grid : ℚ) * 10 ^ grid ≤ x.magnitude ∧
      x.magnitude < (x.onGridFloor grid + 1) * 10 ^ grid := by
  have ten : (0 : ℚ) < 10 ^ grid := by positivity
  have hv := scaleDecimal_grid x grid (4 * x.significand)
  have hd := scaleDecimal_den_pos (4 * x.significand) (x.exponent - 2) (-grid)
  have hle := Nat.div_mul_le_self (scaleDecimal (4 * x.significand) (x.exponent - 2) (-grid)).1
    (scaleDecimal (4 * x.significand) (x.exponent - 2) (-grid)).2
  have hlt := Nat.lt_mul_of_div_lt (Nat.lt_succ_self
    ((scaleDecimal (4 * x.significand) (x.exponent - 2) (-grid)).1 /
      (scaleDecimal (4 * x.significand) (x.exponent - 2) (-grid)).2)) hd
  rw [magnitude_eq_quarters]
  rw [Nat.cast_mul, Nat.cast_ofNat] at hv
  unfold onGridFloor
  dsimp only
  generalize (scaleDecimal (4 * x.significand) (x.exponent - 2) (-grid)) = v at *
  have hd' : (0 : ℚ) < v.2 := by exact_mod_cast hd
  have hle' : ((v.1 / v.2 : Nat) : ℚ) * v.2 ≤ v.1 := by exact_mod_cast hle
  have hlt' : (v.1 : ℚ) < ((v.1 / v.2 : Nat) + 1) * v.2 := by exact_mod_cast hlt
  rw [hv] at hle' hlt'
  constructor
  · exact (le_div_iff₀ ten).mp (le_of_mul_le_mul_right hle' hd')
  · exact (div_lt_iff₀ ten).mp (lt_of_mul_lt_mul_right hlt' hd'.le)

theorem quarter_pos (x : Binary64) : 0 < x.quarter := by
  unfold quarter
  positivity

theorem Reads.low_le {x : Binary64} {q : ℚ} (h : x.Reads q) : x.interval.1 * x.quarter ≤ q := by
  unfold Reads at h
  split at h
  · exact h.1
  · exact h.1.le

theorem Reads.le_high {x : Binary64} {q : ℚ} (h : x.Reads q) : q ≤ x.interval.2.1 * x.quarter := by
  unfold Reads at h
  split at h
  · exact h.2
  · exact h.2.le

theorem Reads.strict {x : Binary64} {q : ℚ} (h : x.Reads q) (odd : x.significand % 2 = 1) :
    x.interval.1 * x.quarter < q ∧ q < x.interval.2.1 * x.quarter := by
  unfold Reads at h
  rwa [if_neg (by omega)] at h

theorem interval_step {x y : Binary64} (hm : x.significand < y.significand) :
    x.interval.2.1 ≤ y.interval.1 := by
  simp only [interval]
  split <;> omega

theorem interval_jump {x y : Binary64} (he : x.exponent < y.exponent) :
    x.interval.2.1 ≤ 2 * y.interval.1 ∧
      (x.interval.2.1 = 2 * y.interval.1 → x.significand % 2 = 1) := by
  have hx := x.canonical
  have hy := y.canonical
  simp only [interval]
  split <;> omega

theorem quarter_jump {x y : Binary64} (he : x.exponent < y.exponent) :
    2 * x.quarter ≤ y.quarter := by
  have hp : (2 : ℚ) ^ (x.exponent - 1) ≤ 2 ^ (y.exponent - 2) :=
    zpow_le_zpow_right₀ (by norm_num) (by omega)
  have hs : (2 : ℚ) ^ (x.exponent - 1) = 2 * 2 ^ (x.exponent - 2) := by
    rw [← zpow_one_add₀ (by norm_num)]
    congr 1
    omega
  rwa [hs] at hp

/-- Intervals of numbers of the same exponent share at most a bound, which belongs to one. -/
theorem reads_step {x y : Binary64} {q : ℚ} (he : x.exponent = y.exponent)
    (hm : x.significand < y.significand) (hx : x.Reads q) : ¬ y.Reads q := by
  intro hy
  have hu := x.quarter_pos
  have hq : y.quarter = x.quarter := by rw [quarter, quarter, he]
  have hle : (x.interval.2.1 : ℚ) * x.quarter ≤ y.interval.1 * x.quarter :=
    mul_le_mul_of_nonneg_right (by exact_mod_cast interval_step hm) hu.le
  have hh := hx.le_high
  have hl := hy.low_le
  rw [hq] at hl
  by_cases ox : x.significand % 2 = 1
  · linarith [(hx.strict ox).2]
  · by_cases oy : y.significand % 2 = 1
    · have hs := (hy.strict oy).1
      rw [hq] at hs
      linarith
    · have hlt : x.interval.2.1 < y.interval.1 := by
        simp only [interval]
        split <;> omega
      have hlt' : (x.interval.2.1 : ℚ) * x.quarter < y.interval.1 * x.quarter :=
        mul_lt_mul_of_pos_right (by exact_mod_cast hlt) hu
      linarith

theorem reads_jump {x y : Binary64} {q : ℚ} (he : x.exponent < y.exponent)
    (hx : x.Reads q) : ¬ y.Reads q := by
  intro hy
  have hu := x.quarter_pos
  obtain ⟨hle, hodd⟩ := interval_jump he
  have hh := hx.le_high
  have hj : (y.interval.1 : ℚ) * (2 * x.quarter) ≤ y.interval.1 * y.quarter :=
    mul_le_mul_of_nonneg_left (quarter_jump he) (by positivity)
  have hl := hy.low_le
  -- The intervals meet only where the larger number is a power of two, and then the smaller one
  -- has an odd significand and leaves the bound to it.
  rcases hle.lt_or_eq with hlt | heq
  · have hc : (x.interval.2.1 : ℚ) < 2 * y.interval.1 := by exact_mod_cast hlt
    nlinarith
  · have hs := (hx.strict (hodd heq)).2
    have hc : (x.interval.2.1 : ℚ) = 2 * y.interval.1 := by exact_mod_cast heq
    rw [hc] at hs
    linarith

/-- A rational rounds to one magnitude only. -/
theorem Reads.unique {x y : Binary64} {q : ℚ} (hx : x.Reads q) (hy : y.Reads q) :
    x.significand = y.significand ∧ x.exponent = y.exponent := by
  rcases lt_trichotomy x.exponent y.exponent with he | he | he
  · exact absurd hy (reads_jump he hx)
  · rcases lt_trichotomy x.significand y.significand with hm | hm | hm
    · exact absurd hy (reads_step he hm hx)
    · exact ⟨hm, he⟩
    · exact absurd hx (reads_step he.symm hm hy)
  · exact absurd hx (reads_jump he hy)

theorem ratio_spec (x : Binary64) :
    0 < x.ratio.2 ∧ (x.ratio.1 : ℚ) = x.magnitude * x.ratio.2 := by
  unfold ratio magnitude
  have hs := zpow_mul_pow_toNat (b := 2) (by norm_num) x.exponent
  split
  · rename_i h
    have hz : (-x.exponent).toNat = 0 := by omega
    rw [hz, pow_zero, mul_one] at hs
    simp [Nat.pow_eq, hs]
  · rename_i h
    have hz : x.exponent.toNat = 0 := by omega
    rw [hz, pow_zero] at hs
    refine ⟨Nat.pow_pos (by decide), ?_⟩
    simp only [Nat.pow_eq, Nat.cast_pow, Nat.cast_ofNat, mul_assoc, hs, mul_one]

theorem pow_length_toDigits_le {n : Nat} (h : n ≠ 0) :
    10 ^ ((Nat.toDigits 10 n).length - 1) ≤ n := by
  by_contra hlt
  have hp := Nat.length_toDigits_pos (b := 10) (n := n)
  by_cases h1 : (Nat.toDigits 10 n).length - 1 = 0
  · rw [h1] at hlt
    omega
  · have hle := (Nat.length_toDigits_le_iff (by decide) (by omega)).mpr (not_le.mp hlt)
    omega

theorem lt_pow_length_toDigits (n : Nat) : n < 10 ^ (Nat.toDigits 10 n).length :=
  (Nat.length_toDigits_le_iff (by decide) Nat.length_toDigits_pos).mp le_rfl

theorem magnitude_pos {x : Binary64} (hx : x.significand ≠ 0) : 0 < x.magnitude := by
  unfold magnitude
  positivity

theorem ratio_num_pos {x : Binary64} (hx : x.significand ≠ 0) : 0 < x.ratio.1 := by
  obtain ⟨hd, hr⟩ := x.ratio_spec
  have hd' : (0 : ℚ) < x.ratio.2 := by exact_mod_cast hd
  have hn : (0 : ℚ) < x.ratio.1 := by
    rw [hr]
    exact mul_pos (magnitude_pos hx) hd'
  exact_mod_cast hn

theorem pow_neg_le_magnitude {x : Binary64} {k : Nat} (h : x.ratio.2 ≤ x.ratio.1 * 10 ^ k) :
    (10 : ℚ) ^ (-(k : Int)) ≤ x.magnitude := by
  obtain ⟨hd, hr⟩ := x.ratio_spec
  have hd' : (0 : ℚ) < x.ratio.2 := by exact_mod_cast hd
  have hq : (x.ratio.2 : ℚ) ≤ x.ratio.1 * 10 ^ k := by exact_mod_cast h
  rw [hr] at hq
  rw [zpow_neg, zpow_natCast, inv_le_iff_one_le_mul₀ (by positivity)]
  nlinarith

theorem pow_decimalExponent_le {x : Binary64} (hx : x.significand ≠ 0) :
    (10 : ℚ) ^ x.decimalExponent ≤ x.magnitude := by
  obtain ⟨hd, hr⟩ := x.ratio_spec
  have hd' : (0 : ℚ) < x.ratio.2 := by exact_mod_cast hd
  simp only [decimalExponent]
  split
  · rename_i hw
    have hle := pow_length_toDigits_le hw
    have hp := Nat.length_toDigits_pos (b := 10) (n := x.ratio.1 / x.ratio.2)
    have hmul := (Nat.le_div_iff_mul_le hd).mp hle
    have hq : (10 : ℚ) ^ ((Nat.toDigits 10 (x.ratio.1 / x.ratio.2)).length - 1) * x.ratio.2 ≤
        x.ratio.1 := by exact_mod_cast hmul
    rw [hr] at hq
    have he : ((Nat.toDigits 10 (x.ratio.1 / x.ratio.2)).length : Int) - 1 =
        ((Nat.toDigits 10 (x.ratio.1 / x.ratio.2)).length - 1 : Nat) := by omega
    rw [he, zpow_natCast]
    exact le_of_mul_le_mul_right hq hd'
  · split
    · rename_i hc
      have hp := Nat.length_toDigits_pos (b := 10) (n := x.ratio.2 / x.ratio.1)
      have h := pow_neg_le_magnitude hc
      rwa [show ((Nat.toDigits 10 (x.ratio.2 / x.ratio.1)).length : Int) - 1 =
        ((Nat.toDigits 10 (x.ratio.2 / x.ratio.1)).length - 1 : Nat) by omega]
    · apply pow_neg_le_magnitude
      have hlt := lt_pow_length_toDigits (x.ratio.2 / x.ratio.1)
      have := (Nat.div_lt_iff_lt_mul (ratio_num_pos hx)).mp hlt
      rw [Nat.mul_comm] at this
      exact this.le

theorem interval_width (x : Binary64) :
    x.interval.1 + 1 ≤ 4 * x.significand ∨ x.significand = 0 := by
  simp only [interval]
  split <;> omega

/-- Seventeen digits after the first leave less than a quarter of the last place. -/
theorem grid_lt_quarter {x : Binary64} (hx : x.significand ≠ 0) :
    (10 : ℚ) ^ (x.decimalExponent - 17) < x.quarter := by
  have hu := x.quarter_pos
  have hle := pow_decimalExponent_le hx
  have hlt : (x.significand : ℚ) < 0x20000000000000 := by exact_mod_cast x.canonical.1
  have hm : 4 * x.significand * x.quarter < 0x80000000000000 * x.quarter := by
    apply mul_lt_mul_of_pos_right _ hu
    linarith
  rw [magnitude_eq_quarters] at hle
  rw [zpow_sub₀ (by norm_num), div_lt_iff₀ (by positivity)]
  have hp : (10 : ℚ) ^ (17 : Int) = 100000000000000000 := by norm_num
  rw [hp]
  linarith

theorem onGrid?_fine {x : Binary64} (tie : TieRule) (hx : x.significand ≠ 0) :
    (x.onGrid? tie (x.decimalExponent - 17)).isSome := by
  -- On so fine a grid the multiple below the number is still in its interval.
  apply onGrid?_isSome
  rw [onGridInside_iff]
  obtain ⟨hle, hlt⟩ := x.onGridFloor_bounds (x.decimalExponent - 17)
  have hu := x.quarter_pos
  have hstep := grid_lt_quarter hx
  rw [magnitude_eq_quarters] at hle hlt
  have hlow : (x.interval.1 : ℚ) + 1 ≤ 4 * x.significand := by
    have h := x.interval_width
    exact_mod_cast h.resolve_right hx
  have hlow' : ((x.interval.1 : ℚ) + 1) * x.quarter ≤ 4 * x.significand * x.quarter :=
    mul_le_mul_of_nonneg_right hlow hu.le
  have hhigh : (x.interval.2.1 : ℚ) * x.quarter = 4 * x.significand * x.quarter + 2 * x.quarter := by
    simp only [interval]
    push_cast
    ring
  have hin : x.interval.1 * x.quarter < x.onGridFloor (x.decimalExponent - 17) *
        10 ^ (x.decimalExponent - 17) ∧
      x.onGridFloor (x.decimalExponent - 17) * 10 ^ (x.decimalExponent - 17) <
        x.interval.2.1 * x.quarter := by
    constructor <;> linarith
  unfold Reads
  split
  · exact ⟨hin.1.le, hin.2.le⟩
  · exact hin

theorem reads_shortestFrom {x : Binary64} {tie : TieRule} {top : Int} {last : Nat}
    (hlast : (x.onGrid? tie (top - last)).isSome) {count more : Nat} (h₁ : count ≤ last)
    (h₂ : last < count + more) : x.Reads (shortestFrom tie x top count more).value := by
  induction more generalizing count with
  | zero => omega
  | succ more ih =>
    simp only [shortestFrom]
    split
    · rename_i k hk
      exact (onGridInside_iff x _ k).mp (onGrid?_inside hk)
    · rename_i hn
      have hne : count ≠ last := by
        rintro rfl
        simp [hn] at hlast
      exact ih (by omega) (by omega)

theorem value_trimZeros (fuel : Nat) (d : Decimal) : (trimZeros fuel d).value = d.value := by
  induction fuel generalizing d with
  | zero => rfl
  | succ fuel ih =>
    simp only [trimZeros]
    split
    · rename_i h
      have hd : d.digits = d.digits / 10 * 10 := by omega
      rw [ih, Decimal.value, Decimal.value, zpow_add_one₀ (by norm_num)]
      conv_rhs => rw [hd]
      push_cast
      ring
    · rfl

/-- The printed decimal rounds to the number it was printed for. -/
theorem reads_shortest {x : Binary64} (tie : TieRule) (hx : x.significand ≠ 0) :
    x.Reads (x.shortest tie).value := by
  unfold shortest
  rw [if_neg (by simpa [isZero] using hx), value_trimZeros]
  have hfine : (x.onGrid? tie (x.decimalExponent - (17 : Nat))).isSome := onGrid?_fine tie hx
  exact reads_shortestFrom hfine (by omega) (by omega)

end Binary64
end SchemaAssembly
