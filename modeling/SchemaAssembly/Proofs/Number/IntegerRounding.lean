import Mathlib.Data.Nat.Log
import Mathlib.Tactic.Linarith
import Mathlib.Tactic.Ring
import SchemaAssembly.Number.Binary64

/-!
Integers as binary64 numbers. An integer becomes the nearest number with a significand of 53 bits,
and of two nearest ones that whose last bit is zero. So integers below `2 ^ 53` are kept, the order
is kept but not strictly, and beyond `2 ^ 53` neighbours become equal.
-/

set_option autoImplicit false

namespace SchemaAssembly

section Multiples

variable {num den : Nat}

theorem roundHalfEven_cases (num den : Nat) :
    roundHalfEven num den = num / den ∧ 2 * (num % den) ≤ den ∨
      roundHalfEven num den = num / den + 1 ∧ den ≤ 2 * (num % den) := by
  unfold roundHalfEven
  grind

theorem roundHalfEven_error (num : Nat) (hden : 0 < den) :
    2 * num ≤ 2 * (roundHalfEven num den * den) + den ∧
      2 * (roundHalfEven num den * den) ≤ 2 * num + den := by
  have hnum := Nat.div_add_mod' num den
  have hmod := Nat.mod_lt num hden
  have hcases := roundHalfEven_cases num den
  generalize num / den = k at hnum hcases
  generalize num % den = r at hnum hmod hcases
  rcases hcases with ⟨hq, hr⟩ | ⟨hq, hr⟩
  · rw [hq]
    omega
  · rw [hq, Nat.add_one_mul k den]
    omega

theorem roundHalfEven_tie (h : 2 * (num % den) = den) : roundHalfEven num den % 2 = 0 := by
  unfold roundHalfEven
  grind

/-- Another multiple is as near only in a tie. -/
theorem tie_of_natAbs_le {k : Int} (hden : 0 < den) (hk : k ≠ roundHalfEven num den)
    (hle : ((num : Int) - k * den).natAbs ≤
      ((num : Int) - ((roundHalfEven num den * den : Nat) : Int)).natAbs) :
    2 * (num % den) = den := by
  have hnum := Nat.div_add_mod' num den
  have hmod := Nat.mod_lt num hden
  have hcases := roundHalfEven_cases num den
  generalize roundHalfEven num den = q at hk hle hcases
  generalize num / den = i at hnum hcases
  generalize num % den = r at hnum hmod hcases ⊢
  have hfar : k * (den : Int) + den ≤ q * den ∨ (q : Int) * den + den ≤ k * den := by
    simp only [← add_one_mul]
    rcases hk.lt_or_gt with hk | hk
    · exact .inl (mul_le_mul_of_nonneg_right (by omega) (by omega))
    · exact .inr (mul_le_mul_of_nonneg_right (by omega) (by omega))
  have hcast : (i : Int) * den + r = num := by exact_mod_cast hnum
  rcases hcases with ⟨rfl, hr⟩ | ⟨rfl, hr⟩
  · push_cast at *
    omega
  · push_cast at *
    rw [add_one_mul] at hfar hle
    omega

theorem roundHalfEven_one (num : Nat) : roundHalfEven num 1 = num := by
  simp [roundHalfEven, Nat.mod_one]

theorem roundHalfEven_nearest (num : Nat) (hden : 0 < den) (k : Int) :
    ((num : Int) - ((roundHalfEven num den * den : Nat) : Int)).natAbs ≤
      ((num : Int) - k * den).natAbs := by
  obtain ⟨hlow, hhigh⟩ := roundHalfEven_error num hden
  generalize hq : roundHalfEven num den = q at hlow hhigh
  rcases lt_trichotomy k q with hk | hk | hk
  · have hstep : (k + 1) * (den : Int) ≤ q * den :=
      mul_le_mul_of_nonneg_right (by omega) (by omega)
    rw [add_one_mul] at hstep
    push_cast at *
    omega
  · rw [hk]
    push_cast
    exact le_rfl
  · have hstep : ((q : Int) + 1) * (den : Int) ≤ k * den :=
      mul_le_mul_of_nonneg_right (by omega) (by omega)
    rw [add_one_mul] at hstep
    push_cast at *
    omega

end Multiples

/-- The integer has a significand of 53 bits. -/
def Fits53 (n : Int) : Prop := ∃ (m : Int) (e : Nat), m.natAbs < 2 ^ 53 ∧ n = m * 2 ^ e

/-- The weight of the last of 53 bits, the first of which is the first bit of the number. -/
def lastPlace (n : Nat) : Nat := 2 ^ (n.log2 - 52)

def roundNat (n : Nat) : Nat := roundHalfEven n (lastPlace n) * lastPlace n

/-- The nearest integer with a significand of 53 bits; of two, that whose last bit is zero. -/
def roundInt (n : Int) : Int := if n < 0 then -(roundNat n.natAbs : Int) else roundNat n.natAbs

section Rounding

variable {n : Nat} {a b k : Int}

theorem fits53_of_natAbs_lt (h : a.natAbs < 2 ^ 53) : Fits53 a := ⟨a, 0, h, by simp⟩

theorem Fits53.neg (h : Fits53 a) : Fits53 (-a) := by
  obtain ⟨m, e, hm, rfl⟩ := h
  exact ⟨-m, e, by rwa [Int.natAbs_neg], by ring⟩

theorem lastPlace_pos (n : Nat) : 0 < lastPlace n := Nat.pow_pos (by decide)

theorem lastPlace_of_lt (h : n < 2 ^ 53) : lastPlace n = 1 := by
  have hlog : n.log2 < 53 := by
    by_cases hn : n = 0
    · simp [hn]
    · exact (Nat.log2_lt hn).mpr h
  rw [lastPlace, Nat.sub_eq_zero_of_le (by omega), pow_zero]

theorem roundNat_of_lt (h : n < 2 ^ 53) : roundNat n = n := by
  rw [roundNat, lastPlace_of_lt h, roundHalfEven_one, mul_one]

theorem lastPlace_bounds (h : 2 ^ 53 ≤ n) :
    2 ^ n.log2 = 2 ^ 52 * lastPlace n ∧ 2 ^ 52 * lastPlace n ≤ n ∧ n < 2 ^ 53 * lastPlace n := by
  have hn : n ≠ 0 := by
    rintro rfl
    simp at h
  have hlog : 53 ≤ n.log2 := (Nat.le_log2 hn).mpr h
  have hlow := Nat.log2_self_le hn
  have hhigh := Nat.lt_log2_self (n := n)
  have hsplit : ∀ c, 2 ^ (c + (n.log2 - 52)) = 2 ^ c * lastPlace n := fun c => Nat.pow_add 2 c _
  rw [show n.log2 = 52 + (n.log2 - 52) by omega, hsplit] at hlow
  rw [show n.log2 + 1 = 53 + (n.log2 - 52) by omega, hsplit] at hhigh
  refine ⟨?_, hlow, hhigh⟩
  rw [← hsplit]
  congr 1
  omega

theorem roundHalfEven_lastPlace_le (h : 2 ^ 53 ≤ n) :
    roundHalfEven n (lastPlace n) ≤ 2 ^ 53 := by
  have hdiv := Nat.div_lt_of_lt_mul (Nat.mul_comm _ _ ▸ (lastPlace_bounds h).2.2)
  rcases roundHalfEven_cases n (lastPlace n) with ⟨hq, -⟩ | ⟨hq, -⟩ <;> omega

theorem fits53_roundNat (n : Nat) : Fits53 (roundNat n) := by
  by_cases h : n < 2 ^ 53
  · rw [roundNat_of_lt h]
    exact fits53_of_natAbs_lt h
  · have hq := roundHalfEven_lastPlace_le (Nat.le_of_not_lt h)
    rcases hq.lt_or_eq with hq | hq
    · exact ⟨roundHalfEven n (lastPlace n), n.log2 - 52, hq, by simp [roundNat, lastPlace]⟩
    · refine ⟨2 ^ 52, n.log2 - 52 + 1, by decide, ?_⟩
      rw [roundNat, hq, lastPlace]
      push_cast
      ring

theorem Fits53.dvd (hk : Fits53 k) (hle : (2 ^ n.log2 : Int) ≤ k) :
    (lastPlace n : Int) ∣ k := by
  obtain ⟨m, e, hm, rfl⟩ := hk
  have hlog : n.log2 < 53 + e := by
    have hlt : m * 2 ^ e < 2 ^ 53 * 2 ^ e := by
      apply mul_lt_mul_of_pos_right _ (by positivity)
      omega
    rw [← pow_add] at hlt
    exact (pow_lt_pow_iff_right₀ (by norm_num)).mp (hle.trans_lt hlt)
  rw [lastPlace]
  push_cast
  exact Dvd.dvd.mul_left (pow_dvd_pow 2 (by omega)) m

theorem roundNat_nearest (n : Nat) (hk : Fits53 k) :
    ((n : Int) - roundNat n).natAbs ≤ ((n : Int) - k).natAbs := by
  by_cases hsmall : n < 2 ^ 53
  · rw [roundNat_of_lt hsmall]
    simp
  · have h := Nat.le_of_not_lt hsmall
    obtain ⟨hpow, hlow, -⟩ := lastPlace_bounds h
    by_cases hle : (2 ^ n.log2 : Int) ≤ k
    · obtain ⟨j, rfl⟩ := hk.dvd hle
      rw [mul_comm]
      exact roundHalfEven_nearest n (lastPlace_pos n) j
    · -- The least number with as many bits is a multiple of the last place, and nearer than `k`.
      have hnear := roundHalfEven_nearest n (lastPlace_pos n) (2 ^ 52)
      have hcast : (2 ^ n.log2 : Int) = 2 ^ 52 * lastPlace n := by exact_mod_cast hpow
      rw [← hcast] at hnear
      have hbelow : (2 ^ n.log2 : Int) ≤ n := by
        rw [hcast]
        exact_mod_cast hlow
      rw [roundNat]
      omega

/-- The number is an even multiple of the last of its 53 places. -/
def EvenLast53 (n : Int) : Prop :=
  ∃ (m : Int) (e : Nat), 2 ^ 52 ≤ m.natAbs ∧ m.natAbs < 2 ^ 53 ∧ m % 2 = 0 ∧ n = m * 2 ^ e

theorem roundNat_tie (hk : Fits53 k) (hne : k ≠ roundNat n)
    (hle : ((n : Int) - k).natAbs ≤ ((n : Int) - roundNat n).natAbs) : EvenLast53 (roundNat n) := by
  have h : 2 ^ 53 ≤ n := by
    by_contra hsmall
    rw [roundNat_of_lt (by omega)] at hne hle
    omega
  obtain ⟨hpow, hlow, -⟩ := lastPlace_bounds h
  have hplace := lastPlace_pos n
  have heven : roundHalfEven n (lastPlace n) % 2 = 0 := by
    apply roundHalfEven_tie
    by_cases hfirst : (2 ^ n.log2 : Int) ≤ k
    · obtain ⟨j, rfl⟩ := hk.dvd hfirst
      rw [mul_comm] at hle hne
      refine tie_of_natAbs_le hplace ?_ hle
      rintro rfl
      exact hne (by simp [roundNat])
    · -- The least number with as many bits is nearer than `k`.
      have hnear := roundNat_nearest n (k := 2 ^ n.log2) ⟨1, n.log2, by decide, by simp⟩
      have hbelow : (2 ^ n.log2 : Int) ≤ n := by exact_mod_cast hpow ▸ hlow
      omega
  rcases (roundHalfEven_lastPlace_le h).lt_or_eq with hq | hq
  · refine ⟨roundHalfEven n (lastPlace n), n.log2 - 52, ?_, hq, by omega, by
      simp [roundNat, lastPlace]⟩
    have hdiv : 2 ^ 52 ≤ n / lastPlace n := (Nat.le_div_iff_mul_le hplace).mpr hlow
    rcases roundHalfEven_cases n (lastPlace n) with ⟨he, -⟩ | ⟨he, -⟩ <;> omega
  · refine ⟨2 ^ 52, n.log2 - 52 + 1, by decide, by decide, by decide, ?_⟩
    rw [roundNat, hq, lastPlace]
    push_cast
    ring

theorem fits53_roundInt (a : Int) : Fits53 (roundInt a) := by
  unfold roundInt
  split
  · exact (fits53_roundNat _).neg
  · exact fits53_roundNat _

/-- The rounded integer is the nearest one of 53 bits. -/
theorem roundInt_nearest (a : Int) (hk : Fits53 k) :
    (a - roundInt a).natAbs ≤ (a - k).natAbs := by
  unfold roundInt
  split
  · have h := roundNat_nearest a.natAbs hk.neg
    omega
  · have h := roundNat_nearest a.natAbs hk
    omega

theorem EvenLast53.neg (h : EvenLast53 a) : EvenLast53 (-a) := by
  obtain ⟨m, e, hlow, hhigh, heven, rfl⟩ := h
  exact ⟨-m, e, by rwa [Int.natAbs_neg], by rwa [Int.natAbs_neg], by omega, by ring⟩

/-- Of two nearest integers of 53 bits, the rounded one is that whose last bit is zero. -/
theorem roundInt_tie (hk : Fits53 k) (hne : k ≠ roundInt a)
    (hle : (a - k).natAbs ≤ (a - roundInt a).natAbs) : EvenLast53 (roundInt a) := by
  unfold roundInt at hne hle ⊢
  split
  · rw [if_pos ‹_›] at hne hle
    exact (roundNat_tie hk.neg (by omega) (by omega)).neg
  · rw [if_neg ‹_›] at hne hle
    exact roundNat_tie hk (by omega) (by omega)

theorem Fits53.roundInt_eq (h : Fits53 a) : roundInt a = a := by
  have hnear := roundInt_nearest a h
  omega

theorem roundInt_mono (h : a ≤ b) : roundInt a ≤ roundInt b := by
  rcases h.lt_or_eq with h | rfl
  · have ha := roundInt_nearest a (fits53_roundInt b)
    have hb := roundInt_nearest b (fits53_roundInt a)
    omega
  · exact le_rfl

theorem roundInt_lt_iff : roundInt a < roundInt b ↔ a < b ∧ roundInt a ≠ roundInt b := by
  refine ⟨fun h => ⟨?_, h.ne⟩, fun h => (roundInt_mono h.1.le).lt_of_ne h.2⟩
  by_contra hle
  exact absurd (roundInt_mono (not_lt.mp hle)) (not_le.mpr h)

/-- Only the number itself rounds to a number below `2 ^ 53`. -/
theorem roundInt_eq_iff_of_natAbs_lt (h : b.natAbs < 2 ^ 53) : roundInt a = roundInt b ↔ a = b := by
  refine ⟨fun he => ?_, congrArg roundInt⟩
  rw [(fits53_of_natAbs_lt h).roundInt_eq] at he
  by_cases ha : a.natAbs < 2 ^ 53
  · rwa [(fits53_of_natAbs_lt ha).roundInt_eq] at he
  · -- Beyond the first number of 54 bits the rounded number stays beyond it.
    have hedge : Fits53 (2 ^ 53) := ⟨1, 53, by decide, by decide⟩
    rcases Int.le_total 0 a with hpos | hneg
    · have hle := roundInt_mono (show 2 ^ 53 ≤ a by omega)
      rw [hedge.roundInt_eq] at hle
      omega
    · have hle := roundInt_mono (show a ≤ -2 ^ 53 by omega)
      rw [hedge.neg.roundInt_eq] at hle
      omega

end Rounding

namespace Binary64

theorem scaleRatio_natCast (num den k : Nat) : scaleRatio num den k = (num, den * 2 ^ k) := by
  simp [scaleRatio]

theorem scaleRatio_neg_natCast (num den k : Nat) :
    scaleRatio num den (-(k : Int)) = (num * 2 ^ k, den) := by
  rcases k with - | k
  · simp [scaleRatio]
  · rw [scaleRatio, if_neg (by omega)]
    simp

/-- The first guess of the exponent is one too small. -/
theorem le_scaleRatio_guess {n : Nat} (hn : n ≠ 0) :
    2 ^ 53 ≤ (scaleRatio n 1 (n.log2 - 53)).1 / (scaleRatio n 1 (n.log2 - 53)).2 := by
  have hlow := Nat.log2_self_le hn
  rcases Nat.le_total 53 n.log2 with h | h
  · obtain ⟨k, hk⟩ := Nat.exists_eq_add_of_le h
    rw [show (n.log2 : Int) - 53 = k by omega, scaleRatio_natCast, one_mul]
    rw [hk, pow_add] at hlow
    exact (Nat.le_div_iff_mul_le (by positivity)).mpr hlow
  · obtain ⟨k, hk⟩ := Nat.exists_eq_add_of_le h
    rw [show (n.log2 : Int) - 53 = -(k : Int) by omega, scaleRatio_neg_natCast, Nat.div_one]
    calc 2 ^ 53 = 2 ^ n.log2 * 2 ^ k := by rw [← pow_add, ← hk]
      _ ≤ n * 2 ^ k := Nat.mul_le_mul_right _ hlow

theorem scaled_significand {n : Nat} (hn : n ≠ 0) :
    ∃ m, roundHalfEven (scaleRatio n 1 (n.log2 - 52)).1 (scaleRatio n 1 (n.log2 - 52)).2 = m ∧
      2 ^ 52 ≤ m ∧ m ≤ 2 ^ 53 ∧
      m * 2 ^ ((n.log2 : Int) - 52 + 1074).toNat = roundNat n * 2 ^ 1074 := by
  have hlow := Nat.log2_self_le hn
  have hhigh := Nat.lt_log2_self (n := n)
  rcases Nat.le_total 52 n.log2 with h | h
  · obtain ⟨k, hk⟩ := Nat.exists_eq_add_of_le h
    have hplace : lastPlace n = 2 ^ k := by rw [lastPlace, hk, Nat.add_sub_cancel_left]
    rw [hk, pow_add] at hlow
    rw [hk, show 52 + k + 1 = 53 + k by omega, pow_add] at hhigh
    have hfloor : 2 ^ 52 ≤ n / 2 ^ k := (Nat.le_div_iff_mul_le (by positivity)).mpr hlow
    have hceil : n / 2 ^ k < 2 ^ 53 := Nat.div_lt_of_lt_mul (Nat.mul_comm _ _ ▸ hhigh)
    rw [show (n.log2 : Int) - 52 = k by omega, scaleRatio_natCast, one_mul]
    refine ⟨roundHalfEven n (2 ^ k), rfl, ?_, ?_, ?_⟩
    · rcases roundHalfEven_cases n (2 ^ k) with ⟨he, -⟩ | ⟨he, -⟩ <;> omega
    · rcases roundHalfEven_cases n (2 ^ k) with ⟨he, -⟩ | ⟨he, -⟩ <;> omega
    · rw [roundNat, hplace, show ((k : Int) + 1074).toNat = k + 1074 by omega, pow_add, mul_assoc]
  · obtain ⟨k, hk⟩ := Nat.exists_eq_add_of_le h
    rw [show (n.log2 : Int) - 52 = -(k : Int) by omega, scaleRatio_neg_natCast]
    rw [roundHalfEven_one]
    refine ⟨_, rfl, ?_, ?_, ?_⟩
    · rw [hk, pow_add]
      exact Nat.mul_le_mul_right _ hlow
    · rw [show 53 = n.log2 + 1 + k by omega, pow_add]
      exact Nat.mul_le_mul_right _ hhigh.le
    · have hsmall : n < 2 ^ 53 := hhigh.trans_le (Nat.pow_le_pow_right (by decide) (by omega))
      rw [roundNat_of_lt hsmall, mul_assoc, ← pow_add]
      congr 2
      omega

theorem units_ofParts? (negative : Bool) {m : Nat} {e : Int} (hlow : 2 ^ 52 ≤ m) (hhigh : m < 2 ^ 53)
    (he : -1074 ≤ e ∧ e ≤ 971) :
    ∃ x, ofParts? negative m e = some x ∧
      x.units = if negative then -((m * 2 ^ (e + 1074).toNat : Nat) : Int)
        else (m * 2 ^ (e + 1074).toNat : Nat) :=
  ⟨_, dif_pos ⟨hhigh, he.1, he.2, .inl hlow⟩, rfl⟩

theorem units_ofRatio?_one (negative : Bool) {n : Nat} (hn : n ≠ 0) (hlog : n.log2 < 1000) :
    ∃ x, ofRatio? negative n 1 = some x ∧
      x.units = if negative then -((roundNat n * 2 ^ 1074 : Nat) : Int)
        else (roundNat n * 2 ^ 1074 : Nat) := by
  obtain ⟨m, hm, hlow, hhigh, hvalue⟩ := scaled_significand hn
  have hguess : (n.log2 : Int) - (Nat.log2 1 : Nat) - 53 = n.log2 - 53 := by
    rw [show Nat.log2 1 = 0 by decide]
    omega
  have hfirst : 0x20000000000000 ≤ _ := le_scaleRatio_guess hn
  have hnext : (n.log2 : Int) - 53 + 1 = n.log2 - 52 := by omega
  unfold ofRatio?
  rw [if_neg hn, hguess]
  simp only [if_neg (show ¬ (n.log2 : Int) - 53 < -1074 by omega)]
  rw [if_pos hfirst, hnext, hm]
  rcases hhigh.lt_or_eq with hhigh | rfl
  · rw [if_neg (show m ≠ 0x20000000000000 from hhigh.ne), ← hvalue]
    exact units_ofParts? negative hlow hhigh (by omega)
  · rw [if_pos (show 2 ^ 53 = 0x20000000000000 from rfl), ← hvalue]
    have hcarry : 2 ^ 53 * 2 ^ ((n.log2 : Int) - 52 + 1074).toNat =
        2 ^ 52 * 2 ^ ((n.log2 : Int) - 52 + 1 + 1074).toNat := by
      rw [← pow_add, ← pow_add]
      congr 1
      omega
    rw [hcarry]
    exact units_ofParts? negative (by decide) (by decide) (by omega)

/-- In units of the smallest number, the number of an integer is the rounded integer. -/
theorem units_ofInt {n : Int} (hlog : n.natAbs.log2 < 1000) :
    (ofInt n).units = roundInt n * 2 ^ 1074 := by
  by_cases hn : n.natAbs = 0
  · rw [Int.natAbs_eq_zero.mp hn]
    rw [show roundInt 0 = 0 by decide, zero_mul]
    rfl
  · obtain ⟨x, hx, hunits⟩ := units_ofRatio?_one (decide (n < 0)) hn hlog
    rw [ofInt, hx, Option.getD_some, hunits, roundInt]
    simp only [decide_eq_true_eq, Nat.cast_mul, Nat.cast_pow, Nat.cast_ofNat, ite_mul, neg_mul]

theorem ofInt_lt_ofInt {a b : Int} (ha : a.natAbs.log2 < 1000) (hb : b.natAbs.log2 < 1000) :
    (ofInt a).lt (ofInt b) = true ↔ roundInt a < roundInt b := by
  rw [lt, decide_eq_true_iff, units_ofInt ha, units_ofInt hb]
  exact mul_lt_mul_iff_left₀ (by positivity)

end Binary64

end SchemaAssembly
