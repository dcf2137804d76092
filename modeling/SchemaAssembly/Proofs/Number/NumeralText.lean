import Mathlib.Data.List.TakeWhile
import SchemaAssembly.Proofs.Number.Shortest

/-!
The texts of numbers. Every layout of a float can be read back as its shortest decimal, so floats
with one text are equal, and a point or an exponent tells them from integers.
-/

set_option autoImplicit false

namespace SchemaAssembly

def readExponent : List Char → Int
  | _ :: sign :: ds =>
    if sign = '-' then -(Nat.ofDigitChars 10 ds 0 : Int) else Nat.ofDigitChars 10 ds 0
  | _ => 0

def readPlain (cs : List Char) : ℚ :=
  let fraction := (cs.dropWhile (· != '.')).drop 1
  Nat.ofDigitChars 10 (cs.takeWhile (· != '.') ++ fraction) 0 / 10 ^ fraction.length

def readNumeral (cs : List Char) : ℚ :=
  readPlain (cs.takeWhile (· != 'e')) * 10 ^ readExponent (cs.dropWhile (· != 'e'))

def AllDigits (cs : List Char) : Prop := ∀ c ∈ cs, c.isDigit = true

theorem AllDigits.notMem {cs : List Char} (h : AllDigits cs) {c : Char} (hc : c.isDigit = false) :
    c ∉ cs := by
  intro hm
  rw [h c hm] at hc
  cases hc

theorem AllDigits.append {cs ds : List Char} (hc : AllDigits cs) (hd : AllDigits ds) :
    AllDigits (cs ++ ds) := by
  intro c h
  rcases List.mem_append.mp h with h | h
  · exact hc c h
  · exact hd c h

theorem allDigits_toDigits (n : Nat) : AllDigits (Nat.toDigits 10 n) :=
  fun _ => Nat.isDigit_of_mem_toDigits (by decide) (by decide)

theorem allDigits_zeros (n : Nat) : AllDigits (List.replicate n '0') := by
  intro c h
  rw [(List.mem_replicate.mp h).2]
  rfl

theorem all_ne_of_notMem {stop : Char} {l : List Char} (h : stop ∉ l) :
    ∀ c ∈ l, (c != stop) = true := by
  intro c hc
  rw [bne_iff_ne]
  rintro rfl
  exact h hc

theorem takeWhile_ne_append {stop : Char} {l r : List Char} (h : stop ∉ l) :
    (l ++ stop :: r).takeWhile (· != stop) = l := by
  rw [List.takeWhile_append_of_pos (all_ne_of_notMem h)]
  simp

theorem dropWhile_ne_append {stop : Char} {l r : List Char} (h : stop ∉ l) :
    (l ++ stop :: r).dropWhile (· != stop) = stop :: r := by
  rw [List.dropWhile_append_of_pos (all_ne_of_notMem h)]
  simp

theorem takeWhile_ne_self {stop : Char} {l : List Char} (h : stop ∉ l) :
    l.takeWhile (· != stop) = l :=
  List.takeWhile_eq_self_iff.mpr (all_ne_of_notMem h)

theorem dropWhile_ne_self {stop : Char} {l : List Char} (h : stop ∉ l) :
    l.dropWhile (· != stop) = [] :=
  List.dropWhile_eq_nil_iff.mpr (all_ne_of_notMem h)

theorem readPlain_point {l r : List Char} (hl : '.' ∉ l) :
    readPlain (l ++ '.' :: r) = Nat.ofDigitChars 10 (l ++ r) 0 / 10 ^ r.length := by
  simp [readPlain, takeWhile_ne_append hl, dropWhile_ne_append hl]

theorem readPlain_whole {l : List Char} (hl : '.' ∉ l) :
    readPlain l = Nat.ofDigitChars 10 l 0 := by
  simp [readPlain, takeWhile_ne_self hl, dropWhile_ne_self hl]

theorem readNumeral_plain {cs : List Char} (h : 'e' ∉ cs) : readNumeral cs = readPlain cs := by
  simp [readNumeral, takeWhile_ne_self h, dropWhile_ne_self h, readExponent]

theorem readNumeral_exponent {cs : List Char} (h : 'e' ∉ cs) (e : Int) :
    readNumeral (cs ++ 'e' :: (if e < 0 then '-' else '+') :: Nat.toDigits 10 e.natAbs) =
      readPlain cs * 10 ^ e := by
  rw [readNumeral, takeWhile_ne_append h, dropWhile_ne_append h]
  congr 2
  simp only [readExponent, Nat.ofDigitChars_ten_toDigits]
  split <;> simp only [if_true, Char.reduceEq, if_false] <;> omega

/-- The digits of a decimal with zeros after them as far as a positive exponent asks. -/
def wholeDigits (d : Decimal) : List Char :=
  Nat.toDigits 10 d.digits ++
    List.replicate (if d.digits = 0 then 0 else d.exponent.toNat) '0'

/-- The digits of a decimal after zeros that reach beyond the point. -/
def paddedDigits (d : Decimal) : List Char :=
  List.replicate ((-d.exponent).toNat + 1 - (Nat.toDigits 10 d.digits).length) '0' ++
    Nat.toDigits 10 d.digits

theorem positionalText_whole {d : Decimal} (h : 0 ≤ d.exponent) (fraction : Bool) :
    (positionalText fraction d).toList =
      wholeDigits d ++ if fraction then ['.', '0'] else [] := by
  unfold positionalText
  dsimp only
  rw [if_pos h, String.toList_append, String.toList_ofList]
  cases fraction <;> rfl

theorem positionalText_point {d : Decimal} (h : ¬ 0 ≤ d.exponent) (fraction : Bool) :
    (positionalText fraction d).toList =
      (paddedDigits d).take ((paddedDigits d).length - (-d.exponent).toNat) ++
        '.' :: (paddedDigits d).drop ((paddedDigits d).length - (-d.exponent).toNat) := by
  unfold positionalText
  dsimp only
  rw [if_neg h, String.toList_ofList]
  rfl

theorem allDigits_wholeDigits (d : Decimal) : AllDigits (wholeDigits d) :=
  (allDigits_toDigits _).append (allDigits_zeros _)

theorem allDigits_paddedDigits (d : Decimal) : AllDigits (paddedDigits d) :=
  (allDigits_zeros _).append (allDigits_toDigits _)

theorem value_wholeDigits {d : Decimal} (h : 0 ≤ d.exponent) :
    (Nat.ofDigitChars 10 (wholeDigits d) 0 : ℚ) = d.value := by
  have hz : (10 : ℚ) ^ d.exponent = 10 ^ d.exponent.toNat := by
    rw [← zpow_natCast, Int.toNat_of_nonneg h]
  rw [wholeDigits, Nat.ofDigitChars_append, Nat.ofDigitChars_ten_toDigits,
    Nat.ofDigitChars_replicate_zero, Decimal.value, hz]
  by_cases hd : d.digits = 0
  · simp [hd]
  · simp [hd, mul_comm]

theorem value_paddedDigits {d : Decimal} (h : ¬ 0 ≤ d.exponent) :
    (Nat.ofDigitChars 10 (paddedDigits d) 0 : ℚ) / 10 ^ (-d.exponent).toNat = d.value := by
  have hz : (10 : ℚ) ^ d.exponent = (10 ^ (-d.exponent).toNat)⁻¹ := by
    rw [← zpow_natCast, ← zpow_neg, Int.toNat_of_nonneg (by omega), neg_neg]
  rw [paddedDigits, Nat.ofDigitChars_append, Nat.ofDigitChars_replicate_zero, Nat.mul_zero,
    Nat.ofDigitChars_ten_toDigits, Decimal.value, hz, div_eq_mul_inv]

theorem readNumeral_positionalText (fraction : Bool) (d : Decimal) :
    readNumeral (positionalText fraction d).toList = d.value := by
  by_cases h : 0 ≤ d.exponent
  · have hw := allDigits_wholeDigits d
    have he : 'e' ∉ wholeDigits d := hw.notMem rfl
    have hp : '.' ∉ wholeDigits d := hw.notMem rfl
    rw [positionalText_whole h]
    cases fraction with
    | false =>
      rw [if_neg (by decide), List.append_nil, readNumeral_plain he, readPlain_whole hp,
        value_wholeDigits h]
    | true =>
      rw [if_pos rfl, readNumeral_plain (by simp [he]), readPlain_point hp,
        Nat.ofDigitChars_append]
      simp [Nat.ofDigitChars_cons, value_wholeDigits h]
  · have hw := allDigits_paddedDigits d
    have he : 'e' ∉ paddedDigits d := hw.notMem rfl
    have hp : '.' ∉ paddedDigits d := hw.notMem rfl
    have hlen : (-d.exponent).toNat ≤ (paddedDigits d).length := by
      simp only [paddedDigits, List.length_append, List.length_replicate]
      omega
    rw [positionalText_point h, readNumeral_plain, readPlain_point (fun hm => hp (List.mem_of_mem_take hm)),
      List.take_append_drop, List.length_drop, Nat.sub_sub_self hlen, value_paddedDigits h]
    intro hm
    rcases List.mem_append.mp hm with hm | hm
    · exact he (List.mem_of_mem_take hm)
    · rcases List.mem_cons.mp hm with hm | hm
      · cases hm
      · exact he (List.mem_of_mem_drop hm)

def Decimal.lead (d : Decimal) : Int := d.exponent + ((Nat.toDigits 10 d.digits).length : Int) - 1

/-- The digits with a point after the first. -/
def pointedDigits : List Char → List Char
  | c :: d :: rest => c :: '.' :: d :: rest
  | ds => ds

theorem scientificText_toList (d : Decimal) :
    (scientificText d).toList = pointedDigits (Nat.toDigits 10 d.digits) ++
      'e' :: (if d.lead < 0 then '-' else '+') :: Nat.toDigits 10 d.lead.natAbs := by
  have hmark : ("e" ++ (if d.lead < 0 then "-" else "+") ++ toString d.lead.natAbs).toList =
      'e' :: (if d.lead < 0 then '-' else '+') :: Nat.toDigits 10 d.lead.natAbs := by
    simp only [String.toList_append, Nat.toString_eq_ofList_toDigits, String.toList_ofList]
    split <;> rfl
  rw [← hmark]
  unfold scientificText
  dsimp only
  split
  · rename_i h
    exact absurd h Nat.toDigits_ne_nil
  · rename_i c h
    rw [String.toList_append, String.toList_ofList, Decimal.lead, h]
    rfl
  · rename_i c rest hne h
    rw [String.toList_append, String.toList_ofList, Decimal.lead, h]
    cases rest with
    | nil => exact absurd rfl hne
    | cons e rest => rfl

theorem readPlain_pointedDigits (d : Decimal) :
    readPlain (pointedDigits (Nat.toDigits 10 d.digits)) =
      d.digits / 10 ^ ((Nat.toDigits 10 d.digits).length - 1) := by
  have hds := allDigits_toDigits d.digits
  have hv : Nat.ofDigitChars 10 (Nat.toDigits 10 d.digits) 0 = d.digits :=
    Nat.ofDigitChars_ten_toDigits
  revert hds hv
  generalize Nat.toDigits 10 d.digits = ds
  intro hds hv
  match ds with
  | [] =>
    simp only [Nat.ofDigitChars_nil] at hv
    simp [pointedDigits, readPlain, ← hv]
  | [c] =>
    rw [pointedDigits, readPlain_whole (hds.notMem rfl), hv]
    · simp
    · simp
  | c :: e :: rest =>
    have hc : '.' ∉ [c] := by
      intro h
      exact hds.notMem rfl (List.mem_append_left (e :: rest) h)
    rw [pointedDigits, ← List.singleton_append, readPlain_point hc, List.singleton_append, hv]
    simp

theorem notMem_pointedDigits (d : Decimal) : 'e' ∉ pointedDigits (Nat.toDigits 10 d.digits) := by
  have hds := allDigits_toDigits d.digits
  revert hds
  generalize Nat.toDigits 10 d.digits = ds
  intro hds
  have he : 'e' ∉ ds := hds.notMem rfl
  unfold pointedDigits
  split
  · simpa using he
  · exact he

theorem readNumeral_scientificText (d : Decimal) :
    readNumeral (scientificText d).toList = d.value := by
  rw [scientificText_toList, readNumeral_exponent (notMem_pointedDigits d),
    readPlain_pointedDigits, Decimal.value, div_mul_eq_mul_div, mul_div_assoc, ← zpow_natCast,
    ← zpow_sub₀ (by norm_num)]
  have hp := Nat.length_toDigits_pos (b := 10) (n := d.digits)
  congr 2
  unfold Decimal.lead
  omega

theorem head_append_of_digits {cs : List Char} (h : AllDigits cs) (hne : cs ≠ [])
    (ds : List Char) :
    ∃ c rest, cs ++ ds = c :: rest ∧ c.isDigit = true := by
  cases cs with
  | nil => exact absurd rfl hne
  | cons c cs => exact ⟨c, cs ++ ds, rfl, h c (by simp)⟩

theorem head_positionalText (fraction : Bool) (d : Decimal) :
    ∃ c rest, (positionalText fraction d).toList = c :: rest ∧ c.isDigit = true := by
  by_cases h : 0 ≤ d.exponent
  · rw [positionalText_whole h]
    apply head_append_of_digits (allDigits_wholeDigits d)
    simp [wholeDigits, Nat.toDigits_ne_nil]
  · rw [positionalText_point h]
    apply head_append_of_digits
    · exact fun c hc => allDigits_paddedDigits d c (List.mem_of_mem_take hc)
    · rw [← List.length_pos_iff, List.length_take]
      simp only [paddedDigits, List.length_append, List.length_replicate]
      omega

theorem head_scientificText (d : Decimal) :
    ∃ c rest, (scientificText d).toList = c :: rest ∧ c.isDigit = true := by
  have hds := allDigits_toDigits d.digits
  have hne : Nat.toDigits 10 d.digits ≠ [] := Nat.toDigits_ne_nil
  rw [scientificText_toList]
  revert hds hne
  generalize Nat.toDigits 10 d.digits = ds
  intro hds hne
  unfold pointedDigits
  split
  · rename_i c e rest
    exact ⟨c, _, rfl, hds c (by simp)⟩
  · exact head_append_of_digits hds hne _

theorem Layout.text_cases (layout : Layout) (x : Binary64) :
    layout.text x = (if x.negative then "-" else "") ++
        positionalText layout.fraction (x.shortest layout.tie) ∨
      layout.text x = (if x.negative then "-" else "") ++
        scientificText (x.shortest layout.tie) := by
  unfold Layout.text
  dsimp only
  generalize (x.isZero || _) = plain
  cases plain with
  | true => exact .inl rfl
  | false => exact .inr rfl

theorem sign_append_inj {a b : Bool} {c d : Char} {r s : List Char} (hc : c.isDigit = true)
    (hd : d.isDigit = true)
    (h : (if a then ['-'] else []) ++ c :: r = (if b then ['-'] else []) ++ d :: s) :
    a = b ∧ c :: r = d :: s := by
  cases a <;> cases b
  · exact ⟨rfl, h⟩
  · cases h
    exact absurd hc (by decide)
  · cases h
    exact absurd hd (by decide)
  · exact ⟨rfl, List.append_cancel_left h⟩

theorem sign_toList (negative : Bool) :
    (if negative then "-" else "" : String).toList = if negative then ['-'] else [] := by
  cases negative <;> rfl

/-- A number text is a sign and a numeral without a sign that reads back as the digits. -/
theorem Layout.text_numeral (layout : Layout) (x : Binary64) :
    ∃ c rest, (layout.text x).toList = (if x.negative then ['-'] else []) ++ c :: rest ∧
      c.isDigit = true ∧ readNumeral (c :: rest) = (x.shortest layout.tie).value := by
  rcases layout.text_cases x with h | h
  · obtain ⟨c, rest, hl, hc⟩ := head_positionalText layout.fraction (x.shortest layout.tie)
    refine ⟨c, rest, ?_, hc, by rw [← hl, readNumeral_positionalText]⟩
    rw [h, String.toList_append, sign_toList, hl]
  · obtain ⟨c, rest, hl, hc⟩ := head_scientificText (x.shortest layout.tie)
    refine ⟨c, rest, ?_, hc, by rw [← hl, readNumeral_scientificText]⟩
    rw [h, String.toList_append, sign_toList, hl]

namespace Binary64

theorem eq_of_parts {x y : Binary64} (hn : x.negative = y.negative)
    (hs : x.significand = y.significand) (he : x.exponent = y.exponent) : x = y := by
  cases x
  cases y
  cases hn
  cases hs
  cases he
  rfl

theorem exponent_of_zero {x : Binary64} (h : x.significand = 0) : x.exponent = -1074 := by
  have hc := x.canonical
  omega

theorem value_shortest_eq_zero_iff (tie : TieRule) (x : Binary64) :
    (x.shortest tie).value = 0 ↔ x.significand = 0 := by
  constructor
  · intro h
    by_contra hx
    have hr := reads_shortest tie hx
    rw [h] at hr
    have hl := hr.low_le
    have hpos : 0 < x.interval.1 := by
      simp only [interval]
      split <;> omega
    have hq := x.quarter_pos
    have : (0 : ℚ) < x.interval.1 * x.quarter := by positivity
    linarith
  · intro h
    simp [shortest, isZero, h, Decimal.value]

/-- The shortest digits tell two magnitudes apart. -/
theorem value_shortest_injective {tie : TieRule} {x y : Binary64} (hn : x.negative = y.negative)
    (h : (x.shortest tie).value = (y.shortest tie).value) : x = y := by
  by_cases hx : x.significand = 0
  · have hy : y.significand = 0 := by
      rwa [← value_shortest_eq_zero_iff tie, ← h, value_shortest_eq_zero_iff]
    exact eq_of_parts hn (hx.trans hy.symm)
      ((exponent_of_zero hx).trans (exponent_of_zero hy).symm)
  · have hy : y.significand ≠ 0 := by
      rwa [ne_eq, ← value_shortest_eq_zero_iff tie, ← h, value_shortest_eq_zero_iff]
    have hr := reads_shortest tie hy
    rw [← h] at hr
    obtain ⟨hs, he⟩ := (reads_shortest tie hx).unique hr
    exact eq_of_parts hn hs he

end Binary64

theorem Layout.text_injective {layout : Layout} {x y : Binary64}
    (h : layout.text x = layout.text y) : x = y := by
  obtain ⟨c, rest, hx, hc, vx⟩ := layout.text_numeral x
  obtain ⟨d, rest', hy, hd, vy⟩ := layout.text_numeral y
  rw [h, hy] at hx
  obtain ⟨hn, hl⟩ := sign_append_inj hc hd hx.symm
  rw [hl, vy] at vx
  exact Binary64.value_shortest_injective hn vx.symm

theorem intText_toList (n : Int) :
    (toString n).toList = (if decide (n < 0) then ['-'] else []) ++ Nat.toDigits 10 n.natAbs := by
  cases n with
  | ofNat m => simp [Int.toString_eq_repr, Int.repr]
  | negSucc m => simp [Int.toString_eq_repr, Int.repr]

theorem intText_injective {m n : Int} (h : toString m = toString n) : m = n := by
  have hl := congrArg String.toList h
  rw [intText_toList, intText_toList] at hl
  obtain ⟨c, rest, hc, dc⟩ := head_append_of_digits (allDigits_toDigits m.natAbs)
    Nat.toDigits_ne_nil []
  obtain ⟨d, rest', hd, dd⟩ := head_append_of_digits (allDigits_toDigits n.natAbs)
    Nat.toDigits_ne_nil []
  rw [List.append_nil] at hc hd
  rw [hc, hd] at hl
  obtain ⟨hs, hl⟩ := sign_append_inj dc dd hl
  have habs : m.natAbs = n.natAbs := by
    rw [← Nat.ofDigitChars_ten_toDigits (n := m.natAbs), hc, hl, ← hd,
      Nat.ofDigitChars_ten_toDigits]
  have hneg : m < 0 ↔ n < 0 := by simpa using hs
  omega

def isNumeral (c : Char) : Bool := c.isDigit || c == '-' || c == '+' || c == '.' || c == 'e'

def AllNumeral (cs : List Char) : Prop := ∀ c ∈ cs, isNumeral c = true

theorem AllDigits.allNumeral {cs : List Char} (h : AllDigits cs) : AllNumeral cs := by
  intro c hc
  simp [isNumeral, h c hc]

theorem allNumeral_append {cs ds : List Char} :
    AllNumeral (cs ++ ds) ↔ AllNumeral cs ∧ AllNumeral ds := by
  simp [AllNumeral, or_imp, forall_and]

theorem allNumeral_cons {c : Char} {cs : List Char} :
    AllNumeral (c :: cs) ↔ isNumeral c = true ∧ AllNumeral cs := by
  simp [AllNumeral]

theorem allNumeral_sign (negative : Bool) : AllNumeral (if negative then ['-'] else []) := by
  cases negative <;> simp [AllNumeral, isNumeral]

theorem allNumeral_positionalText (fraction : Bool) (d : Decimal) :
    AllNumeral (positionalText fraction d).toList := by
  by_cases h : 0 ≤ d.exponent
  · rw [positionalText_whole h, allNumeral_append]
    refine ⟨(allDigits_wholeDigits d).allNumeral, ?_⟩
    cases fraction <;> simp [AllNumeral, isNumeral]
  · have hd := (allDigits_paddedDigits d).allNumeral
    rw [positionalText_point h, allNumeral_append, allNumeral_cons]
    exact ⟨fun c hc => hd c (List.mem_of_mem_take hc), rfl,
      fun c hc => hd c (List.mem_of_mem_drop hc)⟩

theorem allNumeral_scientificText (d : Decimal) : AllNumeral (scientificText d).toList := by
  have hds := (allDigits_toDigits d.digits).allNumeral
  rw [scientificText_toList, allNumeral_append, allNumeral_cons, allNumeral_cons]
  refine ⟨?_, rfl, ?_, (allDigits_toDigits _).allNumeral⟩
  · revert hds
    generalize Nat.toDigits 10 d.digits = ds
    intro hds
    unfold pointedDigits
    split
    · simp only [allNumeral_cons] at hds ⊢
      exact ⟨hds.1, rfl, hds.2⟩
    · exact hds
  · split <;> rfl

theorem Layout.allNumeral_text (layout : Layout) (x : Binary64) :
    AllNumeral (layout.text x).toList := by
  rcases layout.text_cases x with h | h <;> rw [h, String.toList_append, sign_toList,
    allNumeral_append]
  · exact ⟨allNumeral_sign _, allNumeral_positionalText _ _⟩
  · exact ⟨allNumeral_sign _, allNumeral_scientificText _⟩

theorem allNumeral_intText (n : Int) : AllNumeral (toString n).toList := by
  rw [intText_toList, allNumeral_append]
  exact ⟨allNumeral_sign _, (allDigits_toDigits _).allNumeral⟩

/-- A fraction or an exponent shows that a text is not one of an integer. -/
def HasMark (cs : List Char) : Prop := '.' ∈ cs ∨ 'e' ∈ cs

theorem Layout.hasMark_text {layout : Layout} (h : layout.fraction = true) (x : Binary64) :
    HasMark (layout.text x).toList := by
  rcases layout.text_cases x with ht | ht <;> rw [ht, String.toList_append, HasMark]
  · left
    apply List.mem_append_right
    by_cases he : 0 ≤ (x.shortest layout.tie).exponent
    · simp [positionalText_whole he, h]
    · simp [positionalText_point he]
  · right
    apply List.mem_append_right
    simp [scientificText_toList]

theorem not_hasMark_intText (n : Int) : ¬ HasMark (toString n).toList := by
  have hd := allDigits_toDigits n.natAbs
  rw [intText_toList, HasMark, List.mem_append, List.mem_append]
  have hdot : '.' ∉ Nat.toDigits 10 n.natAbs := hd.notMem rfl
  have he : 'e' ∉ Nat.toDigits 10 n.natAbs := hd.notMem rfl
  split <;> simp [hdot, he]

end SchemaAssembly
