import SchemaAssembly.Proofs.Number.NumeralText
import SchemaAssembly.Scalar.Temporal

/-!
Dates and times against their written forms. Readers take much that is never written: single
digits, blanks, signs, fractions of any length. What they give is a date or a time of the clock all
the same, and the written form of such a value is read back as that value.
-/

set_option autoImplicit false

namespace SchemaAssembly

namespace Temporal

variable {α β : Type} {ds rest : List Char} {n low high : Nat}

theorem digitsValue_eq (ds : List Char) : digitsValue ds = Nat.ofDigitChars 10 ds 0 := by
  simp [digitsValue, Nat.ofDigitChars, Nat.mul_comm]

theorem toNat_of_isDigit {c : Char} (h : c.isDigit = true) : 48 ≤ c.toNat ∧ c.toNat ≤ 57 :=
  Char.isDigit_iff_toNat.mp h

theorem digitsValue_lt (h : AllDigits ds) : digitsValue ds < 10 ^ ds.length := by
  rw [digitsValue_eq]
  induction ds with
  | nil => simp
  | cons c rest ih =>
    obtain ⟨hc, hrest⟩ := List.forall_mem_cons.mp h
    have hdigit := toNat_of_isDigit hc
    have htail := ih hrest
    rw [Nat.ofDigitChars_cons, Nat.ofDigitChars_eq_ofDigitChars_zero, List.length_cons, pow_succ]
    simp only [Char.reduceToNat]
    nlinarith [Nat.sub_le_sub_right hdigit.2 48]

theorem toList_padded (width n : Nat) : (padded width n).toList =
    List.replicate (width - (Nat.toDigits 10 n).length) '0' ++ Nat.toDigits 10 n := by
  simp [padded]

theorem allDigits_padded (width n : Nat) : AllDigits (padded width n).toList := by
  rw [toList_padded]
  exact (allDigits_zeros _).append (allDigits_toDigits n)

@[simp] theorem digitsValue_padded (width n : Nat) : digitsValue (padded width n).toList = n := by
  rw [digitsValue_eq, toList_padded, Nat.ofDigitChars_append, Nat.ofDigitChars_replicate_zero,
    Nat.mul_zero, Nat.ofDigitChars_ten_toDigits]

theorem padded_ne_nil (width n : Nat) : (padded width n).toList ≠ [] := by
  simp [toList_padded]

theorem length_padded {width : Nat} (hwidth : 0 < width) (h : n < 10 ^ width) :
    (padded width n).toList.length = width := by
  have hlength := (Nat.length_toDigits_le_iff (by decide) hwidth).mpr h
  simp only [toList_padded, List.length_append, List.length_replicate]
  omega

theorem length_padded_two (h : n < 100) : (padded 2 n).toList.length = 2 :=
  length_padded (by decide) h

theorem readTwo_append (h : AllDigits ds) (hlength : ds.length = 2) (rest : List Char) :
    readTwo (ds ++ rest) = .ok (digitsValue ds, rest) := by
  obtain ⟨a, b, rfl⟩ := List.length_eq_two.mp hlength
  have ha : a.isDigit = true := h a (by simp)
  have hb : b.isDigit = true := h b (by simp)
  simp [readTwo, readDigit, digit?, ha, hb, Except.map, bind, Except.bind, pure, Except.pure,
    digitsValue]

theorem readTwo_padded (h : n < 100) (rest : List Char) :
    readTwo ((padded 2 n).toList ++ rest) = .ok (n, rest) := by
  rw [readTwo_append (allDigits_padded 2 n) (length_padded_two h), digitsValue_padded]

theorem readFour_padded (h : n < 10000) (rest : List Char) :
    readFour ((padded 4 n).toList ++ rest) = .ok (n, rest) := by
  have hlength : (padded 4 n).toList.length = 4 := length_padded (by decide) h
  have hdigits := allDigits_padded 4 n
  have hvalue := digitsValue_padded 4 n
  generalize (padded 4 n).toList = ds at hlength hdigits hvalue
  match ds, hlength with
  | [a, b, c, d], _ =>
    have hfront : AllDigits [a, b] := fun x hx => hdigits x (by simp at hx ⊢; tauto)
    have hback : AllDigits [c, d] := fun x hx => hdigits x (by simp at hx ⊢; tauto)
    have hsplit : [a, b, c, d] ++ rest = [a, b] ++ ([c, d] ++ rest) := rfl
    have hsum : digitsValue [a, b] * 100 + digitsValue [c, d] = n := by
      rw [← hvalue]
      simp only [digitsValue, List.foldl_cons, List.foldl_nil]
      omega
    rw [readFour, hsplit, readTwo_append hfront rfl]
    simp only [bind, Except.bind]
    rw [readTwo_append hback rfl]
    simp [pure, Except.pure, hsum]

theorem takeWhile_digits (h : AllDigits ds) (hrest : ∀ c ∈ rest.head?, c.isDigit = false) :
    (ds ++ rest).takeWhile Char.isDigit = ds := by
  rw [List.takeWhile_append_of_pos h]
  cases rest with
  | nil => simp
  | cons c tail => simp [hrest c rfl]

theorem readNumber_take (h : AllDigits ds) (hne : ds ≠ []) (rest : List Char) :
    readNumber (some ds.length) (ds ++ rest) = .ok (digitsValue ds, rest) := by
  simp [readNumber, List.takeWhile_append_of_pos h, hne]

theorem readNumber_run (h : AllDigits ds) (hne : ds ≠ [])
    (hrest : ∀ c ∈ rest.head?, c.isDigit = false) :
    readNumber none (ds ++ rest) = .ok (digitsValue ds, rest) := by
  simp [readNumber, takeWhile_digits h hrest, hne]

theorem isBlank_of_isDigit {c : Char} (h : c.isDigit = true) : isBlank c = false := by
  have hdigit := toNat_of_isDigit h
  have hranges : ∀ r ∈ blankRanges, r.2 < 48 ∨ 57 < r.1 := by decide
  rw [isBlank, inRanges, List.any_eq_false]
  intro r hr
  have hr := hranges r hr
  rw [Bool.and_eq_true, Nat.ble_eq, Nat.ble_eq]
  omega

theorem trimStart_digits (h : AllDigits ds) (hne : ds ≠ []) (rest : List Char) :
    trimStart (ds ++ rest) = ds ++ rest := by
  cases ds with
  | nil => exact absurd rfl hne
  | cons c tail => simp [trimStart, isBlank_of_isDigit (h c List.mem_cons_self)]

theorem readPart_padded (hn : n < 100) (hlow : low ≤ n) (hhigh : n ≤ high) (rest : List Char) :
    readPart 2 low high ((padded 2 n).toList ++ rest) = .ok (n, rest) := by
  have hlength := length_padded_two hn
  have hread := readNumber_take (allDigits_padded 2 n) (padded_ne_nil 2 n) rest
  rw [hlength, digitsValue_padded] at hread
  rw [readPart, trimStart_digits (allDigits_padded 2 n) (padded_ne_nil 2 n), hread]
  simp [bind, Except.bind, pure, Except.pure, hlow, hhigh]

theorem readYear_plain {year : Int} (hplain : 0 ≤ year ∧ year ≤ 9999) (rest : List Char) :
    readYear ((yearText year).toList ++ '-' :: rest) = .ok (year, '-' :: rest) := by
  have hbounds : -0x80000000 ≤ year ∧ year < 0x80000000 := by omega
  have hvalue : ((year.toNat : Nat) : Int) = year := Int.toNat_of_nonneg hplain.1
  have hdigits := allDigits_padded 4 year.toNat
  have hlength : (padded 4 year.toNat).toList.length = 4 := length_padded (by decide) (by omega)
  have hread := readNumber_take hdigits (padded_ne_nil 4 _) ('-' :: rest)
  rw [hlength, digitsValue_padded] at hread
  have htrim := trimStart_digits hdigits (padded_ne_nil 4 _) ('-' :: rest)
  have hsign : ∀ c ∈ ((padded 4 year.toNat).toList ++ '-' :: rest).head?, c.isDigit = true := by
    intro c hc
    rw [List.head?_append_of_ne_nil _ (padded_ne_nil 4 _)] at hc
    exact hdigits c (List.mem_of_head? hc)
  rw [yearText, if_pos hplain]
  unfold readYear
  rw [htrim]
  split
  · next h => simp [h] at hsign
  · next h => simp [h] at hsign
  · simp [hread, Except.map, bind, Except.bind, pure, Except.pure, hvalue, hbounds]

/-- A year of more digits, or before the first, is written and read with its sign. -/
theorem readYear_signed {year : Int} (hlow : -262143 ≤ year) (hhigh : year ≤ 262142)
    (hplain : ¬(0 ≤ year ∧ year ≤ 9999)) (rest : List Char) :
    readYear ((yearText year).toList ++ '-' :: rest) = .ok (year, '-' :: rest) := by
  have hends : ∀ c ∈ ('-' :: rest).head?, c.isDigit = false := by simp
  have hread : ∀ n, readNumber none ((padded 4 n).toList ++ '-' :: rest) =
      .ok (n, '-' :: rest) := by
    intro n
    rw [readNumber_run (allDigits_padded 4 n) (padded_ne_nil 4 n) hends, digitsValue_padded]
  have hminus : isBlank '-' = false := by decide
  have hplus : isBlank '+' = false := by decide
  rw [yearText, if_neg hplain]
  by_cases hnegative : year < 0
  · obtain ⟨n, rfl⟩ : ∃ n : Nat, year = -(n : Int) := ⟨year.natAbs, by omega⟩
    rw [if_pos hnegative, Int.natAbs_neg, Int.natAbs_natCast]
    simp [readYear, trimStart, hminus, hread, Except.map, bind, Except.bind, pure, Except.pure]
    omega
  · obtain ⟨n, rfl⟩ : ∃ n : Nat, year = n := ⟨year.toNat, by omega⟩
    rw [if_neg hnegative, Int.natAbs_natCast]
    simp [readYear, trimStart, hplus, hread, Except.map, bind, Except.bind, pure, Except.pure]
    omega

theorem readYear_yearText {year : Int} (hlow : -262143 ≤ year) (hhigh : year ≤ 262142)
    (rest : List Char) :
    readYear ((yearText year).toList ++ '-' :: rest) = .ok (year, '-' :: rest) := by
  by_cases hplain : 0 ≤ year ∧ year ≤ 9999
  · exact readYear_plain hplain rest
  · exact readYear_signed hlow hhigh hplain rest

def EndsSecond (rest : List Char) : Prop := ∀ c ∈ rest.head?, c ≠ '.' ∧ c.isDigit = false

theorem readFraction_padded {width : Nat} (hwidth : 0 < width) (hnine : width ≤ 9)
    (hn : n < 10 ^ width) (hrest : EndsSecond rest) :
    readFraction ((padded width n).toList ++ rest) = .ok (n * 10 ^ (9 - width), rest) := by
  have hlength : (padded width n).toList.length = width := length_padded hwidth hn
  have hrun := takeWhile_digits (allDigits_padded width n) fun c hc => (hrest c hc).2
  have htake : (padded width n).toList.take 9 = (padded width n).toList :=
    List.take_of_length_le (by omega)
  have hne : padded width n ≠ "" := fun h => padded_ne_nil width n (by rw [h]; rfl)
  simp [readFraction, hrun, hne, htake, hlength]

theorem readOptionalFraction_fractionText (hn : n < 1000000000) (hrest : EndsSecond rest) :
    readOptionalFraction ((fractionText n).toList ++ rest) = .ok (n, rest) := by
  have hpoint : ∀ width m, (("." ++ padded width m).toList ++ rest) =
      '.' :: ((padded width m).toList ++ rest) := by simp
  unfold fractionText
  split
  · next hzero =>
    subst hzero
    cases rest with
    | nil => rfl
    | cons c tail =>
      have hc := (hrest c rfl).1
      simp [readOptionalFraction, hc]
  · split
    · next hmilli =>
      rw [hpoint, readOptionalFraction,
        readFraction_padded (by decide) (by decide) (by omega) hrest]
      simp only [Except.ok.injEq, Prod.mk.injEq, and_true]
      omega
    · split
      · next hmicro =>
        rw [hpoint, readOptionalFraction,
          readFraction_padded (by decide) (by decide) (by omega) hrest]
        simp only [Except.ok.injEq, Prod.mk.injEq, and_true]
        omega
      · rw [hpoint, readOptionalFraction,
          readFraction_padded (by decide) (by decide) (by omega) hrest]
        simp

/-- An offset that is written with two digits each, and has a sign only if it is not zero. -/
structure IsOffset (o : UtcOffset) : Prop where
  hours : o.hours < 24
  minutes : o.minutes < 60
  sign : o.negative = true → 0 < o.hours * 60 + o.minutes

theorem exists_two_digits (h : n < 100) : ∃ a b, (padded 2 n).toList = [a, b] ∧
    digit? a = .ok (n / 10) ∧ digit? b = .ok (n % 10) := by
  have hdigits := allDigits_padded 2 n
  have hvalue := digitsValue_padded 2 n
  obtain ⟨a, b, hab⟩ := List.length_eq_two.mp (length_padded_two h)
  rw [hab] at hdigits hvalue
  have ha : a.isDigit = true := hdigits a (by simp)
  have hb : b.isDigit = true := hdigits b (by simp)
  have hdigit := toNat_of_isDigit ha
  have hdigit' := toNat_of_isDigit hb
  simp only [digitsValue, List.foldl_cons, List.foldl_nil, Char.reduceToNat] at hvalue
  refine ⟨a, b, hab, ?_, ?_⟩
  · simp only [digit?, ha, if_true, Except.ok.injEq, Char.reduceToNat]
    omega
  · simp only [digit?, hb, if_true, Except.ok.injEq, Char.reduceToNat]
    omega

theorem readOffset_offsetText {o : UtcOffset} (h : IsOffset o) :
    readOffset (offsetText o).toList = .ok (o, []) := by
  obtain ⟨negative, hours, minutes⟩ := o
  obtain ⟨hhours, hminutes, hsign⟩ := h
  dsimp only at hhours hminutes hsign
  obtain ⟨x, y, hxy, -, -⟩ := exists_two_digits (show hours < 100 by omega)
  obtain ⟨a, b, hab, ha, hb⟩ := exists_two_digits (show minutes < 100 by omega)
  have hread : readTwo [x, y, ':', a, b] = .ok (hours, [':', a, b]) := by
    have hpadded := readTwo_padded (show hours < 100 by omega) [':', a, b]
    rw [hxy] at hpadded
    exact hpadded
  have hvalue : minutes / 10 * 10 + minutes % 10 = minutes := by omega
  have hten : ¬ 6 ≤ minutes / 10 := by omega
  have htext : (offsetText ⟨negative, hours, minutes⟩).toList =
      (if negative then '-' else '+') :: [x, y, ':', a, b] := by
    cases negative <;> simp [offsetText, hxy, hab]
  rw [htext]
  cases negative with
  | false =>
    simp [readOffset, hread, expect, ha, hb, hten, hvalue, bind, Except.bind, pure, Except.pure]
  | true =>
    simp [readOffset, hread, expect, ha, hb, hten, hvalue, hsign rfl, bind, Except.bind, pure,
      Except.pure]

/-- A day of the calendar, in a year that is kept. -/
def IsDate (d : CalendarDate) : Prop := date? d.year d.month d.day = .ok d

structure IsTime (t : TimeOfDay) : Prop where
  clock : time? t.hour t.minute t.second t.nanosecond = .ok t
  nanosecond : t.nanosecond < 1000000000

theorem date?_eq_ok_iff {year : Int} {month day : Nat} {d : CalendarDate} :
    date? year month day = .ok d ↔ (-262143 ≤ year ∧ year ≤ 262142 ∧ 1 ≤ month ∧ month ≤ 12 ∧
      1 ≤ day ∧ day ≤ monthLength year month) ∧ d = ⟨year, month, day⟩ := by
  unfold date?
  split <;> simp_all [eq_comm]

theorem time?_eq_ok_iff {hour minute second nanosecond : Nat} {t : TimeOfDay} :
    time? hour minute second nanosecond = .ok t ↔
      (hour < 24 ∧ minute < 60 ∧ second ≤ 60) ∧ t = ⟨hour, minute, second, nanosecond⟩ := by
  unfold time?
  split <;> simp_all [eq_comm]

theorem monthLength_le (year : Int) (month : Nat) : monthLength year month ≤ 31 := by
  unfold monthLength
  split
  · split <;> decide
  · split <;> decide

theorem readDate_dateText {d : CalendarDate} (h : IsDate d) : readDate (dateText d) = .ok d := by
  obtain ⟨⟨hlow, hhigh, hmonth, hmonth', hday, hday'⟩, -⟩ := date?_eq_ok_iff.mp h
  have hlength := monthLength_le d.year d.month
  have htext : (dateText d).toList = (yearText d.year).toList ++
      '-' :: ((padded 2 d.month).toList ++ '-' :: ((padded 2 d.day).toList ++ [])) := by
    simp [dateText]
  have hyear := readYear_yearText hlow hhigh
    ((padded 2 d.month).toList ++ '-' :: ((padded 2 d.day).toList ++ []))
  have hmonths := readPart_padded (show d.month < 100 by omega) hmonth hmonth'
    ('-' :: ((padded 2 d.day).toList ++ []))
  have hdays := readPart_padded (show d.day < 100 by omega) hday (show d.day ≤ 31 by omega) []
  simp only [readDate, htext, hyear, expect, hmonths, hdays, bind, Except.bind, if_true]
  exact h

theorem readLocalTime_timeText {t : TimeOfDay} (h : IsTime t) :
    readLocalTime (timeText t) = .ok t := by
  obtain ⟨⟨hhour, hminute, hsecond⟩, -⟩ := time?_eq_ok_iff.mp h.clock
  have htext : (timeText t).toList = (padded 2 t.hour).toList ++
      ':' :: ((padded 2 t.minute).toList ++
        ':' :: ((padded 2 t.second).toList ++ ((fractionText t.nanosecond).toList ++ []))) := by
    simp [timeText]
  have hends : EndsSecond [] := by simp [EndsSecond]
  have hfraction := readOptionalFraction_fractionText h.nanosecond hends
  have hseconds := readPart_padded (show t.second < 100 by omega) (Nat.zero_le _) hsecond
    ((fractionText t.nanosecond).toList ++ [])
  have hminutes := readPart_padded (show t.minute < 100 by omega) (Nat.zero_le _)
    (show t.minute ≤ 59 by omega)
    (':' :: ((padded 2 t.second).toList ++ ((fractionText t.nanosecond).toList ++ [])))
  have hhours := readPart_padded (show t.hour < 100 by omega) (Nat.zero_le _)
    (show t.hour ≤ 23 by omega) (':' :: ((padded 2 t.minute).toList ++
      ':' :: ((padded 2 t.second).toList ++ ((fractionText t.nanosecond).toList ++ []))))
  simp only [readLocalTime, htext, hhours, hminutes, hseconds, hfraction, expect, bind, Except.bind,
    if_true]
  exact h.clock

theorem length_le_utf8ByteSize (s : String) : s.toList.length ≤ s.utf8ByteSize := by
  have hlist : ∀ cs : List Char, cs.length ≤ (String.ofList cs).utf8ByteSize := by
    intro cs
    induction cs with
    | nil => simp
    | cons c rest ih =>
      have hc := Char.utf8Size_pos c
      rw [String.ofList_cons, String.utf8ByteSize_append, String.utf8ByteSize_singleton,
        List.length_cons]
      omega
  simpa using hlist s.toList

theorem readDateTime_text {d : CalendarDate} {t : TimeOfDay} {o : UtcOffset} {zone : String}
    (hd : IsDate d) (hyear : 0 ≤ d.year ∧ d.year ≤ 9999) (ht : IsTime t)
    (hends : EndsSecond zone.toList) (hzone : readOffset zone.toList = .ok (o, []))
    (ho : o.hours < 24) :
    readDateTime (dateText d ++ "T" ++ timeText t ++ zone) = .ok (d, t, o) := by
  obtain ⟨⟨-, -, hmonth, hmonth', hday, hday'⟩, -⟩ := date?_eq_ok_iff.mp hd
  obtain ⟨⟨hhour, hminute, hsecond⟩, -⟩ := time?_eq_ok_iff.mp ht.clock
  have hlength := monthLength_le d.year d.month
  have hvalue : ((d.year.toNat : Nat) : Int) = d.year := Int.toNat_of_nonneg hyear.1
  have hyears : d.year.toNat < 10000 := by omega
  have hmonths : d.month < 100 := by omega
  have hdays : d.day < 100 := by omega
  have hhours : t.hour < 100 := by omega
  have hminutes : t.minute < 100 := by omega
  have hseconds : t.second < 100 := by omega
  have htext : (dateText d ++ "T" ++ timeText t ++ zone).toList =
      (padded 4 d.year.toNat).toList ++ '-' :: ((padded 2 d.month).toList ++
        '-' :: ((padded 2 d.day).toList ++ 'T' :: ((padded 2 t.hour).toList ++
          ':' :: ((padded 2 t.minute).toList ++ ':' :: ((padded 2 t.second).toList ++
            ((fractionText t.nanosecond).toList ++ zone.toList)))))) := by
    simp [dateText, timeText, yearText, hyear]
  have hsize : ¬ (dateText d ++ "T" ++ timeText t ++ zone).utf8ByteSize < 19 := by
    have hfour : (padded 4 d.year.toNat).toList.length = 4 := length_padded (by decide) hyears
    have hbytes := length_le_utf8ByteSize (dateText d ++ "T" ++ timeText t ++ zone)
    simp only [htext, List.length_append, List.length_cons, hfour, length_padded_two hmonths,
      length_padded_two hdays, length_padded_two hhours, length_padded_two hminutes,
      length_padded_two hseconds] at hbytes
    omega
  simp only [readDateTime, hsize, htext, if_false, readFour_padded hyears, readTwo_padded hmonths,
    readTwo_padded hdays, readTwo_padded hhours, readTwo_padded hminutes, readTwo_padded hseconds,
    readOptionalFraction_fractionText ht.nanosecond hends, hvalue, hzone, expect, bind, Except.bind,
    if_true, pure, Except.pure]
  rw [hd, ht.clock]
  simpa using ho

def Gives (x : Except TemporalFault α) (good : α → Prop) : Prop := ∀ a, x = .ok a → good a

section Gives

variable {x : Except TemporalFault α} {good : α → Prop} {next : α → Except TemporalFault β}
  {fine : β → Prop} {a : α}

theorem gives_ok (h : good a) : Gives (.ok a) good := by
  rintro _ ⟨⟩
  exact h

theorem gives_throw (e : TemporalFault) : Gives (throw e) good := by
  rintro _ ⟨⟩

theorem Gives.bind (h : Gives x good) (hnext : ∀ a, good a → Gives (next a) fine) :
    Gives (x >>= next) fine := by
  cases x with
  | error e => exact gives_throw e
  | ok a => exact hnext a (h a rfl)

theorem Gives.after (hnext : ∀ a, Gives (next a) fine) : Gives (x >>= next) fine := by
  have hread : Gives x fun _ => True := fun _ _ => trivial
  exact hread.bind fun a _ => hnext a

theorem Gives.of_ite {c : Prop} [Decidable c] {y : Except TemporalFault α}
    (hx : c → Gives x good) (hy : ¬ c → Gives y good) : Gives (if c then x else y) good := by
  by_cases h : c
  · rw [if_pos h]
    exact hx h
  · rw [if_neg h]
    exact hy h

end Gives

theorem gives_digit? (c : Char) : Gives (digit? c) (· < 10) := by
  unfold digit?
  refine .of_ite (fun h => gives_ok ?_) fun _ => gives_throw _
  have hdigit := toNat_of_isDigit h
  simp only [Char.reduceToNat]
  omega

theorem gives_readDigit (cs : List Char) : Gives (readDigit cs) (·.1 < 10) := by
  cases cs with
  | nil => exact gives_throw _
  | cons c rest =>
    intro r h
    rw [readDigit] at h
    cases hdigit : digit? c with
    | error e => rw [hdigit] at h; cases h
    | ok n => rw [hdigit] at h; cases h; exact gives_digit? c n hdigit

theorem gives_readTwo (cs : List Char) : Gives (readTwo cs) (·.1 < 100) := by
  unfold readTwo
  refine (gives_readDigit cs).bind fun a ha => (gives_readDigit a.2).bind fun b hb => gives_ok ?_
  dsimp only
  omega

theorem gives_readFour (cs : List Char) : Gives (readFour cs) (·.1 < 10000) := by
  unfold readFour
  refine (gives_readTwo cs).bind fun a ha => (gives_readTwo a.2).bind fun b hb => gives_ok ?_
  dsimp only
  omega

theorem gives_readOptionalFraction (cs : List Char) :
    Gives (readOptionalFraction cs) (·.1 < 1000000000) := by
  unfold readOptionalFraction
  split
  · next rest =>
    unfold readFraction
    refine .of_ite (fun _ => gives_throw _) fun _ => gives_ok ?_
    have hdigits : AllDigits ((rest.takeWhile Char.isDigit).take 9) := fun c hc =>
      List.mem_takeWhile_imp (List.mem_of_mem_take hc)
    have hvalue := digitsValue_lt hdigits
    have hlength := List.length_take_le 9 (rest.takeWhile Char.isDigit)
    generalize (rest.takeWhile Char.isDigit).take 9 = ds at hvalue hlength
    calc digitsValue ds * Nat.pow 10 (9 - ds.length)
        < 10 ^ ds.length * 10 ^ (9 - ds.length) :=
          Nat.mul_lt_mul_of_pos_right hvalue (Nat.pow_pos (by decide))
      _ = 1000000000 := by
          rw [← pow_add, Nat.add_sub_cancel' hlength]
          rfl
  · exact gives_ok (Nat.zero_lt_succ _)

theorem gives_date? (year : Int) (month day : Nat) :
    Gives (date? year month day) fun d => IsDate d ∧ d.year = year := by
  intro d h
  obtain ⟨-, rfl⟩ := date?_eq_ok_iff.mp h
  exact ⟨h, rfl⟩

theorem gives_time? {hour minute second nanosecond : Nat} (hn : nanosecond < 1000000000) :
    Gives (time? hour minute second nanosecond) IsTime := by
  intro t h
  obtain ⟨-, rfl⟩ := time?_eq_ok_iff.mp h
  exact ⟨h, hn⟩

theorem gives_readOffset (cs : List Char) : Gives (readOffset cs) fun r =>
    r.1.minutes < 60 ∧ (r.1.negative = true → 0 < r.1.hours * 60 + r.1.minutes) := by
  unfold readOffset
  dsimp only
  split
  · exact gives_throw _
  · next c rest =>
    refine .of_ite (fun _ => gives_ok ⟨Nat.zero_lt_succ _, nofun⟩) fun _ =>
      .of_ite (fun _ => gives_throw _) fun _ => ?_
    split
    · exact gives_throw _
    · exact gives_throw _
    · refine (gives_readTwo rest).bind fun r _ => .after fun left => ?_
      split
      · exact gives_throw _
      · exact gives_throw _
      · next _ _ a b tail =>
        refine (gives_digit? a).bind fun m hm => (gives_digit? b).bind fun k hk => ?_
        refine .of_ite (fun _ => gives_throw _) fun hten => gives_ok ?_
        constructor
        · dsimp only
          omega
        · intro hnegative
          exact (of_decide_eq_true hnegative).2

theorem gives_readDate (s : String) : Gives (readDate s) IsDate := by
  unfold readDate
  refine .after fun y => .after fun r => .after fun m => .after fun r => .after fun d => ?_
  exact .of_ite (fun _ => fun d hd => (gives_date? _ _ _ d hd).1) fun _ => gives_throw _

theorem gives_readLocalTime (s : String) : Gives (readLocalTime s) IsTime := by
  unfold readLocalTime
  refine .after fun h => .after fun r => .after fun m => .after fun r => .after fun sec => ?_
  refine (gives_readOptionalFraction sec.2).bind fun n hn => ?_
  exact .of_ite (fun _ => gives_time? hn) fun _ => gives_throw _

theorem gives_readDateTime (s : String) : Gives (readDateTime s) fun r =>
    IsDate r.1 ∧ (0 ≤ r.1.year ∧ r.1.year ≤ 9999) ∧ IsTime r.2.1 ∧ IsOffset r.2.2 := by
  unfold readDateTime
  dsimp only
  refine .of_ite (fun _ => gives_throw _) fun _ => ?_
  refine (gives_readFour s.toList).bind fun y hy => .after fun r => .after fun m => .after fun r =>
    .after fun d => (gives_date? _ _ _).bind fun date hdate => ?_
  split
  · refine .of_ite (fun _ => ?_) fun _ => gives_throw _
    refine .after fun cs => .after fun h => .after fun r => .after fun m => .after fun r =>
      .after fun sec => (gives_readOptionalFraction sec.2).bind fun n hn =>
        (gives_time? hn).bind fun time htime => (gives_readOffset n.2).bind fun o ho => ?_
    refine .of_ite (fun _ => gives_throw _) fun hhours => ?_
    refine .of_ite (fun _ => gives_ok ⟨hdate.1, ?_, htime, ?_⟩) fun _ => gives_throw _
    · dsimp only
      omega
    · exact ⟨Nat.lt_of_not_le hhours, ho.1, ho.2⟩
  · exact gives_throw _

end Temporal

end SchemaAssembly
