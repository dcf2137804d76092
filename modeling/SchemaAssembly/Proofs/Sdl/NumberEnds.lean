import SchemaAssembly.Proofs.Sdl.LineEnds

/-!
Numbers and further lines. A number is read part by part, and a line end is no part of any.
-/

set_option autoImplicit false

namespace SchemaAssembly

namespace Sdl

/-- A part of a number without quotes, which is the same for a text that goes on. -/
structure IsPart {β : Type} (part : List Char → β × List Char) : Prop where
  plain : ∀ text, ∃ taken, text = taken ++ (part text).2 ∧ IsPlain taken
  same : ∀ {next} (_ : IsNext next) (text : List Char),
    part (text ++ next) = ((part text).1, (part text).2 ++ next)

end Sdl

namespace NumberLiteral

open Sdl

def digitsPart (cs : List Char) : List Char × List Char :=
  let ds := cs.takeWhile Char.isDigit
  (ds, cs.drop ds.length)

def signPart (cs : List Char) : Bool × List Char :=
  match cs with
  | '-' :: rest => (true, rest)
  | _ => (false, cs)

def wholePart (cs : List Char) : List Char × List Char :=
  let whole := match cs with
    | '0' :: _ => ['0']
    | _ => cs.takeWhile Char.isDigit
  (whole, cs.drop whole.length)

def fractionPart (cs : List Char) : List Char × List Char :=
  match cs with
  | '.' :: rest =>
    let (ds, tail) := digitsPart rest
    if ds.isEmpty then ([], cs) else (ds, tail)
  | _ => ([], cs)

def directionPart (cs : List Char) : Bool × List Char :=
  match cs with
  | '-' :: t => (true, t)
  | '+' :: t => (false, t)
  | t => (false, t)

def exponentPart (cs : List Char) : Option (Bool × List Char) × List Char :=
  match cs with
  | 'e' :: rest | 'E' :: rest =>
    let (down, tail) := directionPart rest
    let (ds, tail) := digitsPart tail
    if ds.isEmpty then (none, cs) else (some (down, ds), tail)
  | _ => (none, cs)

/-- The parts of a number one after the other. -/
theorem read?_eq (cs : List Char) : read? cs =
    let (negative, cs) := signPart cs
    let (whole, cs) := wholePart cs
    if whole.isEmpty then none
    else
      let (fraction, cs) := fractionPart cs
      let (exponent, cs) := exponentPart cs
      some (⟨negative, whole, fraction, exponent⟩, cs) := rfl

theorem isPart_digitsPart : IsPart digitsPart where
  plain cs := ⟨_, (List.prefix_iff_eq_append.mp (List.takeWhile_prefix _)).symm,
    isPlain_of_all rfl rfl (List.all_eq_true.mp List.all_takeWhile)⟩
  same hnext cs := by
    simp only [digitsPart, takeWhile_next (p := Char.isDigit) rfl hnext,
      List.drop_append_of_le_length (List.takeWhile_prefix _).length_le]

theorem isPart_signPart : IsPart signPart where
  plain cs := by
    unfold signPart
    split
    · exact ⟨['-'], rfl, by simp [IsPlain]⟩
    · exact ⟨[], rfl, isPlain_nil⟩
  same hnext cs := by
    rcases cs with _ | ⟨c, rest⟩
    · rcases hnext with rfl | ⟨line, rfl⟩ <;> rfl
    · by_cases hc : c = '-'
      · subst hc
        rfl
      · simp [signPart, hc]

theorem isPart_directionPart : IsPart directionPart where
  plain cs := by
    unfold directionPart
    split
    · exact ⟨['-'], rfl, by simp [IsPlain]⟩
    · exact ⟨['+'], rfl, by simp [IsPlain]⟩
    · exact ⟨[], rfl, isPlain_nil⟩
  same hnext cs := by
    rcases cs with _ | ⟨c, rest⟩
    · rcases hnext with rfl | ⟨line, rfl⟩ <;> rfl
    · by_cases hdown : c = '-'
      · subst hdown
        rfl
      · by_cases hup : c = '+'
        · subst hup
          rfl
        · simp [directionPart, hdown, hup]

theorem isPart_wholePart : IsPart wholePart where
  plain cs := by
    unfold wholePart
    split
    · exact ⟨['0'], rfl, by simp [IsPlain]⟩
    · exact isPart_digitsPart.plain cs
  same hnext cs := by
    rcases cs with _ | ⟨c, rest⟩
    · rcases hnext with rfl | ⟨line, rfl⟩ <;> rfl
    · by_cases hc : c = '0'
      · subst hc
        rfl
      · have hdigits : ∀ rest, wholePart (c :: rest) = digitsPart (c :: rest) := fun rest => by
          simp [wholePart, hc, digitsPart]
        rw [List.cons_append, hdigits, hdigits, ← List.cons_append, isPart_digitsPart.same hnext]

theorem wholePart_ne {cs : List Char} (h : (wholePart cs).1 ≠ []) : (wholePart cs).2 ≠ cs := by
  intro hsame
  have hlength : (cs.drop (wholePart cs).1.length).length = cs.length := congrArg List.length hsame
  have hpos := List.length_pos_iff.mpr h
  rcases cs with _ | ⟨c, rest⟩
  · exact h rfl
  · rw [List.length_drop, List.length_cons] at hlength
    omega

theorem isPart_fractionPart : IsPart fractionPart where
  plain cs := by
    unfold fractionPart
    split
    · rename_i rest
      dsimp only
      split
      · exact ⟨[], rfl, isPlain_nil⟩
      · obtain ⟨taken, htaken, hplain⟩ := isPart_digitsPart.plain rest
        exact ⟨'.' :: taken, congrArg ('.' :: ·) htaken,
          List.forall_mem_cons.mpr ⟨by decide, hplain⟩⟩
    · exact ⟨[], rfl, isPlain_nil⟩
  same hnext cs := by
    rcases cs with _ | ⟨c, rest⟩
    · rcases hnext with rfl | ⟨line, rfl⟩ <;> rfl
    · by_cases hc : c = '.'
      · subst hc
        simp only [List.cons_append, fractionPart, isPart_digitsPart.same hnext]
        split <;> rfl
      · simp [fractionPart, hc]

theorem isPart_exponentPart : IsPart exponentPart where
  plain cs := by
    have hcons : ∀ c rest, c ≠ '"' ∧ c ≠ '#' → ∃ taken,
        c :: rest = taken ++ (digitsPart (directionPart rest).2).2 ∧ IsPlain taken := by
      intro c rest hc
      obtain ⟨taken, htaken, hplain⟩ := isPart_directionPart.plain rest
      obtain ⟨taken', htaken', hplain'⟩ := isPart_digitsPart.plain (directionPart rest).2
      refine ⟨c :: (taken ++ taken'), ?_, List.forall_mem_cons.mpr ⟨hc,
        List.forall_mem_append.mpr ⟨hplain, hplain'⟩⟩⟩
      rw [List.cons_append, List.append_assoc, ← htaken', ← htaken]
    have hnone : ∃ taken, cs = taken ++ cs ∧ IsPlain taken := ⟨[], rfl, isPlain_nil⟩
    unfold exponentPart
    split
    · dsimp only
      split
      · exact hnone
      · exact hcons _ _ (by decide)
    · dsimp only
      split
      · exact hnone
      · exact hcons _ _ (by decide)
    · exact hnone
  same hnext cs := by
    rcases cs with _ | ⟨c, rest⟩
    · rcases hnext with rfl | ⟨line, rfl⟩ <;> rfl
    · by_cases hlower : c = 'e'
      · subst hlower
        simp only [List.cons_append, exponentPart, isPart_directionPart.same hnext,
          isPart_digitsPart.same hnext]
        split <;> rfl
      · by_cases hupper : c = 'E'
        · subst hupper
          simp only [List.cons_append, exponentPart, isPart_directionPart.same hnext,
            isPart_digitsPart.same hnext]
          split <;> rfl
        · simp [exponentPart, hlower, hupper]

end NumberLiteral

namespace Sdl

variable {text rest next : List Char}

theorem read?_next {l : NumberLiteral} (h : NumberLiteral.read? text = some (l, rest))
    (hnext : IsNext next) :
    TakesPlain text rest ∧ NumberLiteral.read? (text ++ next) = some (l, rest ++ next) := by
  rw [NumberLiteral.read?_eq] at h ⊢
  simp only [NumberLiteral.isPart_signPart.same hnext, NumberLiteral.isPart_wholePart.same hnext,
    NumberLiteral.isPart_fractionPart.same hnext, NumberLiteral.isPart_exponentPart.same hnext]
  dsimp only at h
  rw [Option.ite_none_left_eq_some] at h
  obtain ⟨hwhole, heq⟩ := h
  cases heq
  rw [if_neg hwhole]
  refine ⟨?_, rfl⟩
  obtain ⟨signed, htext, hsigned⟩ := NumberLiteral.isPart_signPart.plain text
  obtain ⟨digits, hdigits, hplain⟩ :=
    NumberLiteral.isPart_wholePart.plain (NumberLiteral.signPart text).2
  have hne := NumberLiteral.wholePart_ne (mt List.isEmpty_iff.mpr hwhole)
  generalize NumberLiteral.wholePart (NumberLiteral.signPart text).2 = afterWhole at *
  obtain ⟨point, hpoint, hplain'⟩ := NumberLiteral.isPart_fractionPart.plain afterWhole.2
  obtain ⟨power, hpower, hplain''⟩ :=
    NumberLiteral.isPart_exponentPart.plain (NumberLiteral.fractionPart afterWhole.2).2
  refine ⟨signed ++ (digits ++ (point ++ power)), ?_, ?_, ?_⟩
  · simp only [List.append_assoc, ← hpower, ← hpoint, ← hdigits, ← htext]
  · have hdigits : digits ≠ [] := by
      rintro rfl
      exact hne hdigits.symm
    exact List.append_ne_nil_of_right_ne_nil _ (List.append_ne_nil_of_left_ne_nil hdigits _)
  · exact List.forall_mem_append.mpr ⟨hsigned, List.forall_mem_append.mpr ⟨hplain,
      List.forall_mem_append.mpr ⟨hplain', hplain''⟩⟩⟩

theorem readNumber_eq_some_iff {l : NumberLiteral} : readNumber text = some (l, rest) ↔
    NumberLiteral.read? text = some (l, rest) ∧
      ∀ c more, rest = c :: more → isNameStart c = false := by
  unfold readNumber
  cases hread : NumberLiteral.read? text with
  | none => simp
  | some r =>
    obtain ⟨l', _ | ⟨c, more⟩⟩ := r
    · simp only [Option.some.injEq, Prod.mk.injEq]
      refine ⟨?_, fun h => h.1⟩
      rintro ⟨rfl, rfl⟩
      exact ⟨⟨rfl, rfl⟩, fun _ _ h => by cases h⟩
    · simp only [Option.ite_none_left_eq_some, Option.some.injEq, Prod.mk.injEq,
        Bool.not_eq_true]
      constructor
      · rintro ⟨hc, rfl, rfl⟩
        refine ⟨⟨rfl, rfl⟩, ?_⟩
        rintro c' more' ⟨⟩
        exact hc
      · rintro ⟨⟨rfl, rfl⟩, hc⟩
        exact ⟨hc c more rfl, rfl, rfl⟩

theorem settled_readNumberText : Settled number.readNumberText := by
  refine settled_of_plain fun {text a rest next} h hnext => ?_
  obtain ⟨⟨l, tail⟩, hnumber, heq⟩ := Option.map_eq_some_iff.mp h
  cases heq
  obtain ⟨hread, hends⟩ := readNumber_eq_some_iff.mp hnumber
  obtain ⟨htaken, hread⟩ := read?_next hread hnext
  refine ⟨htaken, ?_⟩
  have hnumber : readNumber (text ++ next) = some (l, rest ++ next) := by
    refine readNumber_eq_some_iff.mpr ⟨hread, ?_⟩
    intro c more hmore
    cases rest with
    | nil =>
      rcases hnext with rfl | ⟨line, rfl⟩
      · cases hmore
      · cases hmore
        rfl
    | cons d tail =>
      cases hmore
      exact hends c tail rfl
  rw [number.readNumberText, hnumber, Option.map_some]
  simp only [List.length_append, Nat.add_sub_add_right]

end Sdl

end SchemaAssembly
