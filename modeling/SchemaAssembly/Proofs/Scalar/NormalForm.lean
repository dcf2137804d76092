import SchemaAssembly.Proofs.Scalar.TemporalText
import SchemaAssembly.Scalar.Coercing

/-!
Normal forms of scalars. Each scalar takes more than it gives: unpadded numbers, any spelling of an
offset, underscores, integers as text. What it gives it takes again, as a result and as an input,
and leaves it as it is.
-/

set_option autoImplicit false

namespace SchemaAssembly

namespace Temporal

/-- The offset of a date-time, for which zero has a name of its own. -/
def zoneText (o : UtcOffset) : String :=
  if o.hours = 0 ∧ o.minutes = 0 then "Z" else offsetText o

theorem endsSecond_offsetText (o : UtcOffset) : EndsSecond (offsetText o).toList := by
  obtain ⟨negative, hours, minutes⟩ := o
  cases negative <;> simp [offsetText, EndsSecond]

theorem endsSecond_zoneText (o : UtcOffset) : EndsSecond (zoneText o).toList := by
  unfold zoneText
  split
  · simp [EndsSecond]
  · exact endsSecond_offsetText o

theorem readOffset_zoneText {o : UtcOffset} (h : IsOffset o) :
    readOffset (zoneText o).toList = .ok (o, []) := by
  unfold zoneText
  split
  · next hzero =>
    obtain ⟨negative, hours, minutes⟩ := o
    obtain ⟨rfl, rfl⟩ := hzero
    cases negative with
    | false => rfl
    | true => exact absurd (h.sign rfl) (by decide)
  · exact readOffset_offsetText h

theorem readDateTime_dateTimeText {d : CalendarDate} {t : TimeOfDay} {o : UtcOffset}
    (hd : IsDate d) (hyear : 0 ≤ d.year ∧ d.year ≤ 9999) (ht : IsTime t) (ho : IsOffset o) :
    readDateTime (dateTimeText d t o) = .ok (d, t, o) :=
  readDateTime_text hd hyear ht (endsSecond_zoneText o) (readOffset_zoneText ho) ho.hours

theorem readDateTime_timeText {t : TimeOfDay} {o : UtcOffset} (ht : IsTime t) (ho : IsOffset o) :
    readDateTime ("1970-01-01T" ++ (timeText t ++ offsetText o)) = .ok (⟨1970, 1, 1⟩, t, o) := by
  have hday : dateText ⟨1970, 1, 1⟩ ++ "T" = "1970-01-01T" := by decide
  have hread := readDateTime_text (d := ⟨1970, 1, 1⟩) rfl (by decide) ht (endsSecond_offsetText o)
    (readOffset_offsetText ho) ho.hours
  rwa [hday, String.append_assoc] at hread

end Temporal

theorem exists_read_of_map {α β ε : Type} {x : Except ε α} {write : α → β} {w : β}
    (h : x.map write = .ok w) : ∃ a, x = .ok a ∧ write a = w := by
  cases x with
  | error e => simp [Except.map] at h
  | ok a => exact ⟨a, rfl, by simpa [Except.map] using h⟩

/-- What is read from the written form is what was written. -/
theorem TemporalKind.normalize_normalize {kind : TemporalKind} {s w : String}
    (h : kind.normalize s = .ok w) : kind.normalize w = .ok w := by
  open Temporal in
  cases kind with
  | dateTime =>
    simp only [normalize] at h ⊢
    obtain ⟨⟨d, t, o⟩, hread, rfl⟩ := exists_read_of_map h
    obtain ⟨hd, hyear, ht, ho⟩ := gives_readDateTime s _ hread
    rw [readDateTime_dateTimeText hd hyear ht ho, Except.map]
  | date =>
    simp only [normalize] at h ⊢
    obtain ⟨d, hread, rfl⟩ := exists_read_of_map h
    rw [readDate_dateText (gives_readDate s d hread), Except.map]
  | time =>
    simp only [normalize] at h ⊢
    obtain ⟨⟨d, t, o⟩, hread, rfl⟩ := exists_read_of_map h
    obtain ⟨-, -, ht, ho⟩ := gives_readDateTime _ _ hread
    rw [readDateTime_timeText ht ho, Except.map]
  | localTime =>
    simp only [normalize] at h ⊢
    obtain ⟨t, hread, rfl⟩ := exists_read_of_map h
    rw [readLocalTime_timeText (gives_readLocalTime s t hread), Except.map]

namespace Coercing

/-- Results are in normal form: taken again, as results or as inputs, they stay as they are. -/
def Normal (c : Coercing) : Prop :=
  ∀ v w, c.serialize v = .ok w → c.serialize w = .ok w ∧ c.parseValue w = .ok w

theorem normal_same {f : Json → Except CoercingError Json}
    (h : ∀ v w, f v = .ok w → f w = .ok w) : (same f).Normal :=
  fun v w hw => ⟨h v w hw, h v w hw⟩

theorem expectString_bind_eq_ok {α : Type} {scalar : String} {v : Json} {a : α}
    {next : String → Except CoercingError α} :
    (expectString scalar v >>= next) = .ok a ↔ ∃ s, v = .str s ∧ next s = .ok a := by
  cases v <;> simp [expectString, bind, Except.bind]

theorem normal_temporal (kind : TemporalKind) : (temporal kind).Normal := by
  refine normal_same fun v w h => ?_
  rw [expectString_bind_eq_ok] at h ⊢
  obtain ⟨s, rfl, h⟩ := h
  cases hs : kind.normalize s with
  | error e => rw [hs] at h; cases h
  | ok t =>
    rw [hs] at h
    cases h
    exact ⟨t, rfl, by rw [kind.normalize_normalize hs]; rfl⟩

theorem normal_object : object.Normal := by
  refine normal_same fun v w h => ?_
  cases v with
  | obj ms =>
    cases h
    rfl
  | _ => cases h

theorem normal_any : any.Normal := normal_same fun v w h => by cases h; rfl

theorem map_dash_dash (tag : List Char) :
    ((tag.map fun c => if c = '_' then '-' else c).map fun c => if c = '_' then '-' else c) =
      tag.map fun c => if c = '_' then '-' else c := by
  rw [List.map_map]
  refine List.map_congr_left fun c _ => ?_
  by_cases hc : c = '_' <;> simp [hc]

theorem normal_locale : locale.Normal := by
  refine normal_same fun v w h => ?_
  rw [expectString_bind_eq_ok] at h ⊢
  obtain ⟨s, rfl, h⟩ := h
  by_cases hs : isLocale s.toList = true
  · rw [if_pos hs] at h
    cases h
    have hagain : isLocale (s.toList.map fun c => if c = '_' then '-' else c) = true := by
      rwa [isLocale, subtags, map_dash_dash]
    refine ⟨_, rfl, ?_⟩
    rw [String.toList_ofList, if_pos hagain, map_dash_dash]
    rfl
  · rw [if_neg hs] at h
    cases h

theorem asInt64?_int {v : Json} {n : Int} (h : v.asInt64? = some n) :
    (Json.int n).asInt64? = some n := by
  cases v with
  | int m =>
    simp only [Json.asInt64?, Option.ite_none_right_eq_some, Option.some.injEq] at h ⊢
    obtain ⟨hfits, rfl⟩ := h
    exact ⟨hfits, trivial⟩
  | _ => cases h

theorem asInt64?_of_text {s : String} {n : Int} (h : int64OfText? s = some n) :
    (Json.int n).asInt64? = some n := by
  have hparts : ∀ p : Bool × List Char, (if p.2.isEmpty || !p.2.all Char.isDigit then none
      else (Json.int (if p.1 then -(decimalValue p.2 : Int) else decimalValue p.2)).asInt64?) =
        some n → (Json.int n).asInt64? = some n := by
    intro p hp
    split at hp
    · cases hp
    · exact asInt64?_int hp
  exact hparts _ h

theorem normal_integer (name : String) (low high : Int) : (integer name low high).Normal := by
  have hint : ∀ n : Int, (Json.int n).asInt64? = some n → low ≤ n ∧ n ≤ high →
      (integer name low high).serialize (.int n) = .ok (.int n) ∧
        (integer name low high).parseValue (.int n) = .ok (.int n) := by
    intro n hn hrange
    simp [integer, Coercing.of, hn, inRange, hrange]
  have hranged : ∀ n w, inRange name low high n = .ok w → (low ≤ n ∧ n ≤ high) ∧ w = .int n := by
    intro n w h
    unfold inRange at h
    split at h
    · next hrange =>
      cases h
      exact ⟨hrange, rfl⟩
    · cases h
  intro v w h
  simp only [integer, Coercing.of] at h
  split at h
  · next n hn =>
    obtain ⟨hrange, rfl⟩ := hranged n w h
    refine hint n ?_ hrange
    split at hn
    · exact asInt64?_of_text hn
    · exact asInt64?_int hn
  · cases h

theorem normal_float (name : String) (sign : Sign) : (float name sign).Normal := by
  refine normal_same fun v w h => ?_
  cases hx : v.asBinary64? with
  | none => simp [hx] at h
  | some x =>
    by_cases hsign : sign.accepts x = true
    · simp only [hx, hsign, if_true, Except.ok.injEq] at h
      subst h
      simp [hx, hsign]
    · simp [hx, hsign] at h

end Coercing

/-- Serialized values are in normal form. What an extended scalar other than that of locators gives
for a value, it takes again as a result and as an input, and gives it back unchanged. -/
theorem ScalarType.serialize_normal (s : ScalarSettings) (x : ScalarType) (v w : Json)
    (hx : x ∈ ScalarType.extended s) (hurl : x.name ≠ "Url") (h : x.coercing.serialize v = .ok w) :
    x.coercing.serialize w = .ok w ∧ x.coercing.parseValue w = .ok w := by
  have hdates : ∀ y ∈ timeDates, y.coercing.Normal := by
    simp [timeDates, Coercing.normal_temporal]
  have hobjects : ∀ y ∈ objects, y.name ≠ "Url" → y.coercing.Normal := by
    simp [objects, Coercing.normal_object, Coercing.normal_any, Coercing.normal_locale]
  have hnumbers : ∀ y ∈ numbers, y.coercing.Normal := by
    simp [numbers, integerOf, floatOf, Coercing.normal_integer, Coercing.normal_float]
  have hmem : x ∈ timeDates ∨ x ∈ objects ∨ x ∈ numbers := by
    simp only [extended, List.mem_ite_nil_right, List.mem_append] at hx
    tauto
  rcases hmem with hx | hx | hx
  · exact hdates x hx v w h
  · exact hobjects x hx hurl v w h
  · exact hnumbers x hx v w h

theorem ScalarType.serialize_normal_leap_second :
    ∃ x ∈ ScalarType.extended {}, x.name ≠ "Url" ∧
      x.coercing.serialize (.str "2016-12-31t23:59:60.5z") =
        .ok (.str "2016-12-31T23:59:60.500Z") ∧
      x.coercing.serialize (.str "2016-12-31T23:59:60.500Z") =
        .ok (.str "2016-12-31T23:59:60.500Z") ∧
      x.coercing.parseValue (.str "2016-12-31T23:59:60.500Z") =
        .ok (.str "2016-12-31T23:59:60.500Z") := by
  have hmem : (⟨"DateTime", some "An RFC 3339 date-time with offset", .temporal .dateTime⟩ :
      ScalarType) ∈ ScalarType.extended {} := List.mem_append_left _ List.mem_cons_self
  have hname : "DateTime" ≠ "Url" := by decide
  have hserialize : (Coercing.temporal .dateTime).serialize (.str "2016-12-31t23:59:60.5z") =
      .ok (.str "2016-12-31T23:59:60.500Z") := by rfl
  exact ⟨_, hmem, hname, hserialize, ScalarType.serialize_normal {} _ _ _ hmem hname hserialize⟩

end SchemaAssembly
