import Mathlib.Data.List.Forall2
import SchemaAssembly.Proofs.Pattern.Engines
import SchemaAssembly.Proofs.Validation.Ranges

/-!
Validation before a fetcher. The fetcher behind it is reached just if no constraint on an argument is
violated; otherwise the result is null with one error for each violated constraint, and a
subscription fails with the first of them.
-/

set_option autoImplicit false

namespace SchemaAssembly

namespace DirectiveUse

variable (engine : PatternEngine) (spans : PatternSpans)

def integer? (d : DirectiveUse) (name : String) : Option Int :=
  match d.argument? name with
  | some (.int n) => some n
  | _ => none

def number? (d : DirectiveUse) (name : String) : Option Binary64 :=
  (d.argument? name).bind Json.asBinary64?

def text? (d : DirectiveUse) (name : String) : Option String :=
  (d.argument? name).bind Json.asString?

def LacksText (given : Option Json) : Prop :=
  ¬ ∃ s ∈ given.bind Json.asString?, ∃ c ∈ s.toList, isBlank c = false

/-- A text, list or object with too few or too many characters, items or members. -/
def HasWrongSize (d : DirectiveUse) (given : Option Json) : Prop :=
  ∃ n ∈ given.bind sizeOf?,
    (n : Int) < (d.integer? "min").getD 0 ∨ (d.integer? "max").getD 2147483647 < (n : Int)

def IsOutOfRange (d : DirectiveUse) (given : Option Json) : Prop :=
  ∃ x ∈ given.bind Json.asBinary64?,
    (∃ l ∈ d.number? "min", x.units < l.units) ∨ ∃ m ∈ d.number? "max", m.units < x.units

/-- A text that the pattern, if it is one, does not span as a whole. -/
def Mismatches (d : DirectiveUse) (given : Option Json) : Prop :=
  ∃ source ∈ d.text? "regexp", (engine source).isSome = true ∧
    ∃ s ∈ given.bind Json.asString?, spans source s.toList 0 s.toList.length = false

/-- The directive states a constraint, and the value, if one is given, does not keep it. -/
def IsViolatedBy (d : DirectiveUse) (given : Option Json) : Prop :=
  d.name = "NotBlank" ∧ LacksText given ∨ d.name = "Size" ∧ d.HasWrongSize given ∨
    d.name = "Range" ∧ d.IsOutOfRange given ∨ d.name = "Pattern" ∧ d.Mismatches engine spans given

instance (given : Option Json) : Decidable (LacksText given) :=
  decidable_of_iff ((given.bind Json.asString?).all isBlankText = true) <| by
    simp [LacksText, isBlankText, Option.all_eq_true]

instance (d : DirectiveUse) (given : Option Json) : Decidable (d.HasWrongSize given) :=
  inferInstanceAs (Decidable (∃ n ∈ given.bind sizeOf?, _ ∨ _))

instance (d : DirectiveUse) (given : Option Json) : Decidable (d.IsOutOfRange given) :=
  inferInstanceAs (Decidable (∃ x ∈ given.bind Json.asBinary64?,
    (∃ l ∈ d.number? "min", x.units < l.units) ∨ ∃ m ∈ d.number? "max", m.units < x.units))

instance (d : DirectiveUse) (given : Option Json) : Decidable (d.Mismatches engine spans given) :=
  inferInstanceAs (Decidable (∃ source ∈ d.text? "regexp", (engine source).isSome = true ∧
    ∃ s ∈ given.bind Json.asString?, spans source s.toList 0 s.toList.length = false))

instance (d : DirectiveUse) (given : Option Json) : Decidable (d.IsViolatedBy engine spans given) :=
  inferInstanceAs (Decidable (_ ∧ _ ∨ _ ∧ _ ∨ _ ∧ _ ∨ _ ∧ _))

/-- Sizes are integers of 64 bits, and a pattern is one in the frame just if it is one by itself. -/
structure IsSound (d : DirectiveUse) : Prop where
  least : d.name = "Size" → ∀ n ∈ d.integer? "min",
    -0x8000000000000000 ≤ n ∧ n < 0x8000000000000000
  most : d.name = "Size" → ∀ n ∈ d.integer? "max",
    -0x8000000000000000 ≤ n ∧ n < 0x8000000000000000
  pattern : d.name = "Pattern" → ∀ source ∈ d.text? "regexp",
    (engine (Pattern.frame source)).isSome = (engine source).isSome

end DirectiveUse

section Violations

open DirectiveUse

variable {engine : PatternEngine} {spans : PatternSpans} {d : DirectiveUse} {given : Option Json}

theorem isViolatedBy_notBlank :
    Constraint.notBlank.isViolatedBy (given.getD .null) = true ↔ LacksText given := by
  rcases given with - | v
  · simp [Constraint.isViolatedBy, LacksText]
  · cases v <;> simp [Constraint.isViolatedBy, LacksText, Json.asString?, isBlankText]

theorem isViolatedBy_size (least most : Int) :
    (Constraint.size least most).isViolatedBy (given.getD .null) = true ↔
      ∃ n ∈ given.bind sizeOf?, (n : Int) < least ∨ most < (n : Int) := by
  rcases given with - | v
  · simp [Constraint.isViolatedBy]
  · cases v <;> simp [Constraint.isViolatedBy, sizeOf?]

theorem isViolatedBy_range (least most : Option Binary64) :
    (Constraint.range least most).isViolatedBy (given.getD .null) = true ↔
      ∃ x ∈ given.bind Json.asBinary64?,
        (∃ l ∈ least, x.units < l.units) ∨ ∃ m ∈ most, m.units < x.units := by
  rcases given with - | v
  · simp [Constraint.isViolatedBy]
  · cases v <;> simp [Constraint.isViolatedBy, Json.asBinary64?, Binary64.lt, Option.any_eq_true]

theorem isViolatedBy_pattern (source : String) (passes : String → Bool) :
    (Constraint.pattern source passes).isViolatedBy (given.getD .null) = true ↔
      ∃ s ∈ given.bind Json.asString?, passes s = false := by
  rcases given with - | v
  · simp [Constraint.isViolatedBy]
  · cases v <;> simp [Constraint.isViolatedBy, Json.asString?]

theorem bind_asInt64? {name : String}
    (h : ∀ n ∈ d.integer? name, -0x8000000000000000 ≤ n ∧ n < 0x8000000000000000) :
    (d.argument? name).bind Json.asInt64? = d.integer? name := by
  unfold integer? at h ⊢
  rcases hd : d.argument? name with - | v
  · rfl
  · rw [hd] at h
    cases v <;> try rfl
    exact if_pos (h _ rfl)

theorem ofDirective?_size (hd : d.IsSound engine) (hname : d.name = "Size") :
    Constraint.ofDirective? engine d =
      some (.size ((d.integer? "min").getD 0) ((d.integer? "max").getD 2147483647)) := by
  simp [Constraint.ofDirective?, hname, bind_asInt64? (hd.least hname),
    bind_asInt64? (hd.most hname)]

theorem ofDirective?_range (hname : d.name = "Range") :
    Constraint.ofDirective? engine d = some (.range (d.number? "min") (d.number? "max")) := by
  simp [Constraint.ofDirective?, hname, number?]

theorem ofDirective?_notBlank (hname : d.name = "NotBlank") :
    Constraint.ofDirective? engine d = some .notBlank := by
  simp [Constraint.ofDirective?, hname]

theorem ofDirective?_pattern (hname : d.name = "Pattern") :
    Constraint.ofDirective? engine d = do
      let source ← d.text? "regexp"
      let passes ← engine (Pattern.frame source)
      return .pattern source passes := by
  simp [Constraint.ofDirective?, hname, text?, Pattern.frame]

theorem ofDirective?_other (hsize : d.name ≠ "Size") (hrange : d.name ≠ "Range")
    (hblank : d.name ≠ "NotBlank") (hpattern : d.name ≠ "Pattern") :
    Constraint.ofDirective? engine d = none := by
  simp [Constraint.ofDirective?]

/-- A pattern, by itself and in the frame, is kept by the texts that it spans as a whole. -/
theorem pattern_violated_iff (hengine : engine.Documented spans) (hd : d.IsSound engine)
    (hname : d.name = "Pattern") :
    (∃ c, Constraint.ofDirective? engine d = some c ∧
      c.isViolatedBy (given.getD .null) = true) ↔ d.Mismatches engine spans given := by
  rw [ofDirective?_pattern hname]
  unfold Mismatches
  rcases hsource : d.text? "regexp" with - | source
  · simp
  · have hsound := hd.pattern hname source hsource
    rcases hframe : engine (Pattern.frame source) with - | passes
    · rw [hframe, Option.isSome_none] at hsound
      simp [hframe, ← hsound]
    · rw [hframe, Option.isSome_some] at hsound
      have hwhole (s : String) :
          passes s = false ↔ spans source s.toList 0 s.toList.length = false := by
        rw [← Bool.not_eq_true, ← Bool.not_eq_true, hengine.passes_frame hsound.symm hframe]
      simp [hframe, ← hsound, isViolatedBy_pattern, hwhole]

/-- The constraint of a directive is violated by what violates the directive. -/
theorem constraint_violated_iff (hengine : engine.Documented spans) (hd : d.IsSound engine) :
    (∃ c, Constraint.ofDirective? engine d = some c ∧ c.isViolatedBy (given.getD .null) = true) ↔
      d.IsViolatedBy engine spans given := by
  unfold IsViolatedBy
  by_cases hblank : d.name = "NotBlank"
  · simp [ofDirective?_notBlank hblank, isViolatedBy_notBlank, hblank]
  by_cases hsize : d.name = "Size"
  · simp [ofDirective?_size hd hsize, isViolatedBy_size, hsize, HasWrongSize]
  by_cases hrange : d.name = "Range"
  · simp [ofDirective?_range hrange, isViolatedBy_range, hrange, IsOutOfRange]
  by_cases hpattern : d.name = "Pattern"
  · rw [pattern_violated_iff hengine hd hpattern]
    simp [hpattern]
  · simp [ofDirective?_other hsize hrange hblank hpattern, hblank, hsize, hrange, hpattern]

/-- A pattern without comments is sound, if there is room for the frame. -/
theorem DirectiveUse.isSound_of_readable {source : String} {p : Pattern} (hname : d.name = "Pattern")
    (hsource : d.text? "regexp" = some source) (hread : Pattern.ofText? source = some p)
    (hhash : '#' ∉ source.toList) (hroom : p.weight + 96 ≤ Pattern.weightLimit) :
    d.IsSound .standard where
  least h := absurd (hname.symm.trans h) (by decide)
  most h := absurd (hname.symm.trans h) (by decide)
  pattern _ text htext := by
    obtain rfl : source = text := Option.some.inj (hsource.symm.trans htext)
    exact PatternEngine.isSome_standard_frame hread hhash hroom

theorem DirectiveUse.isSound_of_name (hsize : d.name ≠ "Size") (hpattern : d.name ≠ "Pattern") :
    d.IsSound engine :=
  ⟨fun h => absurd h hsize, fun h => absurd h hsize, fun h => absurd h hpattern⟩

end Violations

def FieldDef.uses (f : FieldDef) : List (InputField × DirectiveUse) :=
  f.arguments.values.flatMap fun a => a.directives.map fun d => (a, d)

def FieldDef.violatedUses (f : FieldDef) (engine : PatternEngine) (spans : PatternSpans)
    (e : FieldEnvironment) : List (InputField × DirectiveUse) :=
  f.uses.filter fun u => u.2.IsViolatedBy engine spans (e.argument? u.1.name)

/-- An error about a violated constraint: it names the argument, and says the message of the
directive where that has one. -/
structure Reports (e : FieldEnvironment) (u : InputField × DirectiveUse) (err : ResponseError) :
    Prop where
  kind : err.kind? = some .badRequest
  path : err.path = e.path
  message : ∃ text, err.message = u.1.name ++ " " ++ text ∧ ∀ m ∈ u.2.text? "message", text = m

section Gate

variable {engine : PatternEngine} {spans : PatternSpans} {f : FieldDef} {e : FieldEnvironment}

def useViolation? (engine : PatternEngine) (e : FieldEnvironment)
    (u : InputField × DirectiveUse) : Option String :=
  (ValidationRule.ofUse? engine u.1 u.2).bind fun r =>
    r.violation? ((e.argument? r.argument).getD .null)

theorem violations_ofField (engine : PatternEngine) (f : FieldDef) (e : FieldEnvironment) :
    violations (ValidationRule.ofField engine f) e = f.uses.filterMap (useViolation? engine e) := by
  have hrules : ValidationRule.ofField engine f =
      f.uses.filterMap fun u => ValidationRule.ofUse? engine u.1 u.2 := by
    simp only [ValidationRule.ofField, FieldDef.uses, List.filterMap_flatMap, List.filterMap_map]
    rfl
  rw [violations, hrules, List.filterMap_filterMap]
  rfl

theorem isSome_useViolation? (hengine : engine.Documented spans) {u : InputField × DirectiveUse}
    (hu : u.2.IsSound engine) : (useViolation? engine e u).isSome = true ↔
      u.2.IsViolatedBy engine spans (e.argument? u.1.name) := by
  rw [← constraint_violated_iff hengine hu]
  unfold useViolation? ValidationRule.ofUse?
  cases Constraint.ofDirective? engine u.2 with
  | none => simp
  | some c => simp [ValidationRule.isSome_violation?]

theorem reports_of_useViolation? {u : InputField × DirectiveUse} {message : String}
    (h : useViolation? engine e u = some message) : Reports e u (violationError e message) where
  kind := rfl
  path := rfl
  message := by
    unfold useViolation? ValidationRule.ofUse? at h
    cases hc : Constraint.ofDirective? engine u.2 with
    | none => simp [hc] at h
    | some c =>
      simp only [hc, Option.map_some, Option.bind_some, ValidationRule.violation?] at h
      split at h
      · cases h
        refine ⟨_, rfl, fun m hm => ?_⟩
        have hstated : (u.2.argument? "message").bind Json.asString? = some m := hm
        rw [hstated]
        rfl
      · cases h

theorem forall₂_filterMap {α β : Type} {p : α → Prop} [DecidablePred p] {g : α → Option β}
    {l : List α} (h : ∀ x ∈ l, (g x).isSome = true ↔ p x) :
    List.Forall₂ (fun x y => g x = some y) (l.filter fun x => p x) (l.filterMap g) := by
  induction l with
  | nil => exact .nil
  | cons x l ih =>
    have hx := h x List.mem_cons_self
    have htail := ih fun y hy => h y (List.mem_cons_of_mem x hy)
    cases hg : g x with
    | none =>
      rw [List.filterMap_cons_none hg, List.filter_cons_of_neg (by simpa [hg] using hx)]
      exact htail
    | some y =>
      rw [List.filterMap_cons_some hg, List.filter_cons_of_pos (by simpa [hg] using hx)]
      exact .cons hg htail

theorem fetch_validation (engine : PatternEngine) (w : WiredField) (inner : Fetcher)
    (e : FieldEnvironment) :
    (DirectiveWiring.validation engine w inner).fetch e =
      match violations (ValidationRule.ofField engine w.field) e with
      | [] => inner.fetch e
      | messages => .done (.ok ⟨.null, messages.map (violationError e)⟩) := by
  unfold DirectiveWiring.validation
  cases hrules : ValidationRule.ofField engine w.field <;> rfl

theorem subscribe_validation (engine : PatternEngine) (w : WiredField) (inner : Fetcher)
    (e : FieldEnvironment) :
    (DirectiveWiring.validation engine w inner).subscribe e =
      match violations (ValidationRule.ofField engine w.field) e with
      | [] => inner.subscribe e
      | message :: _ => some (.error (.ofKind .badRequest message)) := by
  unfold DirectiveWiring.validation
  cases hrules : ValidationRule.ofField engine w.field <;> rfl

/-- Where the constraints of a field are sound, its fetcher is reached, with the environment as it
is, just if none of them is violated. Otherwise, whatever the fetcher is, the result is null with an
error for each violated one, in order of the arguments and their directives, and a subscription fails
with the first. -/
theorem DirectiveWiring.validation_gates (hengine : engine.Documented spans) {w : WiredField}
    (hsound : ∀ u ∈ w.field.uses, u.2.IsSound engine) (e : FieldEnvironment) :
    (w.field.violatedUses engine spans e = [] → ∀ inner : Fetcher,
      (DirectiveWiring.validation engine w inner).fetch e = inner.fetch e ∧
        (DirectiveWiring.validation engine w inner).subscribe e = inner.subscribe e) ∧
    (w.field.violatedUses engine spans e ≠ [] → ∃ first more,
      List.Forall₂ (Reports e) (w.field.violatedUses engine spans e) (first :: more) ∧
      ∀ inner : Fetcher,
        (DirectiveWiring.validation engine w inner).fetch e =
          .done (.ok ⟨.null, first :: more⟩) ∧
        (DirectiveWiring.validation engine w inner).subscribe e =
          some (.error (.ofKind .badRequest first.message))) := by
  have hmessages := forall₂_filterMap (g := useViolation? engine e) (l := w.field.uses)
    fun u hu => isSome_useViolation? hengine (hsound u hu)
  rw [← violations_ofField] at hmessages
  simp only [fetch_validation, subscribe_validation]
  change List.Forall₂ _ (w.field.violatedUses engine spans e) _ at hmessages
  cases hviolations : violations (ValidationRule.ofField engine w.field) e with
  | nil =>
    rw [hviolations, List.forall₂_nil_right_iff] at hmessages
    exact ⟨fun _ _ => ⟨rfl, rfl⟩, fun h => absurd hmessages h⟩
  | cons message more =>
    rw [hviolations] at hmessages
    refine ⟨fun h => ?_, fun _ => ⟨violationError e message, more.map (violationError e), ?_,
      fun _ => ⟨rfl, rfl⟩⟩⟩
    · rw [h] at hmessages
      cases hmessages
    · rw [← List.map_cons, List.forall₂_map_right_iff]
      exact hmessages.imp fun u message h => reports_of_useViolation? h

def shortSize : DirectiveUse := ⟨"Size", [("max", .int 3)]⟩

def letters : DirectiveUse := ⟨"Pattern", [("regexp", .str "[a-c]+")]⟩

/-- `f(name: String @NotBlank @Size(max: 3), code: String @Pattern(regexp: "[a-c]+"))` -/
def gatedField : FieldDef :=
  ⟨"f", none, .named "Boolean",
    [("name", ⟨"name", none, .named "String", none, [⟨"NotBlank", []⟩, shortSize]⟩),
      ("code", ⟨"code", none, .named "String", none, [letters]⟩)], [], none⟩

def gated : WiredField := ⟨⟨"Query", "f"⟩, gatedField, .initial, none⟩

def refusedRequest : FieldEnvironment :=
  { FieldEnvironment.of ⟨"Query", "f"⟩ with
    arguments := [("code", .str "abd"), ("name", .str "    ")] }

theorem letters_isSound : letters.IsSound .standard := by
  have hread : (Pattern.ofText? "[a-c]+").isSome = true := by decide
  obtain ⟨p, hp⟩ := Option.isSome_iff_exists.mp hread
  have hweight : ((Pattern.ofText? "[a-c]+").all fun p => p.weight + 96 ≤ Pattern.weightLimit) =
      true := by
    decide
  rw [hp] at hweight
  exact DirectiveUse.isSound_of_readable rfl rfl hp (by decide) (by simpa using hweight)

theorem DirectiveWiring.validation_gates_refused :
    PatternEngine.standard.Documented .standard ∧
      (∀ u ∈ gated.field.uses, u.2.IsSound .standard) ∧
      gated.field.violatedUses .standard .standard refusedRequest ≠ [] ∧
      ∃ errors : List ResponseError, errors.length = 3 ∧
        ∀ inner, (DirectiveWiring.validation .standard gated inner).fetch refusedRequest =
          .done (.ok ⟨.null, errors⟩) := by
  have hsound : ∀ u ∈ gated.field.uses, u.2.IsSound .standard := by
    intro u hu
    simp only [FieldDef.uses, gated, gatedField, Entries.values, List.map_cons, List.map_nil,
      List.flatMap_cons, List.flatMap_nil, List.append_nil, List.cons_append, List.nil_append,
      List.mem_cons, List.not_mem_nil, or_false] at hu
    rcases hu with rfl | rfl | rfl
    · exact DirectiveUse.isSound_of_name (by decide) (by decide)
    · exact ⟨fun _ => by decide, fun _ => by decide, fun h => absurd h (by decide)⟩
    · exact letters_isSound
  have hlength : (gated.field.violatedUses .standard .standard refusedRequest).length = 3 := by
    decide
  have hviolated : gated.field.violatedUses .standard .standard refusedRequest ≠ [] := by
    intro h
    rw [h] at hlength
    cases hlength
  have hengine := PatternEngine.standard_documented
  obtain ⟨first, more, hreports, hfetch⟩ :=
    (DirectiveWiring.validation_gates hengine hsound refusedRequest).2 hviolated
  exact ⟨hengine, hsound, hviolated, first :: more, hreports.length_eq.symm.trans hlength,
    fun inner => (hfetch inner).1⟩

/-- `code: String @Pattern(regexp: "(?x)a # first")`, a pattern that ends in a comment. -/
def commented : DirectiveUse := ⟨"Pattern", [("regexp", .str "(?x)a # first")]⟩

def commentedField : FieldDef :=
  ⟨"f", none, .named "Boolean",
    [("code", ⟨"code", none, .named "String", none, [commented]⟩)], [], none⟩

def mismatchedRequest : FieldEnvironment :=
  { FieldEnvironment.of ⟨"Query", "f"⟩ with arguments := [("code", .str "b")] }

/-- The comment swallows the end of the frame, and the pattern is ignored as one that cannot be
read. -/
theorem DirectiveWiring.validation_ignores_commented_pattern :
    (PatternEngine.standard "(?x)a # first").isSome = true ∧
      (commentedField.violatedUses .standard .standard mismatchedRequest).length = 1 ∧
      ∀ inner, DirectiveWiring.validation .standard
        ⟨⟨"Query", "f"⟩, commentedField, .initial, none⟩ inner = inner := by
  have hrules : (ValidationRule.ofField .standard commentedField).isEmpty = true := by decide
  refine ⟨by decide, by decide +kernel, fun inner => ?_⟩
  rw [DirectiveWiring.validation, List.isEmpty_iff.mp hrules]

end Gate

end SchemaAssembly
