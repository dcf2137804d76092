import SchemaAssembly.Proofs.Number.IntegerRounding
import SchemaAssembly.Validation.Rule

/-!
`@Range` on integers. Bounds and values are compared as binary64 numbers, so a value beyond a bound
is let through just if both round to one number. That needs a bound of `2 ^ 53` or more.
-/

set_option autoImplicit false

namespace SchemaAssembly

/-- The integers that a document can hold: 64 bits, with or without a sign. -/
def Integer64 (n : Int) : Prop := -0x8000000000000000 ≤ n ∧ n < 0x10000000000000000

instance (n : Int) : Decidable (Integer64 n) := inferInstanceAs (Decidable (_ ∧ _))

/-- The value lies on the far side of the bound, and they round to different numbers. -/
def RoundedBelow (a b : Int) : Prop := a < b ∧ roundInt a ≠ roundInt b

section Comparing

variable {a b : Int}

theorem Integer64.log2_lt (h : Integer64 a) : a.natAbs.log2 < 1000 := by
  have hsmall : a.natAbs < 2 ^ 65 := by
    obtain ⟨hlow, hhigh⟩ := h
    omega
  by_cases ha : a.natAbs = 0
  · simp [ha]
  · exact ((Nat.log2_lt ha).mpr hsmall).trans (by decide)

theorem ofInt_lt_iff (ha : Integer64 a) (hb : Integer64 b) :
    (Binary64.ofInt a).lt (.ofInt b) = true ↔ RoundedBelow a b := by
  rw [Binary64.ofInt_lt_ofInt ha.log2_lt hb.log2_lt]
  exact roundInt_lt_iff

theorem roundedBelow_iff_of_left (h : a.natAbs < 2 ^ 53) : RoundedBelow a b ↔ a < b := by
  unfold RoundedBelow
  rw [ne_comm, Ne, roundInt_eq_iff_of_natAbs_lt h]
  omega

theorem roundedBelow_iff_of_right (h : b.natAbs < 2 ^ 53) : RoundedBelow a b ↔ a < b := by
  unfold RoundedBelow
  rw [Ne, roundInt_eq_iff_of_natAbs_lt h]
  omega

end Comparing

namespace ValidationRule

def ofUse? (engine : PatternEngine) (a : InputField) (d : DirectiveUse) : Option ValidationRule :=
  (Constraint.ofDirective? engine d).map fun c =>
    ⟨a.name, c, (d.argument? "message").bind Json.asString?⟩

theorem ofArgument_eq (engine : PatternEngine) (a : InputField) :
    ofArgument engine a = a.directives.filterMap (ofUse? engine a) := rfl

theorem isSome_violation? (r : ValidationRule) (v : Json) :
    (r.violation? v).isSome = r.constraint.isViolatedBy v := by
  unfold violation?
  split <;> simp_all

end ValidationRule

/-- A use of `@Range` with integers for those bounds that it has. -/
structure DirectiveUse.IsIntegerRange (d : DirectiveUse) (least most : Option Int) : Prop where
  name : d.name = "Range"
  min : d.argument? "min" = least.map .int
  max : d.argument? "max" = most.map .int
  least64 : ∀ l ∈ least, Integer64 l
  most64 : ∀ m ∈ most, Integer64 m

section Range

variable {engine : PatternEngine} {d : DirectiveUse} {least most : Option Int}

theorem bind_asBinary64? (bound : Option Int) :
    (bound.map Json.int).bind Json.asBinary64? = bound.map Binary64.ofInt := by
  cases bound <;> rfl

theorem DirectiveUse.IsIntegerRange.constraint (h : d.IsIntegerRange least most) :
    Constraint.ofDirective? engine d = some (.range (least.map .ofInt) (most.map .ofInt)) := by
  simp [Constraint.ofDirective?, h.name, h.min, h.max, bind_asBinary64?]

theorem isViolatedBy_int_iff {n : Int} (hleast : ∀ l ∈ least, Integer64 l)
    (hmost : ∀ m ∈ most, Integer64 m) (hn : Integer64 n) :
    (Constraint.range (least.map .ofInt) (most.map .ofInt)).isViolatedBy (.int n) = true ↔
      (∃ l ∈ least, RoundedBelow n l) ∨ ∃ m ∈ most, RoundedBelow m n := by
  have hlow : (least.map Binary64.ofInt).any (fun l => (Binary64.ofInt n).lt l) = true ↔
      ∃ l ∈ least, RoundedBelow n l := by
    cases least with
    | none => simp
    | some l => simpa using ofInt_lt_iff hn (hleast l rfl)
  have hhigh : (most.map Binary64.ofInt).any (fun m => m.lt (Binary64.ofInt n)) = true ↔
      ∃ m ∈ most, RoundedBelow m n := by
    cases most with
    | none => simp
    | some m => simpa using ofInt_lt_iff (hmost m rfl) hn
  rw [← hlow, ← hhigh, ← Bool.or_eq_true]
  rfl

namespace ValidationRule

/-- Every `@Range` with integer bounds on an argument gives a rule at its place. An integer breaks
it just if it lies beyond a bound and does not round to the same number as the bound; so just if it
lies beyond a bound, where the bounds have 53 bits. -/
theorem range_on_integers {a : InputField} {before after : List DirectiveUse}
    (hd : d.IsIntegerRange least most) (ha : a.directives = before ++ d :: after) :
    ∃ r, ofArgument engine a =
        before.filterMap (ofUse? engine a) ++ r :: after.filterMap (ofUse? engine a) ∧
      r.argument = a.name ∧
      ∀ n, Integer64 n →
        ((r.violation? (.int n)).isSome = true ↔
          (∃ l ∈ least, RoundedBelow n l) ∨ ∃ m ∈ most, RoundedBelow m n) ∧
        ((∀ l ∈ least, l.natAbs < 2 ^ 53) → (∀ m ∈ most, m.natAbs < 2 ^ 53) →
          ((r.violation? (.int n)).isSome = true ↔ (∃ l ∈ least, n < l) ∨ ∃ m ∈ most, m < n)) := by
  obtain ⟨r, hr, hname, hconstraint⟩ : ∃ r, ofUse? engine a d = some r ∧ r.argument = a.name ∧
      r.constraint = .range (least.map .ofInt) (most.map .ofInt) := by
    rw [ofUse?, hd.constraint]
    exact ⟨_, rfl, rfl, rfl⟩
  refine ⟨r, by rw [ofArgument_eq, ha, List.filterMap_append, List.filterMap_cons_some hr], hname,
    fun n hn => ?_⟩
  rw [isSome_violation?, hconstraint, isViolatedBy_int_iff hd.least64 hd.most64 hn]
  refine ⟨Iff.rfl, fun hleast hmost => or_congr ?_ ?_⟩
  · exact exists_congr fun l => and_congr_right fun hl => roundedBelow_iff_of_right (hleast l hl)
  · exact exists_congr fun m => and_congr_right fun hm => roundedBelow_iff_of_left (hmost m hm)

/-- `@Range(max: 9007199254740992)`, which is `2 ^ 53`. -/
def wideRange : DirectiveUse := ⟨"Range", [("max", .int 9007199254740992)]⟩

def wideArgument : InputField := ⟨"n", none, .named "Int", none, [wideRange]⟩

theorem range_on_integers_wide :
    wideRange.IsIntegerRange none (some 9007199254740992) ∧ Integer64 9007199254740994 ∧
      ∃ r, ofArgument .standard wideArgument = [r] ∧
        (r.violation? (.int 9007199254740994)).isSome = true := by
  have hrange : wideRange.IsIntegerRange none (some 9007199254740992) :=
    ⟨rfl, rfl, rfl, by simp, by simp [Integer64]⟩
  have hvalue : Integer64 9007199254740994 := by decide
  have hdirectives : wideArgument.directives = [] ++ wideRange :: [] := rfl
  obtain ⟨r, hrules, -, hr⟩ := range_on_integers hrange hdirectives
  refine ⟨hrange, hvalue, r, hrules, (hr _ hvalue).1.mpr (.inr ⟨_, rfl, ?_⟩)⟩
  exact ⟨by decide, by decide⟩

/-- The next integer rounds to the bound, and is let through. -/
theorem range_lets_integer_through :
    (ofArgument .standard wideArgument).map (fun r => r.violation? (.int 9007199254740993)) = [none] ∧
      (9007199254740992 : Int) < 9007199254740993 := by
  decide +kernel

end ValidationRule

end Range

end SchemaAssembly
