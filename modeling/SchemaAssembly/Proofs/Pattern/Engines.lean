import SchemaAssembly.Pattern.Engine
import SchemaAssembly.Proofs.Pattern.FramedItems

/-!
What is asked of an engine for patterns. Which parts of a text a pattern spans is given beside the
engine: a text passes a test if the pattern spans some part of it, and a group between the two ends
of the text spans what is inside the group, where that is the whole text. The standard engine is one
of these.
-/

set_option autoImplicit false

namespace SchemaAssembly

/-- Whether a pattern spans the part of a text between two positions. -/
abbrev PatternSpans := String → List Char → Nat → Nat → Bool

/-- The engine makes its tests by these spans. The law of the frame is that of a group after `^` and
before `$`; it is asked only of texts that are patterns both by themselves and in the frame, as the
one may be a pattern without the other. -/
structure PatternEngine.Documented (engine : PatternEngine) (spans : PatternSpans) : Prop where
  found : ∀ source passes, engine source = some passes → ∀ s : String,
    passes s = true ↔ ∃ i j, i ≤ j ∧ j ≤ s.toList.length ∧ spans source s.toList i j = true
  framed : ∀ source, (engine source).isSome = true → (engine (Pattern.frame source)).isSome = true →
    ∀ cs i j, i ≤ j → j ≤ cs.length → (spans (Pattern.frame source) cs i j = true ↔
      i = 0 ∧ j = cs.length ∧ spans source cs i j = true)

/-- The test of a framed pattern is whether the pattern spans the whole text. -/
theorem PatternEngine.Documented.passes_frame {engine : PatternEngine} {spans : PatternSpans}
    (h : engine.Documented spans) {source : String} (hsource : (engine source).isSome = true)
    {passes : String → Bool} (hframe : engine (Pattern.frame source) = some passes) (s : String) :
    passes s = true ↔ spans source s.toList 0 s.toList.length = true := by
  have hframed := h.framed source hsource (by rw [hframe, Option.isSome_some]) s.toList
  rw [h.found _ _ hframe]
  constructor
  · rintro ⟨i, j, hij, hj, hspans⟩
    obtain ⟨rfl, rfl, hwhole⟩ := (hframed i j hij hj).mp hspans
    exact hwhole
  · intro hwhole
    exact ⟨0, _, Nat.zero_le _, Nat.le_refl _,
      (hframed 0 _ (Nat.zero_le _) (Nat.le_refl _)).mpr ⟨rfl, rfl, hwhole⟩⟩

def PatternSpans.standard : PatternSpans := fun source cs i j =>
  (Pattern.ofText? source).any fun p => p.covers cs i j

theorem PatternSpans.standard_of_ofText? {source : String} {p : Pattern}
    (h : Pattern.ofText? source = some p) {cs : List Char} {i j : Nat} (hij : i ≤ j)
    (hj : j ≤ cs.length) : standard source cs i j = true ↔ p.Spans cs i j := by
  rw [standard, h, Option.any_some, Pattern.covers_iff]
  exact and_iff_right (Nat.le_trans hij hj)

theorem PatternEngine.standard_documented : standard.Documented .standard where
  found source passes h s := by
    obtain ⟨p, hp, rfl⟩ := Option.map_eq_some_iff.mp h
    rw [Pattern.isFoundIn_iff]
    constructor
    · rintro ⟨i, j, hi, hspans⟩
      exact ⟨i, j, hspans.le, hspans.le_length hi,
        (PatternSpans.standard_of_ofText? hp hspans.le (hspans.le_length hi)).mpr hspans⟩
    · rintro ⟨i, j, hij, hj, hspans⟩
      exact ⟨i, j, Nat.le_trans hij hj, (PatternSpans.standard_of_ofText? hp hij hj).mp hspans⟩
  framed source hsource hframe cs i j hij hj := by
    rw [standard, Option.isSome_map] at hsource hframe
    obtain ⟨p, hp⟩ := Option.isSome_iff_exists.mp hsource
    have hframed : Pattern.ofText? (Pattern.frame source) = some p.framed := by
      rcases Pattern.ofText?_frame hp with hnone | hsome
      · rw [hnone] at hframe
        cases hframe
      · exact hsome
    rw [PatternSpans.standard_of_ofText? hp hij hj, PatternSpans.standard_of_ofText? hframed hij hj,
      Pattern.spans_framed (Nat.le_trans hij hj)]

theorem PatternEngine.isSome_standard_frame {source : String} {p : Pattern}
    (h : Pattern.ofText? source = some p) (hhash : '#' ∉ source.toList)
    (hroom : p.weight + 96 ≤ Pattern.weightLimit) :
    (standard (Pattern.frame source)).isSome = (standard source).isSome := by
  rw [standard, standard, Pattern.ofText?_frame_of_notMem h hhash hroom, h]
  rfl

end SchemaAssembly
