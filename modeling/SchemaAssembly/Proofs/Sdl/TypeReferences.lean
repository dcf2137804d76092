import SchemaAssembly.Proofs.Sdl.LineEnds

/-!
References to types as texts. The texts of the grammar are exactly those that are read as a whole,
what is read prints as the text it came from, and every reference that a text can give is read back
from its own text, in front of whatever does not go on with it.
-/

set_option autoImplicit false

namespace SchemaAssembly

/-- Nothing is made nullable twice. -/
def TypeRef.OptionsApart : TypeRef → Prop
  | named _ => True
  | list item => item.OptionsApart
  | option (option _) => False
  | option inner => inner.OptionsApart

namespace Sdl

/-- Texts of references: a name, or a reference in brackets, each with or without a mark. -/
inductive IsTypeText : List Char → Prop where
  | named {n : String} (hn : isName n = true) : IsTypeText n.toList
  | markedName {n : String} (hn : isName n = true) : IsTypeText (n.toList ++ ['!'])
  | list {item : List Char} (h : IsTypeText item) : IsTypeText ('[' :: (item ++ [']']))
  | markedList {item : List Char} (h : IsTypeText item) : IsTypeText ('[' :: (item ++ [']', '!']))

structure EndsReference (rest : List Char) : Prop where
  name : EndsName rest
  mark : ∀ tail, rest ≠ '!' :: tail

def markText (nullable : Bool) : List Char := if nullable then [] else ['!']

def TypeSyntax.text : TypeSyntax → List Char
  | named n nullable => n.toList ++ markText nullable
  | list item nullable => '[' :: (item.text ++ ']' :: markText nullable)

def TypeSyntax.name : TypeSyntax → String
  | named n _ => n
  | list item _ => item.name

section References

variable {t : TypeSyntax} {r : TypeRef} {n : String} {fuel : Nat} {text rest : List Char}

theorem endsReference_nil : EndsReference [] := ⟨rfl, fun _ h => by cases h⟩

theorem endsReference_bracket (rest : List Char) : EndsReference (']' :: rest) :=
  ⟨rfl, fun _ h => by cases h⟩

theorem readNullable_append (hrest : EndsReference rest) (nullable : Bool) :
    readNullable (markText nullable ++ rest) = (nullable, rest) := by
  cases nullable with
  | false => rfl
  | true => exact readNullable.eq_2 rest fun tail heq => hrest.mark tail heq

theorem endsName_markText (hrest : EndsReference rest) (nullable : Bool) :
    EndsName (markText nullable ++ rest) := by
  cases nullable with
  | false => rfl
  | true => exact hrest.name

theorem markText_append (text : List Char) :
    markText (readNullable text).1 ++ (readNullable text).2 = text := by
  unfold readNullable
  split <;> rfl

theorem toList_append_of_readName (h : readName text = some (n, rest)) :
    text = n.toList ++ rest := by
  cases text with
  | nil => cases h
  | cons c tail =>
    rw [readName, Option.ite_none_right_eq_some] at h
    obtain ⟨-, heq⟩ := h
    cases heq
    simp

theorem readTypeWithin_text (hname : isName t.name = true) (hfuel : t.text.length < fuel)
    (hrest : EndsReference rest) : readTypeWithin fuel (t.text ++ rest) = some (t, rest) := by
  induction t generalizing fuel rest with
  | named n nullable =>
    obtain ⟨fuel, rfl⟩ := Nat.exists_eq_succ_of_ne_zero (Nat.ne_zero_of_lt hfuel)
    rw [TypeSyntax.name] at hname
    have hread := readName_append hname (endsName_markText hrest nullable)
    obtain ⟨c, tail, hlist, hc, -⟩ := exists_of_isName hname
    have hbracket : ∀ more, n.toList ++ (markText nullable ++ rest) ≠ '[' :: more := by
      intro more heq
      rw [hlist, List.cons_append] at heq
      cases heq
      cases hc
    rw [TypeSyntax.text, List.append_assoc, readTypeWithin_name hbracket, hread, Option.map_some]
    simp only [readNullable_append hrest]
  | list item nullable ih =>
    obtain ⟨fuel, rfl⟩ := Nat.exists_eq_succ_of_ne_zero (Nat.ne_zero_of_lt hfuel)
    have hless : item.text.length < fuel := by
      simp [TypeSyntax.text] at hfuel
      omega
    have hitem := ih hname hless (endsReference_bracket (markText nullable ++ rest))
    have hread := readTypeWithin_list hitem
    rw [readNullable_append hrest] at hread
    simpa [TypeSyntax.text] using hread

theorem readTypeWithin_eq_some (h : readTypeWithin fuel text = some (t, rest)) :
    isName t.name = true ∧ text = t.text ++ rest := by
  induction fuel generalizing text t rest with
  | zero => cases h
  | succ fuel ih =>
    rcases readTypeWithin_cases h with ⟨more, item, tail, rfl, hitem, rfl, rfl⟩ |
      ⟨n, tail, -, hread, rfl, rfl⟩
    · obtain ⟨hname, rfl⟩ := ih hitem
      refine ⟨hname, ?_⟩
      simp [TypeSyntax.text, markText_append]
    · refine ⟨isName_of_readName hread, ?_⟩
      rw [TypeSyntax.text, List.append_assoc, markText_append, toList_append_of_readName hread]

theorem readType_eq_some_iff :
    readType text = some (t, []) ↔ isName t.name = true ∧ t.text = text := by
  constructor
  · intro h
    obtain ⟨hname, htext⟩ := readTypeWithin_eq_some h
    exact ⟨hname, by rw [htext, List.append_nil]⟩
  · rintro ⟨hname, rfl⟩
    have h := readTypeWithin_text hname (Nat.lt_succ_self _) endsReference_nil
    rwa [List.append_nil] at h

theorem toList_text_ref (t : TypeSyntax) : t.ref.text.toList = t.text := by
  induction t with
  | named n nullable =>
    cases nullable <;> simp [TypeSyntax.ref, TypeSyntax.text, markText, TypeRef.text]
  | list item nullable ih =>
    cases nullable <;> simp [TypeSyntax.ref, TypeSyntax.text, markText, TypeRef.text, ih]

/-- The references that are meant somewhere: over a name, and nullable once at most on each level. -/
theorem exists_ref_iff : (∃ t : TypeSyntax, isName t.name = true ∧ t.ref = r) ↔
    isName r.innermost = true ∧ r.OptionsApart := by
  constructor
  · rintro ⟨t, hname, rfl⟩
    induction t with
    | named n nullable => cases nullable <;> exact ⟨hname, trivial⟩
    | list item nullable ih => cases nullable <;> exact ih hname
  · rintro ⟨hname, hapart⟩
    -- A nullable mark is written with what is under it, so the induction takes both in one step.
    induction r using TypeRef.text.induct with
    | case1 n => exact ⟨.named n false, hname, rfl⟩
    | case2 item ih =>
      obtain ⟨t, ht, rfl⟩ := ih hname hapart
      exact ⟨.list t false, ht, rfl⟩
    | case3 n => exact ⟨.named n true, hname, rfl⟩
    | case4 item ih =>
      obtain ⟨t, ht, rfl⟩ := ih hname hapart
      exact ⟨.list t true, ht, rfl⟩
    | case5 inner ih => exact hapart.elim

theorem readTypeRef_eq_some_iff {s : String} : readTypeRef s.toList = some (r, []) ↔
    (∃ t : TypeSyntax, isName t.name = true ∧ t.ref = r) ∧ r.text = s := by
  rw [readTypeRef, Option.map_eq_some_iff]
  constructor
  · rintro ⟨⟨t, rest⟩, hread, heq⟩
    obtain ⟨rfl, rfl⟩ := Prod.mk.inj heq
    obtain ⟨hname, htext⟩ := readType_eq_some_iff.mp hread
    exact ⟨⟨t, hname, rfl⟩, String.toList_inj.mp ((toList_text_ref t).trans htext)⟩
  · rintro ⟨⟨t, hname, rfl⟩, rfl⟩
    exact ⟨(t, []), readType_eq_some_iff.mpr ⟨hname, (toList_text_ref t).symm⟩, rfl⟩

theorem isTypeText_iff :
    IsTypeText text ↔ ∃ t : TypeSyntax, isName t.name = true ∧ t.text = text := by
  constructor
  · intro h
    induction h with
    | @named n hn => exact ⟨.named n true, hn, List.append_nil _⟩
    | @markedName n hn => exact ⟨.named n false, hn, rfl⟩
    | list h ih =>
      obtain ⟨item, hname, rfl⟩ := ih
      exact ⟨.list item true, hname, rfl⟩
    | markedList h ih =>
      obtain ⟨item, hname, rfl⟩ := ih
      exact ⟨.list item false, hname, rfl⟩
  · rintro ⟨t, hname, rfl⟩
    induction t with
    | named n nullable =>
      cases nullable with
      | false => exact .markedName hname
      | true =>
        rw [TypeSyntax.text, markText, if_pos rfl, List.append_nil]
        exact .named hname
    | list item nullable ih =>
      cases nullable with
      | false => exact .markedList (ih hname)
      | true => exact .list (ih hname)

/-- References survive reading and printing. The texts of the grammar, to any depth, are the texts
that are read as a whole into a reference which prints as the text again; and what a text gives is a
certain reference just if this is over a name, has nothing nullable directly under nullable, and
prints as the text. So every such reference is read back from its own text. -/
theorem readTypeRef_inverts_text :
    (∀ s : String, IsTypeText s.toList ↔
      ∃ t, readTypeRef s.toList = some (t, []) ∧ t.text = s) ∧
    ∀ (s : String) (t : TypeRef), readTypeRef s.toList = some (t, []) ↔
      isName t.innermost = true ∧ t.OptionsApart ∧ t.text = s := by
  refine ⟨fun s => ⟨fun h => ?_, ?_⟩, fun s t => ?_⟩
  · obtain ⟨t, hname, htext⟩ := isTypeText_iff.mp h
    have hs : t.ref.text = s := String.toList_inj.mp ((toList_text_ref t).trans htext)
    exact ⟨t.ref, readTypeRef_eq_some_iff.mpr ⟨⟨t, hname, rfl⟩, hs⟩, hs⟩
  · rintro ⟨r, hread, rfl⟩
    obtain ⟨⟨t, hname, rfl⟩, -⟩ := readTypeRef_eq_some_iff.mp hread
    exact isTypeText_iff.mpr ⟨t, hname, (toList_text_ref t).symm⟩
  · rw [readTypeRef_eq_some_iff, exists_ref_iff, and_assoc]

/-- Lists in lists, with a mark on every second level. -/
example : readTypeRef "[[[Show!]]!]".toList =
    some (.option (.list (.list (.option (.list (.named "Show"))))), []) := by
  decide +kernel

end References

end Sdl

end SchemaAssembly
