import Mathlib.Algebra.GroupWithZero.Nat
import SchemaAssembly.Proofs.Sdl.Names

/-!
Texts of one definition a line. A line that gives its definition wherever it stands can be put in
front of any text, and a whole text then gives the definitions of its lines and goes on with what
the rest would give.
-/

set_option autoImplicit false

namespace SchemaAssembly

namespace Sdl

open Reader

variable {gap rest more : List Char} {line keyword n m w : String} {x : Definition} {t : TypeDef}
  {ns : List String}

/-- A line ends here, and a definition begins on the next one. -/
def EndsLine (rest : List Char) : Prop :=
  ∃ c tail, rest = '\n' :: c :: tail ∧ isNameStart c = true

/-- What stands between the line before and a definition. -/
def IsGap (gap : List Char) : Prop := gap = [] ∨ gap = ['\n']

/-- A line that gives its definition. -/
structure Line (line : String) (x : Definition) : Prop where
  begins : ∃ c tail, line.toList = c :: tail ∧ isNameStart c = true
  reads : ∀ gap rest, IsGap gap → EndsLine rest → Reads definition (gap ++ line.toList) x rest

theorem IsGap.ignored (h : IsGap gap) : ∀ b ∈ gap, isIgnored b = true := by
  rcases h with rfl | rfl
  · exact fun b hb => absurd hb List.not_mem_nil
  · exact List.forall_mem_singleton.mpr rfl

theorem EndsLine.endsName (h : EndsLine rest) : EndsName rest := by
  obtain ⟨c, tail, rfl, -⟩ := h
  rfl

theorem refuses_sign {text tail : List Char} {c : Char} (hskip : skipIgnored text = c :: tail)
    (hc : isNameStart c = true) (hw : ∃ sign, w.toList = [sign] ∧ isNameStart sign = false) :
    Refuses (word w) text := by
  obtain ⟨sign, hsign, hno⟩ := hw
  have hne : sign ≠ c := by
    rintro rfl
    rw [hno] at hc
    cases hc
  apply refuses_lexeme
  rw [hskip, hsign, readWord, if_neg hne]

theorem EndsLine.refuses (h : EndsLine rest)
    (hw : ∃ sign, w.toList = [sign] ∧ isNameStart sign = false) : Refuses (word w) rest := by
  obtain ⟨c, tail, rfl, hc⟩ := h
  have hskip : skipIgnored ('\n' :: c :: tail) = c :: tail := skipIgnored_nameStart hc tail
  exact refuses_sign hskip hc hw

theorem EndsLine.optionalDirectives (h : EndsLine rest) : Reads optionalDirectives [] [] rest := by
  have hat : Refuses directives rest := (h.refuses ⟨'@', rfl, rfl⟩).bind.bind
  exact hat.optional.pure_bind

def keyworded : Reader TypeDef :=
  firstOf [scalarType none, objectType none, interfaceType none, unionType none, enumType none,
    inputType none]

theorem line_type (hkeyword : keyword = "scalar" ∨ keyword = "type" ∨ keyword = "union")
    (htext : line.toList = keyword.toList ++ more)
    (h : ∀ gap rest, IsGap gap → EndsLine rest →
      Reads keyworded (gap ++ keyword.toList ++ more) t rest) : Line line (.type t) where
  begins := by
    rw [htext]
    rcases hkeyword with rfl | rfl | rfl <;> exact ⟨_, _, rfl, rfl⟩
  reads := by
    intro gap rest hgap hrest
    have hschema : Refuses schemaDefinition (gap ++ keyword.toList ++ more ++ rest) := by
      rcases hgap with rfl | rfl <;> rcases hkeyword with rfl | rfl | rfl <;> exact fun _ _ => rfl
    have hextend : Refuses schemaExtension (gap ++ keyword.toList ++ more ++ rest) := by
      rcases hgap with rfl | rfl <;> rcases hkeyword with rfl | rfl | rfl <;> exact fun _ _ => rfl
    have hdescription : Refuses (lexeme readString) (gap ++ keyword.toList ++ more ++ rest) := by
      rcases hgap with rfl | rfl <;> rcases hkeyword with rfl | rfl | rfl <;> exact fun _ _ => rfl
    have htype : Reads typeDefinition (gap ++ keyword.toList ++ more) t rest :=
      hdescription.optional.nil_bind (h gap rest hgap hrest)
    rw [htext, ← List.append_assoc]
    exact .or_right hschema.bind (.or_right hextend.bind (.or_left htype.pure_bind))

theorem line_scalar (hn : isName n = true) :
    Line ("scalar " ++ n) (.type ⟨n, none, [], .scalar⟩) := by
  have htext : ("scalar " ++ n).toList = "scalar".toList ++ ([' '] ++ n.toList) := by simp
  refine line_type (.inl rfl) htext ?_
  intro gap rest hgap hrest
  have hname := reads_name [' '] ignored_blank hn hrest.endsName
  refine .or_left ((reads_word gap hgap.ignored rfl).bind ?_)
  rw [← List.append_nil ([' '] ++ n.toList)]
  exact hname.bind hrest.optionalDirectives.pure_bind

/-- The members of a union after the first, as they are written. -/
def memberItems (ns : List String) : List (List Char × String) :=
  ns.map fun n => ([' '] ++ "|".toList ++ ([' '] ++ n.toList), n)

theorem endsName_memberItems (ns : List String) (hrest : EndsName rest) :
    EndsName (joined (memberItems ns) ++ rest) := by
  cases ns with
  | nil => exact hrest
  | cons n ns => rfl

theorem readsEach_memberItems (hns : ∀ n ∈ ns, isName n = true) (hrest : EndsName rest) :
    ReadsEach (do word "|"; name) rest (memberItems ns) := by
  induction ns with
  | nil => exact .nil
  | cons n ns ih =>
    rw [List.forall_mem_cons] at hns
    refine .cons (by simp) ?_ (ih hns.2)
    exact (reads_word [' '] ignored_blank rfl).bind
      (reads_name [' '] ignored_blank hns.1 (endsName_memberItems ns hrest))

theorem toList_members (n : String) (ns : List String) :
    (String.intercalate " | " (n :: ns)).toList = n.toList ++ joined (memberItems ns) := by
  induction ns generalizing n with
  | nil => simp [joined, memberItems]
  | cons m ns ih =>
    rw [String.intercalate_cons_cons, String.toList_append, String.toList_append, ih]
    simp [joined, memberItems]

theorem reads_joinedNames (hn : isName n = true) (hns : ∀ n ∈ ns, isName n = true)
    (hrest : EndsLine rest) :
    Reads (joinedNames "|") ([' '] ++ n.toList ++ joined (memberItems ns)) (n :: ns) rest := by
  have hsign : Refuses (word "|") ([' '] ++ n.toList ++ joined (memberItems ns) ++ rest) := by
    obtain ⟨c, tail, hlist, hc, -⟩ := exists_of_isName hn
    rw [hlist]
    exact refuses_sign (skipIgnored_nameStart hc _) hc ⟨'|', rfl, rfl⟩
  have hfirst := reads_name [' '] ignored_blank hn (endsName_memberItems ns hrest.endsName)
  have hmore := (readsEach_memberItems hns hrest.endsName).many (hrest.refuses ⟨'|', rfl, rfl⟩).bind
  have hvalues : (memberItems ns).map (·.2) = ns := by
    rw [memberItems, List.map_map]
    exact List.map_id ns
  rw [hvalues] at hmore
  exact hsign.optional.nil_bind (hfirst.bind hmore.pure_bind)

theorem reads_members (hn : isName n = true) (hns : ∀ n ∈ ns, isName n = true)
    (hrest : EndsLine rest) :
    Reads (openBody members) ([' '] ++ "=".toList ++ ([' '] ++ n.toList ++ joined (memberItems ns)))
      ([], some (n :: ns)) rest := by
  have hno : Refuses directives ([' '] ++ "=".toList ++ ([' '] ++ n.toList ++
      joined (memberItems ns)) ++ rest) := fun _ _ => rfl
  have hmembers : Reads members _ (n :: ns) rest :=
    (reads_word [' '] ignored_blank rfl).bind (reads_joinedNames hn hns hrest)
  exact hno.optional.pure_bind.nil_bind hmembers.optional.pure_bind

theorem line_union (hn : isName n = true) (hm : isName m = true)
    (hns : ∀ n ∈ ns, isName n = true) :
    Line ("union " ++ n ++ " = " ++ String.intercalate " | " (m :: ns))
      (.type ⟨n, none, [], .union (m :: ns)⟩) := by
  have htext : ("union " ++ n ++ " = " ++ String.intercalate " | " (m :: ns)).toList =
      "union".toList ++ ([' '] ++ n.toList ++ ([' '] ++ "=".toList ++
        ([' '] ++ m.toList ++ joined (memberItems ns)))) := by
    simp only [String.toList_append, toList_members]
    simp
  refine line_type (.inr (.inr rfl)) htext ?_
  intro gap rest hgap hrest
  have hname : Reads name ([' '] ++ n.toList) n ([' '] ++ "=".toList ++
      ([' '] ++ m.toList ++ joined (memberItems ns)) ++ rest) :=
    reads_name [' '] ignored_blank hn rfl
  have hunion : Reads (unionType none) _ ⟨n, none, [], .union (m :: ns)⟩ rest :=
    (reads_word gap hgap.ignored rfl).bind (hname.bind (reads_members hm hns hrest).pure_bind)
  refine .or_right ?_ (.or_right ?_ (.or_right ?_ (.or_left hunion)))
  all_goals rcases hgap with rfl | rfl <;> exact fun _ _ => rfl

theorem reads_place {text : List Char} {l : DirectiveLocation} (hrest : EndsLine rest)
    (hsign : Refuses (word "|") (text ++ rest)) (h : Reads location text l rest) :
    Reads locations text [l] rest :=
  hsign.optional.nil_bind
    (h.bind_nil (ReadsEach.nil.many (hrest.refuses ⟨'|', rfl, rfl⟩).bind).pure_bind)

theorem reads_places {text other : List Char} {l k : DirectiveLocation} (hrest : EndsLine rest)
    (hsign : Refuses (word "|") (text ++ ([' '] ++ "|".toList ++ other) ++ rest))
    (hfirst : Reads location text l ([' '] ++ "|".toList ++ other ++ rest))
    (hother : Reads location other k rest) :
    Reads locations (text ++ ([' '] ++ "|".toList ++ other)) [l, k] rest := by
  have hitem : Reads (do word "|"; location) ([' '] ++ "|".toList ++ other) k rest :=
    (reads_word [' '] ignored_blank rfl).bind hother
  have hmany := (ReadsEach.cons (by simp) hitem .nil).many (hrest.refuses ⟨'|', rfl, rfl⟩).bind
  rw [joined, List.flatMap_singleton] at hmany
  exact hsign.optional.nil_bind (hfirst.bind hmany.pure_bind)

theorem line_directive (arguments repeatable : List Char) {places : List Char}
    {args : Entries InputField} {marked : Option Unit} {ls : List DirectiveLocation}
    (htext : line.toList = "directive".toList ++ ([' '] ++ "@".toList ++ (n.toList ++ (arguments ++
      (repeatable ++ ([' '] ++ "on".toList ++ places))))))
    (hn : isName n = true)
    (hends : ∀ rest, EndsName (arguments ++
      (repeatable ++ ([' '] ++ "on".toList ++ places)) ++ rest))
    (hargs : ∀ rest, Reads optionalArguments arguments args
      (repeatable ++ ([' '] ++ "on".toList ++ places) ++ rest))
    (hmarked : ∀ rest, Reads (optional (word "repeatable")) repeatable marked
      ([' '] ++ "on".toList ++ places ++ rest))
    (hplaces : ∀ rest, EndsLine rest → Reads locations places ls rest) :
    Line line (.directive ⟨n, none, args, ls, true⟩) where
  begins := ⟨_, _, htext, rfl⟩
  reads := by
    intro gap rest hgap hrest
    have hdescription : Refuses (lexeme readString) (gap ++ line.toList ++ rest) := by
      rw [htext]
      rcases hgap with rfl | rfl <;> exact fun _ _ => rfl
    have hon : Reads (word "on") ([' '] ++ "on".toList) () (places ++ rest) :=
      reads_word [' '] ignored_blank rfl
    have hname : Reads name n.toList n _ := reads_name_here hn (hends rest)
    have hat : Reads (word "@") ([' '] ++ "@".toList) () (n.toList ++ (arguments ++
        (repeatable ++ ([' '] ++ "on".toList ++ places))) ++ rest) :=
      reads_word [' '] ignored_blank rfl
    have hdefinition : Reads directiveDefinition (gap ++ line.toList)
        ⟨n, none, args, ls, true⟩ rest := by
      rw [htext, ← List.append_assoc] at hdescription ⊢
      exact hdescription.optional.nil_bind ((reads_word gap hgap.ignored rfl).bind (hat.bind
        (hname.bind ((hargs rest).bind ((hmarked rest).bind
          (hon.bind (hplaces rest hrest).pure_bind))))))
    refine .or_right ?_ (.or_right ?_ (.or_right ?_ (.or_right ?_ (.or_left hdefinition.pure_bind))))
    all_goals rw [htext]; rcases hgap with rfl | rfl <;> exact fun _ _ => rfl

variable {lines : List (String × Definition)} {tail : List Char}

def written (lines : List (String × Definition)) : List Char :=
  lines.flatMap fun l => l.1.toList ++ ['\n']

theorem written_append (ls ls' : List (String × Definition)) :
    written (ls ++ ls') = written ls ++ written ls' := List.flatMap_append

/-- The lines as items of a repetition; the end of a line is left to the item after it. -/
def lineItems (gap : List Char) : List (String × Definition) → List (List Char × Definition)
  | [] => []
  | l :: ls => (gap ++ l.1.toList, l.2) :: lineItems ['\n'] ls

theorem joined_lineItems (lines : List (String × Definition)) (tail : List Char) :
    joined (lineItems ['\n'] lines) ++ '\n' :: tail = '\n' :: (written lines ++ tail) := by
  induction lines with
  | nil => rfl
  | cons l ls ih =>
    have hitems : joined (lineItems ['\n'] (l :: ls)) =
        '\n' :: (l.1.toList ++ joined (lineItems ['\n'] ls)) := rfl
    rw [hitems, List.cons_append, List.append_assoc, ih]
    simp [written]

theorem values_lineItems (gap : List Char) (lines : List (String × Definition)) :
    (lineItems gap lines).map (·.2) = lines.map (·.2) := by
  induction lines generalizing gap with
  | nil => rfl
  | cons l ls ih => rw [lineItems, List.map_cons, List.map_cons, ih]

theorem length_joined_lineItems (lines : List (String × Definition)) :
    (joined (lineItems ['\n'] lines)).length =
      ((lines.map fun l => l.1.toList.length).map (· + 1)).sum := by
  have h := congrArg List.length (joined_lineItems lines [])
  simp only [written, List.length_append, List.length_cons, List.length_flatMap, List.length_nil]
    at h
  rw [List.map_map]
  exact Nat.succ.inj h

theorem endsLine_written (hlines : ∀ l ∈ lines, Line l.1 l.2)
    (htail : ∃ c cs, tail = c :: cs ∧ isNameStart c = true) :
    EndsLine ('\n' :: (written lines ++ tail)) := by
  cases lines with
  | nil =>
    obtain ⟨c, cs, rfl, hc⟩ := htail
    exact ⟨c, cs, rfl, hc⟩
  | cons l ls =>
    obtain ⟨c, cs, hl, hc⟩ := (hlines l List.mem_cons_self).begins
    refine ⟨c, cs ++ ['\n'] ++ written ls ++ tail, ?_, hc⟩
    simp [written, hl]

theorem readsEach_lineItems (hlines : ∀ l ∈ lines, Line l.1 l.2)
    (htail : ∃ c cs, tail = c :: cs ∧ isNameStart c = true) (hgap : IsGap gap) :
    ReadsEach definition ('\n' :: tail) (lineItems gap lines) := by
  induction lines generalizing gap with
  | nil => exact .nil
  | cons l ls ih =>
    rw [List.forall_mem_cons] at hlines
    refine .cons ?_ ?_ (ih hlines.2 (.inr rfl))
    · obtain ⟨c, cs, hl, -⟩ := hlines.1.begins
      simp [hl]
    · rw [joined_lineItems]
      exact hlines.1.reads gap _ hgap (endsLine_written hlines.2 htail)

theorem document_of_readsEach {items : List (List Char × Definition)}
    (h : ReadsEach definition rest items) (hne : items ≠ []) (hrest : skipIgnored rest = [])
    (hend : Refuses definition rest) :
    ∃ c : Cursor, (document ⟨joined items ++ rest, 0, []⟩).result = some (items.map (·.2), c) ∧
      c.faults = [] := by
  cases h with
  | nil => exact absurd rfl hne
  | @cons text x items hne hx hitems =>
    have hdocument : Reads (many1 definition) (joined ((text, x) :: items))
        (((text, x) :: items).map (·.2)) rest := hx.bind (hitems.many hend).pure_bind
    refine ⟨⟨[], (joined ((text, x) :: items)).length + rest.length, []⟩, ?_, rfl⟩
    rw [document, result_bind, hdocument]
    simp [result_bind, result_pure, atEnd, result_lexeme, hrest]

/-- The definitions up to the end of a text, no more than a bound. -/
def definitionsWithin (n : Nat) : Reader (List Definition) := do
  let ds ← atMost definition n
  atEnd
  return ds

theorem result_document {c d : Cursor} (h : (definition c).result = some (x, d)) :
    (document c).result =
      (definitionsWithin d.rest.length d).result.map fun r => (x :: r.1, r.2) := by
  simp only [document, definitionsWithin, many1, many, result_bind, result_pure, h,
    Option.bind_some]
  cases (atMost definition d.rest.length d).result with
  | none => rfl
  | some r =>
    simp only [Option.bind_some]
    cases (atEnd r.2).result <;> rfl

theorem result_definitionsWithin {items : List (List Char × Definition)}
    (h : ReadsEach definition rest items) (n offset : Nat) :
    (definitionsWithin (items.length + n) ⟨joined items ++ rest, offset, []⟩).result =
      (definitionsWithin n ⟨rest, offset + (joined items).length, []⟩).result.map fun r =>
        (items.map (·.2) ++ r.1, r.2) := by
  simp only [definitionsWithin, result_bind, result_pure, h.result_atMost]
  cases (atMost definition n ⟨rest, offset + (joined items).length, []⟩).result with
  | none => rfl
  | some r =>
    simp only [Option.map_some, Option.bind_some]
    cases (atEnd r.2).result <;> rfl

/-- What follows the lines of a text is read in the same way for all lines of these lengths. -/
theorem exists_document_written (lengths : List Nat)
    (htail : ∃ c cs, tail = c :: cs ∧ isNameStart c = true) :
    ∃ last : Option (List Definition × Cursor), ∀ lines, lines ≠ [] →
      (∀ l ∈ lines, Line l.1 l.2) → (lines.map fun l => l.1.toList.length) = lengths →
      (document ⟨written lines ++ tail, 0, []⟩).result =
        last.map fun r => (lines.map (·.2) ++ r.1, r.2) := by
  cases lengths with
  | nil => exact ⟨none, fun lines hne _ h => absurd (List.map_eq_nil_iff.mp h) hne⟩
  | cons k ks =>
    -- The bound and the place that are left after the lines depend on their lengths only.
    let total := (ks.map (· + 1)).sum
    refine ⟨(definitionsWithin (total + (tail.length + 1) - ks.length)
      ⟨'\n' :: tail, k + total, []⟩).result, ?_⟩
    rintro (_ | ⟨l, ls⟩) hne hlines hlengths
    · exact absurd rfl hne
    rw [List.forall_mem_cons] at hlines
    rw [List.map_cons, List.cons.injEq] at hlengths
    obtain ⟨rfl, rfl⟩ := hlengths
    have hitems := readsEach_lineItems hlines.2 htail (.inr rfl)
    have htotal := length_joined_lineItems ls
    have hcount := congrArg List.length (values_lineItems ['\n'] ls)
    have hle := hitems.length_le
    rw [List.length_map, List.length_map] at hcount
    have hfirst := hlines.1.reads [] _ (.inl rfl) (endsLine_written hlines.2 htail) 0 []
    have hbound : (joined (lineItems ['\n'] ls) ++ '\n' :: tail).length =
        (lineItems ['\n'] ls).length + (total + (tail.length + 1) - ls.length) := by
      rw [List.length_append, List.length_cons]
      omega
    have htext : written (l :: ls) ++ tail = l.1.toList ++ '\n' :: (written ls ++ tail) := by
      simp [written]
    rw [List.nil_append, ← htext] at hfirst
    rw [result_document hfirst]
    simp only [← joined_lineItems, hbound, result_definitionsWithin hitems, htotal,
      values_lineItems, List.length_map, Nat.zero_add, Option.map_map]
    rfl

end Sdl

end SchemaAssembly
