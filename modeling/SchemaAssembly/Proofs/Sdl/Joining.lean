import SchemaAssembly.Proofs.Sdl.Lines
import SchemaAssembly.Proofs.Sdl.RootsGoOn

/-!
Texts that are put together line by line. A text that is a document gives the same definitions in
front of other documents, and so do these behind it, unless it leaves a block string open that
one of them closes.
-/

set_option autoImplicit false

namespace SchemaAssembly

namespace Sdl

namespace Reader

variable {α β : Type} {p q : Reader α} {f : α → Reader β}

/-- Both cursors come to the same place by skipping blanks and comments. -/
structure SkipsTo (c d : Cursor) : Prop where
  rest : skipIgnored c.rest = skipIgnored d.rest
  start : c.offset + (c.rest.length - (skipIgnored c.rest).length) =
    d.offset + (d.rest.length - (skipIgnored d.rest).length)
  faults : c.faults = d.faults

/-- What the reader finds does not depend on blanks and comments in front. -/
def Skips (p : Reader α) : Prop := ∀ ⦃c d⦄, SkipsTo c d → (p c).result = (p d).result

theorem skips_lexeme (read : List Char → Option (α × List Char)) : Skips (lexeme read) := by
  intro c d h
  simp only [result_lexeme, h.rest, ← h.start, ← h.faults]

theorem Skips.bind (hp : Skips p) : Skips (p >>= f) := by
  intro c d h
  rw [result_bind, result_bind, hp h]

theorem skips_firstOf {ps : List (Reader α)} (h : ∀ p ∈ ps, Skips p) : Skips (firstOf ps) := by
  induction ps with
  | nil => exact fun _ _ _ => rfl
  | cons p rest ih =>
    rw [List.forall_mem_cons] at h
    intro c d hsame
    rw [firstOf, result_or, result_or, h.1 hsame, ih h.2 hsame]

theorem skips_here {f : Nat → Reader α} (h : ∀ start, Skips (f start)) : Skips (here >>= f) := by
  intro c d hsame
  rw [result_bind, result_bind]
  simp only [here, Option.bind_some, hsame.start]
  exact h _ hsame

theorem skips_described {f : Option String → Reader α} (h : ∀ d, Skips (f d)) :
    Skips (description >>= f) := by
  intro c d hsame
  have hstring := skips_lexeme readString hsame
  rw [result_bind, result_bind, description, result_optional, result_optional, hstring]
  cases (lexeme readString d).result with
  | none => exact h none hsame
  | some r => rfl

theorem Skips.reads {blanks text rest : List Char} {a : α} (hp : Skips p)
    (hblanks : skipIgnored (blanks ++ (text ++ rest)) = skipIgnored (text ++ rest))
    (h : Reads p text a rest) : Reads p (blanks ++ text) a rest := by
  intro offset faults
  have hsame : SkipsTo ⟨blanks ++ text ++ rest, offset, faults⟩
      ⟨text ++ rest, offset + blanks.length, faults⟩ := by
    refine ⟨?_, ?_, rfl⟩
    · rw [List.append_assoc, hblanks]
    · have hle := (suffix_skipFrom false (text ++ rest)).length_le
      change (skipIgnored (text ++ rest)).length ≤ (text ++ rest).length at hle
      simp only [List.append_assoc, hblanks]
      rw [List.length_append]
      omega
  rw [hp hsame, h, List.length_append, Nat.add_assoc]

end Reader

open Reader

variable {next text rest : List Char} {defs : List Definition}

theorem skips_definition : Skips definition := by
  have hword : ∀ {α : Type} {w : String} {f : Unit → Reader α}, Skips (word w >>= f) :=
    fun {_ _ _} => (skips_lexeme _).bind
  have htypes : ∀ d, Skips (firstOf [scalarType d, objectType d, interfaceType d, unionType d,
      enumType d, inputType d]) := fun d => by
    refine skips_firstOf ?_
    simp only [List.forall_mem_cons, List.not_mem_nil, false_imp_iff, implies_true, and_true]
    exact ⟨hword, hword, hword, hword, hword, hword⟩
  refine skips_firstOf ?_
  simp only [List.forall_mem_cons, List.not_mem_nil, false_imp_iff, implies_true, and_true]
  exact ⟨(skips_here fun _ => hword).bind, hword.bind, (skips_described htypes).bind, hword.bind,
    (skips_described fun _ => hword).bind⟩

def definitionWords : List String := "schema" :: "extend" :: "directive" :: typeKeywords

def BeginsDefinition (text : List Char) : Prop :=
  headOf text = some '"' ∨ AtOneOf definitionWords text

/-- After a definition another one may begin. -/
theorem endsDefinition_of_begins (h : BeginsDefinition text) : EndsDefinition text := by
  rcases h with h | h
  · refine ⟨avoids_of_headOf h (by decide), fun hat => ?_⟩
    cases (hat.headOf rfl).symm.trans h
  · have hwords : ∀ w ∈ definitionWords,
        w.toList.head?.any (fun c => !openers.contains c) = true := by decide
    obtain ⟨w, hw, hat⟩ := h
    obtain ⟨c, hc, hopener⟩ := hat.exists_headOf _ (hwords w hw)
    refine ⟨avoids_of_headOf hc ?_, not_at_of_oneOf_words ⟨w, hw, hat⟩ (by decide)⟩
    simpa using hopener

theorem Described.not_at {w : String} {c : Char} {start : List Char → Prop}
    (h : Described start text) (hw : w.toList.head? = some c) (hc : c ≠ '"')
    (hstart : start text → ¬ At w text) : ¬ At w text := by
  rcases h.1 with hquote | hs
  · exact fun hat => hc (Option.some.inj ((hat.headOf hw).symm.trans hquote))
  · exact hstart hs

theorem refuses_schemaDefinition (h : ¬ At "schema" text) : Refuses schemaDefinition text :=
  fun _ _ => (refuses_word h).bind _ _

/-- What a definition begins with is refused by all kinds of definitions that come before its kind. -/
theorem takesOn_definition (hnext : IsNext next) :
    TakesOn next definition definition EndsDefinition BeginsDefinition := by
  have hdirective := ((takesOn_directiveDefinition hnext).mono
    (fun t (h : EndsDefinition t) => h.not_at rfl (by decide)) fun _ h => h).map
      fun d => Definition.directive d
  have hextension := (takesOn_typeExtension hnext).map fun d => Definition.extension d
  have htype := (takesOn_typeDefinition hnext).map fun d => Definition.type d
  have hmoreRoots := (takesOn_schemaExtension hnext).map fun r => Definition.roots r
  have hroots := (takesOn_schemaDefinition hnext).map fun r => Definition.roots r
  -- From the last alternative to the first: what a later one begins with, the earlier one refuses.
  have hfrom4 := hextension.first hdirective.last fun t h =>
    (refuses_word (h.not_at rfl (by decide) fun hat => hat.not_at rfl rfl)).bind.bind
  have hfrom3 := htype.first hfrom4 fun t h => by
    rcases h with h | h
    · exact (refuses_described (by rw [h.1.headOf rfl]; decide) (refuses_keyed
        (keyed_typeReaders hnext none) fun hone => not_at_of_oneOf_words hone (by decide) h.1)).bind
    · exact (h.2.refuses fun d rest hat => refuses_keyed (keyed_typeReaders hnext d)
        fun (hone : AtOneOf typeKeywords rest) =>
          not_at_of_oneOf_words hone (by decide) hat).bind
  have hfrom2 := hmoreRoots.first hfrom3 fun t h => by
    rcases h with h | h | h
    · exact (refuses_word (h.not_at rfl (by decide) fun hone =>
        not_at_of_oneOf_words hone (by decide))).bind.bind
    · exact (h.2.refuses fun _ rest hone =>
        (refuses_word (not_at_of_oneOf_words hone (by decide))).bind).bind
    · exact (refuses_word (h.not_at rfl (by decide) fun hat => hat.not_at rfl rfl)).bind.bind
  have hall := hroots.first hfrom2 fun t h => by
    refine (refuses_schemaDefinition ?_).bind
    rcases h with h | h | h | h
    · exact h.1.not_at rfl rfl
    · exact h.not_at rfl (by decide) fun hone => not_at_of_oneOf_words hone (by decide)
    · exact h.1.not_at rfl rfl
    · exact h.not_at rfl (by decide) fun hat => hat.not_at rfl rfl
  refine hall.weaken fun t h => ?_
  rcases h with h | h | h | h | h
  · exact .inr ⟨_, by decide, h⟩
  · exact .inr ⟨_, by decide, h.1⟩
  · exact h.1.imp id fun ⟨w, hw, hat⟩ => ⟨w, by simp [definitionWords, hw], hat⟩
  · exact .inr ⟨_, by decide, h.1⟩
  · exact h.1.imp id fun hat => ⟨_, by decide, hat⟩

def IsDocument (text : List Char) (defs : List Definition) : Prop :=
  ∃ c, (document ⟨text, 0, []⟩).result = some (defs, c) ∧ c.faults = []

theorem endsDefinition_congr {other : List Char} (h : skipIgnored text = skipIgnored other)
    (hend : EndsDefinition other) : EndsDefinition text := by
  simpa only [EndsDefinition, Avoids, headOf, At, Begins, h] using hend

theorem exists_atMost_of_document {c : Cursor}
    (h : (document ⟨text, 0, []⟩).result = some (defs, c)) :
    defs ≠ [] ∧ ∃ n d, (atMost definition n ⟨text, 0, []⟩).result = some (defs, d) ∧
      skipIgnored d.rest = [] ∧ d.faults = c.faults := by
  simp only [document, many1, many, result_bind, result_pure, Option.bind_eq_some_iff] at h
  obtain ⟨_, ⟨⟨x, m⟩, hx, ⟨more, d⟩, hmore, heq⟩, ⟨_, e⟩, hend, heq'⟩ := h
  cases heq
  cases heq'
  rw [atEnd, result_lexeme, Option.map_eq_some_iff] at hend
  obtain ⟨r, hread, heq⟩ := hend
  cases heq
  refine ⟨List.cons_ne_nil _ _, m.rest.length + 1, d, ?_, ?_, rfl⟩
  · rw [result_atMost_succ, hx]
    simp only [hmore, Option.map_some]
  · rw [Option.ite_none_right_eq_some] at hread
    exact List.isEmpty_iff.mp hread.1

/-- A document, taken apart: its definitions are taken again in front of another text, which may go
on where the document has only blanks. -/
theorem IsDocument.exists_items (h : IsDocument text defs) (hnext : IsNext next)
    (hapart : Apart text next) (hend : EndsDefinition next) :
    ∃ items blanks, text = joined items ++ blanks ∧ skipIgnored blanks = [] ∧ items ≠ [] ∧
      items.map (·.2) = defs ∧ ReadsEach definition (blanks ++ next) items ∧
        BeginsDefinition (text ++ next) := by
  obtain ⟨c, hdocument, hfaults⟩ := h
  obtain ⟨hne, n, d, hread, hblanks, hsame⟩ := exists_atMost_of_document hdocument
  have hskip : skipIgnored (d.rest ++ next) = skipIgnored next := by
    rw [skipIgnored_next hnext, if_pos hblanks]
  obtain ⟨items, hitems, htext, rfl, hbegins⟩ := (takesOn_definition hnext).each
    (fun _ hbegins => endsDefinition_of_begins hbegins) hread (hsame.trans hfaults) hapart
    (endsDefinition_congr hskip hend)
  rw [ne_eq, List.map_eq_nil_iff] at hne
  refine ⟨items, d.rest, htext, hblanks, hne, rfl, hitems, hbegins.resolve_right fun hnothing => ?_⟩
  have hlength := hitems.length_le
  have hpos := List.length_pos_iff.mpr hne
  have htotal := congrArg List.length (hnothing.symm.trans htext)
  rw [List.length_append] at htotal
  omega

theorem endsDefinition_nil : EndsDefinition [] := by
  refine ⟨fun c _ h => ?_, fun h => h rfl⟩
  cases h

theorem refuses_definition_blank (h : skipIgnored text = []) : Refuses definition text := by
  intro offset faults
  have hsame : SkipsTo ⟨text, offset, faults⟩ ⟨[], offset + text.length, faults⟩ := by
    refine ⟨h, ?_, rfl⟩
    change offset + (text.length - (skipIgnored text).length) = offset + text.length
    rw [h]
    rfl
  exact skips_definition hsame

/-- Two documents, one after the other on a new line, are one. -/
theorem IsDocument.append {other : List Char} {more : List Definition} (h : IsDocument text defs)
    (hother : IsDocument other more) (hapart : Apart text ('\n' :: other)) :
    IsDocument (text ++ '\n' :: other) (defs ++ more) := by
  have hnext : IsNext ('\n' :: other) := .inr ⟨other, rfl⟩
  obtain ⟨later, tail, htail, hend, hsome, rfl, hlater, hbegins⟩ :=
    hother.exists_items (.inl rfl) (apart_nil other) endsDefinition_nil
  rw [List.append_nil] at hlater hbegins
  obtain ⟨items, blanks, rfl, hblanks, hne, rfl, hitems, -⟩ :=
    h.exists_items hnext hapart (endsDefinition_of_begins hbegins)
  obtain ⟨⟨first, x⟩, others, rfl⟩ := List.exists_cons_of_ne_nil hsome
  cases hlater with
  | cons _ hx hothers =>
    -- The blanks in between go to the first definition of the other text.
    have hskip : ∀ rest, skipIgnored (blanks ++ ['\n'] ++ (first ++ rest)) =
        skipIgnored (first ++ rest) := by
      intro rest
      rw [List.append_assoc, List.singleton_append, skipIgnored_next (.inr ⟨_, rfl⟩), if_pos hblanks]
      rfl
    have hjoin : ReadsEach definition tail ((blanks ++ ['\n'] ++ first, x) :: others) :=
      .cons (by simp) (skips_definition.reads (hskip _) hx) hothers
    have hrest : blanks ++ '\n' :: other =
        joined ((blanks ++ ['\n'] ++ first, x) :: others) ++ tail := by
      rw [htail]
      simp [joined]
    rw [hrest] at hitems
    have hdocument := document_of_readsEach (hitems.append hjoin)
      (List.append_ne_nil_of_left_ne_nil hne _) hend (refuses_definition_blank hend)
    rwa [joined_append, List.append_assoc, ← hrest, ← List.append_assoc, List.map_append] at hdocument

def lineByLine (texts : List (List Char)) : List Char := List.intercalate ['\n'] texts

theorem lineByLine_cons_cons (text other : List Char) (texts : List (List Char)) :
    lineByLine (text :: other :: texts) = text ++ '\n' :: lineByLine (other :: texts) := by
  simp [lineByLine, List.intercalate]

theorem readBlock_line_eq_none_iff :
    readBlock [] ('\n' :: text) = none ↔ readBlock [] text = none := by
  rw [readBlock, readBlock_eq_none_iff ['\n'] []]
  · simp
  · simp

/-- Texts none of which closes a block string do not close one together. -/
theorem readBlock_lineByLine {texts : List (List Char)} (h : ∀ t ∈ texts, readBlock [] t = none) :
    readBlock [] (lineByLine texts) = none := by
  induction texts with
  | nil => rfl
  | cons text texts ih =>
    rw [List.forall_mem_cons] at h
    cases texts with
    | nil => simpa [lineByLine] using h.1
    | cons other texts =>
      rw [lineByLine_cons_cons]
      exact readBlock_next_eq_none (.inr ⟨_, rfl⟩) h.1 (readBlock_line_eq_none_iff.mpr (ih h.2))

/-- Documents on lines of their own are one document with all their definitions, unless one leaves a
block string open that a later one closes. -/
theorem isDocument_lineByLine {docs : List (List Char × List Definition)} (hne : docs ≠ [])
    (h : ∀ x ∈ docs, IsDocument x.1 x.2)
    (hapart : docs.Pairwise fun x y => Apart x.1 y.1) :
    IsDocument (lineByLine (docs.map (·.1))) (docs.flatMap (·.2)) := by
  induction docs with
  | nil => exact absurd rfl hne
  | cons x docs ih =>
    rw [List.forall_mem_cons] at h
    rw [List.pairwise_cons] at hapart
    cases docs with
    | nil => simpa [lineByLine] using h.1
    | cons y docs =>
      have hdocs := ih (List.cons_ne_nil _ _) h.2 hapart.2
      rw [List.map_cons, List.map_cons, lineByLine_cons_cons, List.flatMap_cons]
      refine h.1.append hdocs fun hopens =>
        readBlock_line_eq_none_iff.mpr (readBlock_lineByLine fun t ht => ?_)
      obtain ⟨z, hz, rfl⟩ := List.mem_map.mp (List.map_cons ▸ ht)
      exact hapart.1 z hz hopens

end Sdl

end SchemaAssembly
