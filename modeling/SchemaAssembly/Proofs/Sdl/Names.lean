import SchemaAssembly.Proofs.Sdl.Reading
import SchemaAssembly.Sdl.Load

/-!
Names in schema texts. A name is read back from any text in which no further letter follows it, and
every type that a text defines has a name of this form.
-/

set_option autoImplicit false

namespace SchemaAssembly

namespace Sdl

/-- Whether a text has the form of a name. -/
def isName (s : String) : Bool :=
  match s.toList with
  | [] => false
  | c :: rest => isNameStart c && rest.all isNameChar

/-- No name goes on here. -/
def EndsName (rest : List Char) : Prop := rest.takeWhile isNameChar = []

section Lexemes

variable {n : String} {rest blanks text cs : List Char} {c : Char}

theorem isName_of_readName (h : readName cs = some (n, rest)) : isName n = true := by
  cases cs with
  | nil => cases h
  | cons c tail =>
    rw [readName, Option.ite_none_right_eq_some] at h
    obtain ⟨hc, heq⟩ := h
    cases heq
    rw [isName, String.toList_ofList]
    simp only [hc, Bool.true_and]
    exact List.all_takeWhile

theorem exists_of_isName (h : isName n = true) :
    ∃ c tail, n.toList = c :: tail ∧ isNameStart c = true ∧ ∀ x ∈ tail, isNameChar x = true := by
  unfold isName at h
  split at h
  · cases h
  · rename_i c tail hn
    rw [Bool.and_eq_true, List.all_eq_true] at h
    exact ⟨c, tail, hn, h.1, h.2⟩

theorem readName_append (hn : isName n = true) (hrest : EndsName rest) :
    readName (n.toList ++ rest) = some (n, rest) := by
  obtain ⟨c, tail, hlist, hc, htail⟩ := exists_of_isName hn
  have hdrop : rest.dropWhile isNameChar = rest := by
    have hsplit := List.takeWhile_append_dropWhile (p := isNameChar) (l := rest)
    rwa [hrest, List.nil_append] at hsplit
  rw [hlist, List.cons_append, readName, if_pos hc, List.takeWhile_append_of_pos htail,
    List.dropWhile_append_of_pos htail, hrest, hdrop, List.append_nil, ← hlist, String.ofList_toList]

theorem skipIgnored_blanks (hb : ∀ b ∈ blanks, isIgnored b = true) (cs : List Char) :
    skipIgnored (blanks ++ cs) = skipIgnored cs := by
  induction blanks with
  | nil => rfl
  | cons b rest ih =>
    rw [List.forall_mem_cons] at hb
    rw [List.cons_append, skipIgnored, skipFrom, if_pos hb.1]
    exact ih hb.2

theorem ignored_blank : ∀ b ∈ [' '], isIgnored b = true := List.forall_mem_singleton.mpr rfl

theorem skipIgnored_cons (hc : isIgnored c = false) (hcomment : c ≠ '#') (cs : List Char) :
    skipIgnored (c :: cs) = c :: cs := by
  rw [skipIgnored, skipFrom, hc, if_neg Bool.false_ne_true, if_neg hcomment]

theorem skipIgnored_nameStart (hc : isNameStart c = true) (cs : List Char) :
    skipIgnored (c :: cs) = c :: cs := by
  apply skipIgnored_cons
  · rw [Bool.eq_false_iff]
    intro h
    simp only [isIgnored, Bool.or_eq_true, decide_eq_true_eq] at h
    rcases h with ((((rfl | rfl) | rfl) | rfl) | rfl) | rfl <;> revert hc <;> decide
  · rintro rfl
    revert hc
    decide

theorem readWord_append (w rest : List Char) : readWord w (w ++ rest) = some ((), rest) := by
  induction w with
  | nil => rfl
  | cons c w ih => rw [List.cons_append, readWord, if_pos rfl, ih]

namespace Reader

variable {α : Type} {a : α} {read : List Char → Option (α × List Char)}

theorem reads_lexeme (blanks : List Char) (hb : ∀ b ∈ blanks, isIgnored b = true)
    (hs : skipIgnored (text ++ rest) = text ++ rest) (hr : read (text ++ rest) = some (a, rest)) :
    Reads (lexeme read) (blanks ++ text) a rest := by
  intro offset faults
  have hskip : skipIgnored (blanks ++ text ++ rest) = text ++ rest := by
    rw [List.append_assoc, skipIgnored_blanks hb, hs]
  have hoffset : offset + ((blanks ++ text ++ rest).length - (text ++ rest).length) +
      ((text ++ rest).length - rest.length) = offset + (blanks ++ text).length := by
    simp only [List.length_append]
    omega
  simp only [result_lexeme, hskip, hr, Option.map_some, hoffset]

theorem refuses_lexeme (h : read (skipIgnored text) = none) : Refuses (lexeme read) text := by
  intro offset faults
  simp only [result_lexeme, h, Option.map_none]

theorem reads_word {w : String} (blanks : List Char) (hb : ∀ b ∈ blanks, isIgnored b = true)
    (hw : skipIgnored (w.toList ++ rest) = w.toList ++ rest) :
    Reads (word w) (blanks ++ w.toList) () rest :=
  reads_lexeme blanks hb hw (readWord_append _ _)

theorem reads_name (blanks : List Char) (hb : ∀ b ∈ blanks, isIgnored b = true) (hn : isName n = true)
    (hrest : EndsName rest) : Reads name (blanks ++ n.toList) n rest := by
  refine reads_lexeme blanks hb ?_ (readName_append hn hrest)
  obtain ⟨c, tail, hlist, hc, -⟩ := exists_of_isName hn
  rw [hlist, List.cons_append, skipIgnored_nameStart hc]

theorem reads_word_here {w : String} (hw : skipIgnored (w.toList ++ rest) = w.toList ++ rest) :
    Reads (word w) w.toList () rest :=
  reads_word [] (fun _ h => absurd h List.not_mem_nil) hw

theorem reads_name_here (hn : isName n = true) (hrest : EndsName rest) :
    Reads name n.toList n rest :=
  reads_name [] (fun _ h => absurd h List.not_mem_nil) hn hrest

theorem finds_name : Finds name fun n => isName n = true := by
  intro c n d h
  rw [name, result_lexeme, Option.map_eq_some_iff] at h
  obtain ⟨⟨m, rest⟩, hread, heq⟩ := h
  cases heq
  exact isName_of_readName hread

end Reader

end Lexemes

section Types

open Reader

def Definition.Named : Definition → Prop
  | .type d => isName d.name = true
  | _ => True

theorem finds_keyworded {w : String} {body : String → Reader TypeDef}
    (hbody : ∀ n, Finds (body n) fun t => t.name = n) :
    Finds (do word w; let n ← name; body n) fun t => isName t.name = true := by
  refine (finds_true _).bind fun _ _ => finds_name.bind fun n hn => ?_
  intro c t d h
  rw [hbody n c t d h]
  exact hn

theorem finds_typeDefinition : Finds typeDefinition fun t => isName t.name = true := by
  refine (finds_true _).bind fun d _ => finds_firstOf ?_
  simp only [List.forall_mem_cons, List.not_mem_nil, false_imp_iff, implies_true, and_true]
  refine ⟨?_, ?_, ?_, ?_, ?_, ?_⟩
  · exact finds_keyworded fun n => (finds_true _).bind fun _ _ => finds_pure rfl
  · exact finds_keyworded fun n => (finds_true _).bind fun _ _ => (finds_true _).bind fun _ _ =>
      finds_pure rfl
  · exact finds_keyworded fun n => (finds_true _).bind fun _ _ => (finds_true _).bind fun _ _ =>
      finds_pure rfl
  · exact finds_keyworded fun n => (finds_true _).bind fun _ _ => finds_pure rfl
  · exact finds_keyworded fun n => (finds_true _).bind fun _ _ => finds_pure rfl
  · exact finds_keyworded fun n => (finds_true _).bind fun _ _ => finds_pure rfl

theorem finds_definition : Finds definition Definition.Named := by
  refine finds_firstOf ?_
  simp only [List.forall_mem_cons, List.not_mem_nil, false_imp_iff, implies_true, and_true]
  refine ⟨?_, ?_, ?_, ?_, ?_⟩
  · exact (finds_true _).bind fun _ _ => finds_pure trivial
  · exact (finds_true _).bind fun _ _ => finds_pure trivial
  · exact finds_typeDefinition.bind fun _ ht => finds_pure ht
  · exact (finds_true _).bind fun _ _ => finds_pure trivial
  · exact (finds_true _).bind fun _ _ => finds_pure trivial

theorem finds_document : Finds document fun ds => ∀ x ∈ ds, x.Named :=
  finds_definition.many1.bind fun _ hds => (finds_true _).bind fun _ _ => finds_pure hds

end Types

end Sdl

namespace Fragment

variable {name source : String} {f : Fragment} {files : FileTree}

def WellNamed (f : Fragment) : Prop := ∀ n ∈ f.typeNames, Sdl.isName n = true

/-- A text is a fragment if it matches the grammar and no fault is noted. -/
theorem parse_eq_ok_iff : parse name source = .ok f ↔
    f.name = name ∧ f.source = source ∧ ∃ c : Sdl.Cursor,
      (Sdl.document ⟨source.toList, 0, []⟩).result = some (f.definitions, c) ∧ c.faults = [] := by
  unfold parse
  dsimp only
  generalize Sdl.document ⟨source.toList, 0, []⟩ = outcome
  obtain ⟨_ | ⟨ds, c⟩, reach⟩ := outcome
  · simp
  · cases hlast : c.faults.getLast? with
    | none =>
      have hnil := List.getLast?_eq_none_iff.mp hlast
      obtain ⟨fname, fsource, fdefinitions⟩ := f
      simp only [hlast, Except.ok.injEq, mk.injEq, Option.some.injEq, Prod.mk.injEq]
      constructor
      · rintro ⟨rfl, rfl, rfl⟩
        exact ⟨rfl, rfl, c, ⟨rfl, rfl⟩, hnil⟩
      · rintro ⟨rfl, rfl, c', ⟨rfl, -⟩, -⟩
        exact ⟨rfl, rfl, rfl⟩
    | some fault =>
      have hne : c.faults ≠ [] := by
        intro hnil
        rw [hnil] at hlast
        cases hlast
      simp [hlast, hne]

theorem wellNamed_of_parse (h : parse name source = .ok f) : f.WellNamed := by
  obtain ⟨-, -, c, hread, -⟩ := parse_eq_ok_iff.mp h
  intro n hn
  obtain ⟨x, hx, hname⟩ := List.mem_filterMap.mp hn
  have hnamed := Sdl.finds_document _ _ _ hread x hx
  cases x with
  | type d =>
    cases hname
    exact hnamed
  | extension d => cases hname
  | directive d => cases hname
  | roots q => cases hname

end Fragment

end SchemaAssembly
