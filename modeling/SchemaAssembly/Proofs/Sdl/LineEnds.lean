import SchemaAssembly.Proofs.Sdl.Names

/-!
Lexemes and further lines. A lexeme stays what it is when its text goes on with another line, with
one exception: three quotes that open no block string, because nothing closes it, are read as an
empty string and a quote, and a later line may close it after all.
-/

set_option autoImplicit false

namespace SchemaAssembly

namespace Sdl

/-- Three quotes, outside of strings and comments, that no further three quotes close. -/
inductive OpensBlock : List Char → Prop where
  | here {rest : List Char} (h : readBlock [] rest = none) : OpensBlock ('"' :: '"' :: '"' :: rest)
  | afterBlock {rest raw tail : List Char} (h : readBlock [] rest = some (raw, tail))
      (htail : OpensBlock tail) : OpensBlock ('"' :: '"' :: '"' :: rest)
  | afterQuoted {rest value tail : List Char} (hone : ∀ more, rest ≠ '"' :: '"' :: more)
      (h : readQuoted [] rest = some (value, tail)) (htail : OpensBlock tail) :
      OpensBlock ('"' :: rest)
  | afterComment {rest : List Char} (h : OpensBlock (skipFrom true rest)) : OpensBlock ('#' :: rest)
  | after {c : Char} {rest : List Char} (hquote : c ≠ '"') (hcomment : c ≠ '#')
      (h : OpensBlock rest) : OpensBlock (c :: rest)

def IsPlain (text : List Char) : Prop := ∀ c ∈ text, c ≠ '"' ∧ c ≠ '#'

instance (text : List Char) : Decidable (IsPlain text) :=
  List.decidableBAll (fun c => c ≠ '"' ∧ c ≠ '#') text

theorem isPlain_nil : IsPlain [] := fun _ h => absurd h List.not_mem_nil

theorem isPlain_of_all {p : Char → Bool} {text : List Char} (hquote : p '"' = false)
    (hcomment : p '#' = false) (h : ∀ c ∈ text, p c = true) : IsPlain text := by
  intro c hc
  have hp := h c hc
  constructor
  · rintro rfl
    rw [hquote] at hp
    cases hp
  · rintro rfl
    rw [hcomment] at hp
    cases hp

theorem OpensBlock.append {text rest : List Char} (h : OpensBlock rest) (hplain : IsPlain text) :
    OpensBlock (text ++ rest) := by
  induction text with
  | nil => exact h
  | cons c text ih =>
    obtain ⟨⟨hquote, hcomment⟩, htext⟩ := List.forall_mem_cons.mp hplain
    exact (ih htext).after hquote hcomment

/-- What a text may go on with: nothing, or another line. -/
def IsNext (next : List Char) : Prop := next = [] ∨ ∃ line, next = '\n' :: line

/-- No block string that the text leaves open is closed by what is next. -/
def Apart (text next : List Char) : Prop := OpensBlock text → readBlock [] next = none

/-- What is left of a text after some lexemes. -/
structure Leaves (text rest : List Char) : Prop where
  suffix : rest <:+ text
  opens : OpensBlock rest → OpensBlock text

/-- A lexeme takes something, and is the same for a text that goes on. -/
structure Settled {α : Type} (read : List Char → Option (α × List Char)) : Prop where
  takes : ∀ {text a rest}, read text = some (a, rest) → rest ≠ text
  leaves : ∀ {text a rest}, read text = some (a, rest) → Leaves text rest
  same : ∀ {text a rest next}, read text = some (a, rest) → IsNext next → Apart text next →
    read (text ++ next) = some (a, rest ++ next)

section

variable {text rest next more acc raw : List Char}

theorem Leaves.refl (text : List Char) : Leaves text text := ⟨List.suffix_rfl, id⟩

theorem Leaves.trans (h : Leaves text more) (hmore : Leaves more rest) : Leaves text rest :=
  ⟨hmore.suffix.trans h.suffix, fun hopens => h.opens (hmore.opens hopens)⟩

theorem Leaves.apart (h : Leaves text rest) (hapart : Apart text next) : Apart rest next :=
  fun hopens => hapart (h.opens hopens)

theorem leaves_of_plain (h : IsPlain text) (rest : List Char) : Leaves (text ++ rest) rest :=
  ⟨⟨text, rfl⟩, fun hopens => hopens.append h⟩

theorem apart_nil (text : List Char) : Apart text [] := fun _ => rfl

theorem skipFrom_next (hnext : IsNext next) (inComment : Bool) (text : List Char) :
    skipFrom inComment (text ++ next) =
      if skipFrom inComment text = [] then skipIgnored next else skipFrom inComment text ++ next := by
  have hend : ∀ inComment, skipFrom inComment next = skipIgnored next := by
    rcases hnext with rfl | ⟨line, rfl⟩
    · intro inComment
      cases inComment <;> rfl
    · intro inComment
      cases inComment <;> rfl
  fun_induction skipFrom inComment text with
  | case1 inComment => exact hend inComment
  | case2 c rest ih => exact ih
  | case3 c rest hignored ih =>
    rw [List.cons_append, skipFrom, if_pos hignored]
    exact ih
  | case4 rest hignored ih =>
    rw [List.cons_append, skipFrom, if_neg hignored, if_pos rfl]
    exact ih
  | case5 c rest hignored hcomment =>
    rw [List.cons_append, skipFrom, if_neg hignored, if_neg hcomment, if_neg (List.cons_ne_nil _ _)]

theorem skipIgnored_next (hnext : IsNext next) (text : List Char) : skipIgnored (text ++ next) =
    if skipIgnored text = [] then skipIgnored next else skipIgnored text ++ next :=
  skipFrom_next hnext false text

theorem suffix_skipFrom (inComment : Bool) (text : List Char) : skipFrom inComment text <:+ text := by
  fun_induction skipFrom inComment text with
  | case1 inComment => exact List.suffix_rfl
  | case2 c rest ih | case3 c rest hignored ih | case4 rest hignored ih =>
    exact ih.trans (List.suffix_cons _ _)
  | case5 c rest hignored hcomment => exact List.suffix_rfl

theorem leaves_skipIgnored (text : List Char) : Leaves text (skipIgnored text) := by
  refine ⟨suffix_skipFrom false text, ?_⟩
  induction text with
  | nil => exact id
  | cons c rest ih =>
    intro h
    rw [skipIgnored, skipFrom] at h
    split at h
    · rename_i hignored
      refine (ih h).after ?_ ?_ <;> rintro rfl <;> cases hignored
    · split at h
      · rename_i hcomment
        subst hcomment
        exact h.afterComment
      · exact h

/-- A block string is closed where it is closed without the next line; else it goes on there. -/
theorem readBlock_next (hnext : IsNext next) (acc text : List Char) :
    (∃ raw rest, readBlock acc text = some (raw, rest) ∧
        readBlock acc (text ++ next) = some (raw, rest ++ next)) ∨
      readBlock acc text = none ∧ ∃ acc', readBlock acc (text ++ next) = readBlock acc' next := by
  rcases hnext with rfl | ⟨line, rfl⟩
  · simp only [List.append_nil]
    cases h : readBlock acc text with
    | none => exact .inr ⟨rfl, [], by rw [readBlock]⟩
    | some r => exact .inl ⟨_, _, rfl, rfl⟩
  fun_induction readBlock acc text with
  | case1 acc rest => exact .inl ⟨_, _, rfl, rfl⟩
  | case2 acc rest ih => simpa [readBlock] using ih
  | case3 acc c rest hclose hescape ih =>
    have hnext : readBlock acc (c :: rest ++ '\n' :: line) =
        readBlock (c :: acc) (rest ++ '\n' :: line) := by
      rw [List.cons_append, readBlock]
      · rintro more rfl heq
        rcases rest with _ | ⟨x, _ | ⟨y, rest⟩⟩ <;> simp at heq
        exact hclose rest rfl (by simp [heq])
      · rintro more rfl heq
        rcases rest with _ | ⟨x, _ | ⟨y, _ | ⟨z, rest⟩⟩⟩ <;> simp at heq
        exact hescape rest rfl (by simp [heq])
    rwa [hnext]
  | case4 acc => exact .inr ⟨rfl, acc, rfl⟩

theorem readBlock_eq_none_iff (acc acc' text : List Char) :
    readBlock acc text = none ↔ readBlock acc' text = none := by
  fun_induction readBlock acc text generalizing acc' with
  | case1 acc rest => simp [readBlock]
  | case2 acc rest ih => simpa [readBlock] using ih _
  | case3 acc c rest hclose hescape ih =>
    rw [readBlock]
    · exact ih _
    · exact hclose
    · exact hescape
  | case4 acc => simp [readBlock]

/-- Where neither of two texts closes a block string, both together do not. -/
theorem readBlock_next_eq_none (hnext : IsNext next) (h : readBlock [] text = none)
    (h' : readBlock [] next = none) : readBlock [] (text ++ next) = none := by
  rcases readBlock_next hnext [] text with ⟨raw, rest, hsome, -⟩ | ⟨-, acc, hacc⟩
  · rw [h] at hsome
    cases hsome
  · rw [hacc, readBlock_eq_none_iff acc []]
    exact h'

theorem suffix_readBlock (h : readBlock acc text = some (raw, rest)) : rest <:+ text := by
  fun_induction readBlock acc text with
  | case1 acc tail =>
    cases h
    exact ⟨['"', '"', '"'], rfl⟩
  | case2 acc tail ih => exact (ih h).trans ⟨['\\', '"', '"', '"'], rfl⟩
  | case3 acc c tail hclose hescape ih => exact (ih h).trans ⟨[c], rfl⟩
  | case4 acc => cases h

theorem readQuoted_append {value : List Char} (h : readQuoted acc text = some (value, rest))
    (more : List Char) : readQuoted acc (text ++ more) = some (value, rest ++ more) := by
  fun_induction readQuoted acc text
  case case15 acc c tail hquote hunicode hescape hline ih =>
    have hne : tail ≠ [] := by
      rintro rfl
      cases h
    obtain ⟨e, tail, rfl⟩ := List.exists_cons_of_ne_nil hne
    have hc : c ≠ '\\' := fun hc => hescape e tail hc rfl
    simp_all [readQuoted]
  all_goals simp_all [readQuoted]

theorem suffix_readQuoted {value : List Char} (h : readQuoted acc text = some (value, rest)) :
    rest <:+ text := by
  fun_induction readQuoted acc text with
  | case1 acc tail =>
    cases h
    exact List.suffix_cons _ _
  | case2 | case4 | case13 | case14 | case16 => cases h
  | case3 acc a b c d tail n hn hvalid ih => exact (ih h).trans ⟨['\\', 'u', a, b, c, d], rfl⟩
  | case5 _ _ _ ih | case6 _ _ _ ih | case7 _ _ _ ih | case8 _ _ _ ih | case9 _ _ _ ih
  | case10 _ _ _ ih | case11 _ _ _ ih | case12 _ _ _ ih => exact (ih h).trans ⟨[_, _], rfl⟩
  | case15 acc c tail _ _ _ _ ih => exact (ih h).trans (List.suffix_cons _ _)

end

/-- A text begins with a string: a block string, an empty one that is left of three quotes that
nothing closes, or quoted characters. -/
inductive BeginsString : List Char → String → List Char → Prop where
  | block {text raw rest : List Char} (h : readBlock [] text = some (raw, rest)) :
      BeginsString ('"' :: '"' :: '"' :: text) (String.ofList (blockValue raw)) rest
  | unclosed {text : List Char} (h : readBlock [] text = none) :
      BeginsString ('"' :: '"' :: '"' :: text) "" ('"' :: text)
  | quoted {text value rest : List Char} (hone : ∀ more, text ≠ '"' :: '"' :: more)
      (h : readQuoted [] text = some (value, rest)) :
      BeginsString ('"' :: text) (String.ofList value) rest

section

variable {text rest next : List Char} {s : String}

theorem BeginsString.readString_eq (h : BeginsString text s rest) :
    readString text = some (s, rest) := by
  cases h with
  | block h => simp [readString, h]
  | unclosed h => simp [readString, h, readQuoted]
  | quoted hone h =>
    rw [readString]
    · simp [h]
    · rintro more heq
      exact hone more (List.cons.inj heq).2

theorem beginsString_of_readString (h : readString text = some (s, rest)) :
    BeginsString text s rest := by
  rcases text with _ | ⟨c, text⟩
  · cases h
  by_cases hc : c = '"'
  · subst hc
    by_cases hthree : ∃ more, text = '"' :: '"' :: more
    · obtain ⟨more, rfl⟩ := hthree
      cases hblock : readBlock [] more with
      | none =>
        rw [BeginsString.readString_eq (.unclosed hblock)] at h
        cases h
        exact .unclosed hblock
      | some r =>
        rw [BeginsString.readString_eq (.block hblock)] at h
        cases h
        exact .block hblock
    · have hone : ∀ more, text ≠ '"' :: '"' :: more := fun more heq => hthree ⟨more, heq⟩
      cases hquoted : readQuoted [] text with
      | none => simp [readString, hone, hquoted] at h
      | some r =>
        rw [BeginsString.readString_eq (.quoted hone hquoted)] at h
        cases h
        exact .quoted hone hquoted
  · simp [readString, hc] at h

/-- Quotes that are quoted characters stay so: what is next is no quote. -/
theorem ne_quotes_append {text next : List Char} (hnext : IsNext next)
    (h : ∀ more, text ≠ '"' :: '"' :: more) (more : List Char) :
    text ++ next ≠ '"' :: '"' :: more := by
  intro heq
  rcases hnext with rfl | ⟨line, rfl⟩
  · exact h more (by rwa [List.append_nil] at heq)
  · rcases text with _ | ⟨x, _ | ⟨y, text⟩⟩
    · cases heq
    · cases heq
    · cases heq
      exact h text rfl

theorem settled_readString : Settled readString where
  takes h := by
    rintro rfl
    cases beginsString_of_readString h with
    | block h =>
      have hle := (suffix_readBlock h).length_le
      simp only [List.length_cons] at hle
      omega
    | quoted hone h =>
      have hle := (suffix_readQuoted h).length_le
      simp only [List.length_cons] at hle
      omega
  leaves h := by
    cases beginsString_of_readString h with
    | block h => exact ⟨(suffix_readBlock h).trans ⟨['"', '"', '"'], rfl⟩, .afterBlock h⟩
    | unclosed hnone => exact ⟨⟨['"', '"'], rfl⟩, fun _ => .here hnone⟩
    | quoted hone h =>
      exact ⟨(suffix_readQuoted h).trans (List.suffix_cons _ _), .afterQuoted hone h⟩
  same h hnext hapart := by
    apply BeginsString.readString_eq
    cases beginsString_of_readString h with
    | block hread =>
      rcases readBlock_next hnext [] _ with ⟨raw, rest, hsome, hmore⟩ | ⟨hnone, -⟩
      · cases hread.symm.trans hsome
        exact .block hmore
      · cases hread.symm.trans hnone
    | unclosed hnone =>
      exact .unclosed (readBlock_next_eq_none hnext hnone (hapart (.here hnone)))
    | quoted hone hread => exact .quoted (ne_quotes_append hnext hone) (readQuoted_append hread _)

def TakesPlain (text rest : List Char) : Prop :=
  ∃ taken, text = taken ++ rest ∧ taken ≠ [] ∧ IsPlain taken

theorem settled_of_plain {α : Type} {read : List Char → Option (α × List Char)}
    (h : ∀ {text a rest next}, read text = some (a, rest) → IsNext next →
      TakesPlain text rest ∧ read (text ++ next) = some (a, rest ++ next)) : Settled read where
  takes hread := by
    obtain ⟨⟨taken, rfl, hne, -⟩, -⟩ := h hread (.inl rfl)
    simpa using Ne.symm hne
  leaves hread := by
    obtain ⟨⟨taken, rfl, -, hplain⟩, -⟩ := h hread (.inl rfl)
    exact leaves_of_plain hplain _
  same hread hnext _ := (h hread hnext).2

theorem readWord_eq_some_iff {w : List Char} {u : Unit} :
    readWord w text = some (u, rest) ↔ text = w ++ rest := by
  constructor
  · intro h
    induction w generalizing text with
    | nil =>
      cases h
      rfl
    | cons x w ih =>
      cases text with
      | nil => cases h
      | cons c text =>
        rw [readWord, Option.ite_none_right_eq_some] at h
        rw [h.1, ih h.2, List.cons_append]
  · rintro rfl
    exact readWord_append w rest

theorem settled_readWord {w : List Char} (hne : w ≠ []) (hplain : IsPlain w) :
    Settled (readWord w) := by
  refine settled_of_plain fun h _ => ?_
  rw [readWord_eq_some_iff] at h ⊢
  exact ⟨⟨w, h, hne, hplain⟩, by rw [h, List.append_assoc]⟩

theorem readWord_next_eq_none {w : List Char} (hw : '\n' ∉ w) (hnext : IsNext next)
    (h : readWord w text = none) : readWord w (text ++ next) = none := by
  rcases hnext with rfl | ⟨line, rfl⟩
  · rwa [List.append_nil]
  induction w generalizing text with
  | nil => cases h
  | cons x w ih =>
    rw [List.mem_cons, not_or] at hw
    cases text with
    | nil => rw [List.nil_append, readWord, if_neg (Ne.symm hw.1)]
    | cons c text =>
      rw [readWord, ite_eq_right_iff] at h
      rw [List.cons_append, readWord, ite_eq_right_iff]
      exact fun hc => ih hw.2 (h hc)

theorem takeWhile_next {p : Char → Bool} (hp : p '\n' = false) (hnext : IsNext next)
    (text : List Char) : (text ++ next).takeWhile p = text.takeWhile p := by
  have hend : next.takeWhile p = [] := by
    rcases hnext with rfl | ⟨line, rfl⟩
    · rfl
    · exact List.takeWhile_cons_of_neg (Bool.eq_false_iff.mp hp)
  rw [List.takeWhile_append]
  split
  · rename_i h
    rw [hend, List.append_nil]
    exact ((List.takeWhile_prefix p).eq_of_length h).symm
  · rfl

theorem dropWhile_next {p : Char → Bool} (hp : p '\n' = false) (hnext : IsNext next)
    (text : List Char) : (text ++ next).dropWhile p = text.dropWhile p ++ next := by
  have hsplit : text.takeWhile p ++ (text ++ next).dropWhile p =
      text.takeWhile p ++ (text.dropWhile p ++ next) := by
    rw [← List.append_assoc, List.takeWhile_append_dropWhile, ← takeWhile_next hp hnext text,
      List.takeWhile_append_dropWhile]
  exact List.append_cancel_left hsplit

theorem readName_next {n : String} (h : readName text = some (n, rest)) (hnext : IsNext next) :
    TakesPlain text rest ∧ readName (text ++ next) = some (n, rest ++ next) := by
  cases text with
  | nil => cases h
  | cons c text =>
    rw [readName, Option.ite_none_right_eq_some] at h
    obtain ⟨hc, heq⟩ := h
    cases heq
    refine ⟨⟨c :: text.takeWhile isNameChar, ?_, List.cons_ne_nil _ _, ?_⟩, ?_⟩
    · rw [List.cons_append, List.takeWhile_append_dropWhile]
    · refine List.forall_mem_cons.mpr ⟨?_, ?_⟩
      · constructor <;> rintro rfl <;> cases hc
      · exact isPlain_of_all rfl rfl (List.all_eq_true.mp List.all_takeWhile)
    · rw [List.cons_append, readName, if_pos hc, takeWhile_next rfl hnext, dropWhile_next rfl hnext]

theorem settled_readName : Settled readName := settled_of_plain readName_next

theorem settled_readEnumValue : Settled readEnumValue := by
  have hname : ∀ {text n rest}, readEnumValue text = some (n, rest) ↔
      (∀ w ∈ ["true", "false", "null"], readWord w.toList text = none) ∧
        readName text = some (n, rest) := by
    intro text n rest
    simp [readEnumValue, and_assoc]
  refine ⟨fun h => settled_readName.takes (hname.mp h).2,
    fun h => settled_readName.leaves (hname.mp h).2, fun h hnext hapart => ?_⟩
  obtain ⟨hwords, h⟩ := hname.mp h
  refine hname.mpr ⟨fun w hw => ?_, settled_readName.same h hnext hapart⟩
  refine readWord_next_eq_none ?_ hnext (hwords w hw)
  revert w
  decide

theorem readTypeWithin_name {fuel : Nat} (h : ∀ more, text ≠ '[' :: more) :
    readTypeWithin (fuel + 1) text = (readName text).map fun (name, tail) =>
      (.named name (readNullable tail).1, (readNullable tail).2) :=
  readTypeWithin.eq_3 text fuel h

theorem readTypeWithin_list {fuel : Nat} {item : TypeSyntax}
    (h : readTypeWithin fuel text = some (item, ']' :: rest)) :
    readTypeWithin (fuel + 1) ('[' :: text) =
      some (.list item (readNullable rest).1, (readNullable rest).2) := by
  rw [readTypeWithin, h]
  rfl

theorem readTypeWithin_cases {fuel : Nat} {t : TypeSyntax}
    (h : readTypeWithin (fuel + 1) text = some (t, rest)) :
    (∃ more item tail, text = '[' :: more ∧ readTypeWithin fuel more = some (item, ']' :: tail) ∧
      t = .list item (readNullable tail).1 ∧ rest = (readNullable tail).2) ∨
    ∃ n tail, (∀ more, text ≠ '[' :: more) ∧ readName text = some (n, tail) ∧
      t = .named n (readNullable tail).1 ∧ rest = (readNullable tail).2 := by
  by_cases hlist : ∃ more, text = '[' :: more
  · obtain ⟨more, rfl⟩ := hlist
    rw [readTypeWithin] at h
    split at h
    · rename_i item tail hitem
      obtain ⟨rfl, rfl⟩ := Prod.mk.inj (Option.some.inj h)
      exact .inl ⟨more, item, tail, rfl, hitem, rfl, rfl⟩
    · cases h
  · have hname : ∀ more, text ≠ '[' :: more := fun more heq => hlist ⟨more, heq⟩
    rw [readTypeWithin_name hname, Option.map_eq_some_iff] at h
    obtain ⟨⟨n, tail⟩, hread, heq⟩ := h
    obtain ⟨rfl, rfl⟩ := Prod.mk.inj heq
    exact .inr ⟨n, tail, hname, hread, rfl, rfl⟩

theorem readNullable_next (hnext : IsNext next) (text : List Char) :
    readNullable (text ++ next) = ((readNullable text).1, (readNullable text).2 ++ next) ∧
      ∃ taken, text = taken ++ (readNullable text).2 ∧ IsPlain taken := by
  rcases text with _ | ⟨c, text⟩
  · refine ⟨?_, [], rfl, isPlain_nil⟩
    rcases hnext with rfl | ⟨line, rfl⟩ <;> rfl
  · by_cases hc : c = '!'
    · subst hc
      exact ⟨rfl, ['!'], rfl, by simp [IsPlain]⟩
    · exact ⟨by simp [readNullable, hc], [], by simp [readNullable, hc], isPlain_nil⟩

theorem TakesPlain.nullable {more : List Char} (h : TakesPlain text more) (hnext : IsNext next) :
    TakesPlain text (readNullable more).2 := by
  obtain ⟨taken, rfl, hne, hplain⟩ := h
  obtain ⟨-, taken', htaken, hplain'⟩ := readNullable_next hnext more
  refine ⟨taken ++ taken', ?_, List.append_ne_nil_of_left_ne_nil hne _,
    List.forall_mem_append.mpr ⟨hplain, hplain'⟩⟩
  rw [List.append_assoc, ← htaken]

theorem readTypeWithin_next {fuel fuel' : Nat} {t : TypeSyntax} (hle : fuel ≤ fuel')
    (h : readTypeWithin fuel text = some (t, rest)) (hnext : IsNext next) :
    TakesPlain text rest ∧ readTypeWithin fuel' (text ++ next) = some (t, rest ++ next) := by
  induction fuel generalizing text t rest fuel' with
  | zero => cases h
  | succ fuel ih =>
    obtain ⟨fuel', rfl⟩ := Nat.exists_eq_add_of_le' hle
    rw [← Nat.add_assoc]
    rcases readTypeWithin_cases h with ⟨more, item, tail, rfl, hitem, rfl, rfl⟩ |
      ⟨n, tail, hname, hread, rfl, rfl⟩
    · obtain ⟨⟨taken, rfl, -, hplain⟩, hread⟩ := ih (Nat.le_add_left fuel fuel') hitem
      have hplain : IsPlain ('[' :: (taken ++ [']'])) :=
        List.forall_mem_cons.mpr ⟨by decide, List.forall_mem_append.mpr ⟨hplain, by simp⟩⟩
      have htakes : TakesPlain ('[' :: (taken ++ ']' :: tail)) tail :=
        ⟨_, by simp, List.cons_ne_nil _ _, hplain⟩
      rw [List.cons_append] at hread
      rw [List.cons_append, readTypeWithin_list hread, (readNullable_next hnext tail).1]
      exact ⟨htakes.nullable hnext, rfl⟩
    · obtain ⟨htakes, hread⟩ := readName_next hread hnext
      have hname' : ∀ more, text ++ next ≠ '[' :: more := by
        rcases htakes with ⟨_ | ⟨c, taken⟩, rfl, hne, -⟩
        · exact absurd rfl hne
        · exact fun more heq => hname (taken ++ tail) (by cases heq; rfl)
      refine ⟨htakes.nullable hnext, ?_⟩
      rw [readTypeWithin_name hname', hread, Option.map_some]
      simp only [(readNullable_next hnext tail).1]

theorem Settled.map {α β : Type} {read : List Char → Option (α × List Char)} (h : Settled read)
    (f : α → β) : Settled fun cs => (read cs).map fun (a, rest) => (f a, rest) := by
  have hread : ∀ {text b rest}, (read text).map (fun (a, rest) => (f a, rest)) = some (b, rest) →
      ∃ a, read text = some (a, rest) ∧ f a = b := by
    intro text b rest hmap
    obtain ⟨⟨a, rest⟩, ha, heq⟩ := Option.map_eq_some_iff.mp hmap
    cases heq
    exact ⟨a, ha, rfl⟩
  refine ⟨fun hmap => ?_, fun hmap => ?_, fun hmap hnext hapart => ?_⟩
  · obtain ⟨a, ha, -⟩ := hread hmap
    exact h.takes ha
  · obtain ⟨a, ha, -⟩ := hread hmap
    exact h.leaves ha
  · obtain ⟨a, ha, rfl⟩ := hread hmap
    rw [h.same ha hnext hapart]
    rfl

theorem settled_readType : Settled readType :=
  settled_of_plain fun h hnext => readTypeWithin_next (by simp) h hnext

theorem settled_readTypeRef : Settled readTypeRef := settled_readType.map TypeSyntax.ref

end

end Sdl

end SchemaAssembly
