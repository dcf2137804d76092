import Mathlib.Data.List.Basic
import SchemaAssembly.Pattern.Reader
import SchemaAssembly.Proofs.Number.NumeralText

/-!
Patterns between the ends of the text. A pattern `p` is required to match a whole text by reading
`^(?:p)$`. What is read of `p` in there is what is read of `p` by itself, unless a comment at the end
of `p` swallows the end of the frame; then the framed text is no pattern.
-/

set_option autoImplicit false

namespace SchemaAssembly

namespace PatternReader

def frameEnd : List Char := [')', '$']

/-- What is left of the framed text where this is left of the source: the same and the end of the
frame, or nothing when a comment has swallowed that end. -/
def GoesOn (source rest rest' : List Char) : Prop :=
  rest ⊆ source ∧ (rest' = rest ++ frameEnd ∨ ('#' ∈ source ∧ rest = [] ∧ rest' = []))

/-- What is read of the source is also read of the framed text. -/
def SameReading {α : Type} (source : List Char) (o o' : Option (α × List Char)) : Prop :=
  ∀ a rest, o = some (a, rest) → ∃ rest', o' = some (a, rest') ∧ GoesOn source rest rest'

section Reading

variable {α β : Type} {source cs cs' rest rest' : List Char} {o o' : Option (α × List Char)}

theorem GoesOn.cases (h : GoesOn source cs cs') :
    (cs = [] ∧ (cs' = frameEnd ∨ cs' = [])) ∨
      ∃ c r, cs = c :: r ∧ cs' = c :: (r ++ frameEnd) ∧ c ∈ source ∧
        GoesOn source r (r ++ frameEnd) := by
  obtain ⟨hsub, rfl | ⟨-, rfl, rfl⟩⟩ := h
  · cases cs with
    | nil => exact .inl ⟨rfl, .inl rfl⟩
    | cons c r =>
      rw [List.cons_subset] at hsub
      exact .inr ⟨c, r, rfl, rfl, hsub.1, hsub.2, .inl rfl⟩
  · exact .inl ⟨rfl, .inr rfl⟩

theorem GoesOn.cons {c : Char} {r : List Char} (hc : c ∈ source)
    (h : GoesOn source r (r ++ frameEnd)) : GoesOn source (c :: r) (c :: (r ++ frameEnd)) :=
  ⟨List.cons_subset.mpr ⟨hc, h.1⟩, .inl rfl⟩

theorem GoesOn.append (h : cs ⊆ source) : GoesOn source cs (cs ++ frameEnd) := ⟨h, .inl rfl⟩

/-- The end of the frame begins nothing that a text without it does not begin with. -/
theorem not_begins_frame (head : List Char) (hhead : ')' ∉ head)
    (h : ∀ rest, cs = head ++ rest → False) : cs ++ frameEnd ≠ head ++ rest := by
  intro heq
  rcases List.append_eq_append_iff.mp heq with ⟨more, rfl, hend⟩ | ⟨more, rfl, -⟩
  · cases more with
    | nil => exact h [] (by simp)
    | cons c more =>
      obtain rfl : ')' = c := (List.cons.inj hend).1
      simp at hhead
  · exact h more rfl

theorem SameReading.fails : SameReading source none o' := nofun

theorem SameReading.gives (a : α) (h : GoesOn source rest rest') :
    SameReading source (some (a, rest)) (some (a, rest')) := by
  rintro _ _ ⟨⟩
  exact ⟨rest', rfl, h⟩

theorem SameReading.bind {f f' : α × List Char → Option (β × List Char)}
    (h : SameReading source o o')
    (hf : ∀ a rest rest', GoesOn source rest rest' →
      SameReading source (f (a, rest)) (f' (a, rest'))) :
    SameReading source (o >>= f) (o' >>= f') := by
  intro b rest hb
  obtain ⟨⟨a, r⟩, ha, hr⟩ := Option.bind_eq_some_iff.mp hb
  obtain ⟨r', ha', hgo⟩ := h a r ha
  obtain ⟨rest', hr', hgo'⟩ := hf a r r' hgo b rest hr
  exact ⟨rest', Option.bind_eq_some_iff.mpr ⟨_, ha', hr'⟩, hgo'⟩

theorem SameReading.bind_same {p : Option β} {f f' : β → Option (α × List Char)}
    (hf : ∀ b, SameReading source (f b) (f' b)) : SameReading source (p >>= f) (p >>= f') := by
  cases p with
  | none => exact .fails
  | some b => exact hf b

theorem SameReading.cases (h : SameReading source o o') :
    o = none ∨ ∃ a rest rest', o = some (a, rest) ∧ o' = some (a, rest') ∧
      GoesOn source rest rest' := by
  rcases o with - | ⟨a, rest⟩
  · exact .inl rfl
  · obtain ⟨rest', ho', hgo⟩ := h a rest rfl
    exact .inr ⟨a, rest, rest', rfl, ho', hgo⟩

theorem SameReading.map (h : SameReading source o o') (f : α → β) :
    SameReading source (o.map fun r => (f r.1, r.2)) (o'.map fun r => (f r.1, r.2)) := by
  intro b rest hb
  obtain ⟨⟨a, r⟩, ha, hr⟩ := Option.map_eq_some_iff.mp hb
  cases hr
  obtain ⟨r', ha', hgo⟩ := h a r ha
  exact ⟨r', by rw [ha']; rfl, hgo⟩

theorem skipVerbose_goesOn (inComment : Bool) (h : cs ⊆ source) :
    skipVerbose inComment cs ⊆ source ∧
      (skipVerbose inComment (cs ++ frameEnd) = skipVerbose inComment cs ++ frameEnd ∨
        (inComment = true ∨ '#' ∈ source) ∧ skipVerbose inComment cs = [] ∧
          skipVerbose inComment (cs ++ frameEnd) = []) := by
  induction cs generalizing inComment with
  | nil =>
    cases inComment with
    | true => exact ⟨h, .inr ⟨.inl rfl, rfl, rfl⟩⟩
    | false => exact ⟨h, .inl rfl⟩
  | cons c r ih =>
    obtain ⟨hc, hr⟩ := List.cons_subset.mp h
    rw [List.cons_append]
    unfold skipVerbose
    split
    · obtain ⟨hsub, heq | ⟨hhash, hnil⟩⟩ := ih (c != '\n') hr
      · exact ⟨hsub, .inl heq⟩
      · exact ⟨hsub, .inr ⟨.inl ‹_›, hnil⟩⟩
    · split
      · obtain ⟨hsub, heq | ⟨hhash, hnil⟩⟩ := ih false hr
        · exact ⟨hsub, .inl heq⟩
        · exact ⟨hsub, .inr ⟨.inr (by simpa using hhash), hnil⟩⟩
      · split
        · subst c
          obtain ⟨hsub, heq | ⟨-, hnil⟩⟩ := ih true hr
          · exact ⟨hsub, .inl heq⟩
          · exact ⟨hsub, .inr ⟨.inr hc, hnil⟩⟩
        · exact ⟨h, .inl rfl⟩

theorem GoesOn.skip (h : GoesOn source cs cs') (flags : PatternFlags) :
    GoesOn source (skip flags cs) (skip flags cs') := by
  unfold PatternReader.skip
  split
  · obtain ⟨hsub, rfl | ⟨hhash, rfl, rfl⟩⟩ := h
    · obtain ⟨hsub', heq | ⟨hhash, hnil, hnil'⟩⟩ := skipVerbose_goesOn false hsub
      · exact ⟨hsub', .inl heq⟩
      · exact ⟨hsub', .inr ⟨by simpa using hhash, hnil, hnil'⟩⟩
    · exact ⟨hsub, .inr ⟨hhash, rfl, rfl⟩⟩
  · exact h

theorem readHexDigits_same (flags : PatternFlags) (k n : Nat) (h : GoesOn source cs cs') :
    SameReading source (readHexDigits flags k n cs) (readHexDigits flags k n cs') := by
  induction k generalizing n cs cs' with
  | zero => exact .gives n h
  | succ k ih =>
    rcases h.cases with ⟨rfl, -⟩ | ⟨c, r, rfl, rfl, -, hr⟩
    · exact .fails
    · exact .bind_same fun d => ih (n * 16 + d) (hr.skip flags)

theorem readBraced_same (flags : PatternFlags) {fuel fuel' : Nat} (hfuel : fuel ≤ fuel')
    (h : GoesOn source cs cs') :
    SameReading source (readBraced flags fuel cs) (readBraced flags fuel' cs') := by
  induction fuel generalizing fuel' cs cs' with
  | zero => exact .fails
  | succ fuel ih =>
    obtain ⟨fuel', rfl⟩ := Nat.exists_eq_add_of_le' hfuel
    rcases h.cases with ⟨rfl, -⟩ | ⟨c, r, rfl, rfl, -, hr⟩
    · exact .fails
    · unfold readBraced
      split
      · exact .gives [] (hr.skip flags)
      · exact (ih (Nat.le_of_add_le_add_right hfuel) (hr.skip flags)).map (c :: ·)

theorem readHex_same (flags : PatternFlags) (digits : Nat) (h : GoesOn source cs cs') :
    SameReading source (readHex flags digits cs) (readHex flags digits cs') := by
  unfold readHex
  rcases (h.skip flags).cases with ⟨hnil, -⟩ | ⟨c, r, hc, hc', hmem, hr⟩
  · rw [hnil]
    exact .fails
  · rw [hc, hc']
    by_cases hbrace : c = '\x7b'
    · subst hbrace
      refine (readBraced_same flags (by simp) (hr.skip flags)).bind fun ds rest rest' hrest => ?_
      by_cases hds : ds.isEmpty
      · simp only [hds, if_true]
        exact .fails
      · simp only [hds]
        exact .bind_same fun values => .bind_same fun n => .gives _ hrest
    · simp only [List.cons.injEq, hbrace, false_and, false_implies, implies_true]
      exact (readHexDigits_same flags digits 0 (.cons hmem hr)).bind fun n rest rest' hrest =>
        .bind_same fun n => .gives _ hrest

theorem readProperty_same (flags : PatternFlags) (negated : Bool) (h : GoesOn source cs cs') :
    SameReading source (readProperty flags negated cs) (readProperty flags negated cs') := by
  have hfinish (negated : Bool) (a : CharSet) {rest rest' : List Char}
      (hrest : GoesOn source rest rest') : SameReading source
        (if flags.unicode then some (Atom.set (.complementIf negated (fold flags a)), rest) else none)
        (if flags.unicode then some (Atom.set (.complementIf negated (fold flags a)), rest')
          else none) := by
    split
    · exact .gives _ hrest
    · exact .fails
  unfold readProperty
  rcases (h.skip flags).cases with ⟨hnil, -⟩ | ⟨c, r, hc, hc', hmem, hr⟩
  · rw [hnil]
    exact .fails
  · rw [hc, hc']
    by_cases hbrace : c = '\x7b'
    · subst hbrace
      refine (readBraced_same flags (by simp) (hr.skip flags)).bind fun name rest rest' hrest => ?_
      simp only
      split
      · exact .bind_same fun a => hfinish _ a hrest
      · exact .bind_same fun a => hfinish _ a hrest
    · simp only
      exact .bind_same fun a => hfinish _ a hr

theorem readBoundary_same (flags : PatternFlags) (h : GoesOn source cs cs') :
    SameReading source (readBoundary flags cs) (readBoundary flags cs') := by
  have hplain : SameReading source (some (Atom.look (.boundary (wordSet flags)), cs))
      (some (Atom.look (.boundary (wordSet flags)), cs')) := .gives _ h
  unfold readBoundary
  rcases h.cases with ⟨rfl, rfl | rfl⟩ | ⟨c, r, rfl, rfl, hmem, hr⟩
  · exact hplain
  · exact hplain
  · by_cases hbrace : c = '\x7b'
    · subst hbrace
      simp only
      rcases (hr.skip flags).cases with ⟨hnil, -⟩ | ⟨d, more, hd, hd', hmem', hmore⟩
      · rw [hnil]
        exact .fails
      · rw [hd, hd']
        simp only
        split
        · refine (readBraced_same flags (by simp) (.cons hmem' hmore)).bind
            fun name rest rest' hrest => ?_
          simp only
          split <;> first | exact .gives _ hrest | exact .fails
        · exact hplain
    · simp only [List.cons.injEq, hbrace, false_and, false_implies, implies_true]
      exact hplain

theorem readEscape_same (flags : PatternFlags) (h : GoesOn source cs cs') :
    SameReading source (readEscape flags cs) (readEscape flags cs') := by
  rcases h.cases with ⟨rfl, -⟩ | ⟨c, r, rfl, rfl, -, hr⟩
  · exact .fails
  · unfold readEscape
    simp only
    split
    · exact readHex_same flags 2 hr
    · exact readHex_same flags 4 hr
    · exact readHex_same flags 8 hr
    · exact readProperty_same flags false hr
    · exact readProperty_same flags true hr
    all_goals try exact .gives _ hr
    · exact readBoundary_same flags hr
    · split
      · exact .gives _ hr
      · exact .fails

theorem readClassAtom_same (flags : PatternFlags) (h : GoesOn source cs cs') :
    SameReading source (readClassAtom flags cs) (readClassAtom flags cs') := by
  rcases h.cases with ⟨rfl, -⟩ | ⟨c, r, rfl, rfl, -, hr⟩
  · exact .fails
  · by_cases hescape : c = '\\'
    · subst hescape
      exact readEscape_same flags hr
    · simp only [readClassAtom]
      exact .gives _ hr

theorem readClassRange_same (flags : PatternFlags) (h : GoesOn source cs cs') :
    SameReading source (readClassRange flags cs) (readClassRange flags cs') := by
  refine (readClassAtom_same flags h).bind fun first rest rest' hrest => ?_
  simp only
  rcases (hrest.skip flags).cases with ⟨hnil, -⟩ | ⟨c, r, hc, hc', hmem, hr⟩
  · rw [hnil]
    exact .fails
  · rw [hc, hc']
    by_cases hhyphen : c = '-'
    · subst hhyphen
      simp only
      rcases (hr.skip flags).cases with ⟨hnil, -⟩ | ⟨next, more, hn, hn', hmem', hmore⟩
      · rw [hnil]
        exact .fails
      · rw [hn, hn']
        simp only
        split
        · exact .bind_same fun a => .gives _ (.cons hmem hr)
        · refine (readClassAtom_same flags (.cons hmem' hmore)).bind
            fun last rest rest' hrest => ?_
          simp only
          split
          · split
            · exact .gives _ hrest
            · exact .fails
          · exact .fails
    · simp only [List.cons.injEq, hhyphen, false_and, false_implies, implies_true]
      exact .bind_same fun a => .gives _ (.cons hmem hr)

theorem skip_length_le (flags : PatternFlags) (cs : List Char) :
    (skip flags cs).length ≤ cs.length := by
  have hverbose (b : Bool) : (skipVerbose b cs).length ≤ cs.length := by
    induction cs generalizing b with
    | nil => simp [skipVerbose]
    | cons c r ih =>
      have hr (b : Bool) := (ih b).trans (Nat.le_succ _)
      unfold skipVerbose
      split
      · exact hr _
      · split
        · exact hr _
        · split
          · exact hr _
          · exact le_rfl
  unfold PatternReader.skip
  split
  · exact hverbose false
  · exact le_rfl

theorem readHyphens_same (flags : PatternFlags) {fuel fuel' : Nat} (h : GoesOn source cs cs')
    (hfuel : cs.length ≤ fuel) (hfuel' : cs'.length ≤ fuel') :
    (readHyphens flags fuel' cs').1 = (readHyphens flags fuel cs).1 ∧
      GoesOn source (readHyphens flags fuel cs).2 (readHyphens flags fuel' cs').2 := by
  induction fuel generalizing cs cs' fuel' with
  | zero =>
    obtain rfl : cs = [] := List.length_eq_zero_iff.mp (Nat.le_zero.mp hfuel)
    rcases h.cases with ⟨-, rfl | rfl⟩ | ⟨c, r, hc, -⟩
    · cases fuel' <;> exact ⟨rfl, h⟩
    · cases fuel' <;> exact ⟨rfl, h⟩
    · cases hc
  | succ fuel ih =>
    rcases h.cases with ⟨rfl, rfl | rfl⟩ | ⟨c, r, rfl, rfl, hmem, hr⟩
    · cases fuel' <;> exact ⟨rfl, h⟩
    · cases fuel' <;> exact ⟨rfl, h⟩
    · cases fuel' with
      | zero => simp at hfuel'
      | succ fuel' =>
        by_cases hhyphen : c = '-'
        · subst hhyphen
          have hlen := skip_length_le flags r
          have hlen' := skip_length_le flags (r ++ frameEnd)
          simp only [List.length_cons] at hfuel hfuel'
          have hfits : (skip flags (r ++ frameEnd)).length ≤ fuel' := by omega
          obtain ⟨heq, hgo⟩ := ih (hr.skip flags) (by omega) hfits
          exact ⟨congrArg (· + 1) heq, hgo⟩
        · simpa [readHyphens, hhyphen] using h

def readAsciiName (negated : Bool) (cs : List Char) : Option (CharSet × List Char) :=
  let name := cs.takeWhile fun c => c != ':'
  match cs.drop name.length with
  | ':' :: ']' :: rest =>
    (CharSet.asciiClass? (String.ofList name)).map fun a => (.complementIf negated a, rest)
  | _ => none

theorem readAsciiName_of_notMem (negated : Bool) (h : ':' ∉ cs) :
    readAsciiName negated cs = none := by
  simp [readAsciiName, takeWhile_ne_self h]

theorem readAsciiName_append (negated : Bool) (name more : List Char) (h : ':' ∉ name) :
    readAsciiName negated (name ++ ':' :: more) = match more with
      | ']' :: rest =>
        (CharSet.asciiClass? (String.ofList name)).map fun a => (.complementIf negated a, rest)
      | _ => none := by
  unfold readAsciiName
  simp only [takeWhile_ne_append h, List.drop_left]
  split <;> simp_all

theorem readAsciiName_frame (negated : Bool) (cs : List Char) :
    readAsciiName negated (cs ++ frameEnd) =
      (readAsciiName negated cs).map fun r => (r.1, r.2 ++ frameEnd) := by
  by_cases h : ':' ∈ cs
  · obtain ⟨name, more, rfl, hname⟩ := List.eq_append_cons_of_mem h
    rw [List.append_assoc, List.cons_append, readAsciiName_append _ _ _ hname,
      readAsciiName_append _ _ _ hname]
    rcases more with - | ⟨d, more⟩
    · rfl
    · by_cases hd : d = ']'
      · subst hd
        simp
        rfl
      · simp [hd]
  · rw [readAsciiName_of_notMem negated h, readAsciiName_of_notMem negated (by simpa [frameEnd])]
    rfl

theorem readAsciiName_subset {negated : Bool} {a : CharSet}
    (h : readAsciiName negated cs = some (a, rest)) : rest ⊆ cs := by
  by_cases hcolon : ':' ∈ cs
  · obtain ⟨name, more, rfl, hname⟩ := List.eq_append_cons_of_mem hcolon
    rw [readAsciiName_append _ _ _ hname] at h
    split at h
    · obtain ⟨a, -, heq⟩ := Option.map_eq_some_iff.mp h
      cases heq
      intro c hc
      simp [hc]
    · cases h
  · rw [readAsciiName_of_notMem negated hcolon] at h
    cases h

theorem readAsciiClass_cons (cs : List Char) :
    readAsciiClass ('[' :: ':' :: cs) = match cs with
      | '^' :: rest => readAsciiName true rest
      | rest => readAsciiName false rest := by
  rcases cs with - | ⟨c, cs⟩
  · rfl
  · by_cases hcaret : c = '^'
    · subst hcaret
      rfl
    · unfold readAsciiClass
      simp only [List.cons.injEq, hcaret, false_and, false_implies, implies_true]
      rfl

theorem readAsciiClass_of_ne (h : ∀ rest, cs ≠ '[' :: ':' :: rest) : readAsciiClass cs = none := by
  unfold readAsciiClass
  split
  · exact absurd rfl (h _)
  · rfl

theorem readAsciiClass_append (cs : List Char) :
    readAsciiClass (cs ++ frameEnd) = (readAsciiClass cs).map fun r => (r.1, r.2 ++ frameEnd) := by
  by_cases h : ∃ rest, cs = '[' :: ':' :: rest
  · obtain ⟨rest, rfl⟩ := h
    rw [List.cons_append, List.cons_append, readAsciiClass_cons, readAsciiClass_cons]
    rcases rest with - | ⟨c, rest⟩
    · exact readAsciiName_frame false []
    · by_cases hcaret : c = '^'
      · subst hcaret
        exact readAsciiName_frame true rest
      · simpa [hcaret] using readAsciiName_frame false (c :: rest)
  · rw [not_exists] at h
    rw [readAsciiClass_of_ne h, readAsciiClass_of_ne]
    · rfl
    · rintro rest hrest
      rcases cs with - | ⟨c, - | ⟨d, cs⟩⟩ <;> simp_all [frameEnd]

theorem readAsciiClass_subset {a : CharSet} (h : readAsciiClass cs = some (a, rest)) :
    rest ⊆ cs := by
  by_cases hcs : ∃ more, cs = '[' :: ':' :: more
  · obtain ⟨more, rfl⟩ := hcs
    have hmore : more ⊆ '[' :: ':' :: more :=
      List.subset_cons_of_subset _ (List.subset_cons_self _ _)
    rw [readAsciiClass_cons] at h
    split at h
    · have hrest := List.subset_cons_of_subset '^' (readAsciiName_subset h)
      exact List.Subset.trans hrest hmore
    · exact List.Subset.trans (readAsciiName_subset h) hmore
  · rw [readAsciiClass_of_ne (not_exists.mp hcs)] at h
    cases h

/-- A class after its head: hyphens, or a closing bracket that stands for itself. -/
def classStart (flags : PatternFlags) (hyphens : Nat) (cs : List Char) :
    List CharSet × List Char :=
  match hyphens, cs with
  | 0, ']' :: rest => ([.single ']'.toNat], skip flags rest)
  | _, cs => (if hyphens = 0 then [] else [.single '-'.toNat], cs)

def readClassAfter (flags : PatternFlags) (fuel : Nat) (negated : Bool) (cs : List Char) :
    Option (CharSet × List Char) :=
  let head := readHyphens flags cs.length cs
  let start := classStart flags head.1 head.2
  (readClassItems flags fuel start.1 none start.2).map fun r =>
    (.complementIf negated (fold flags r.1), r.2)

theorem readClass_succ (flags : PatternFlags) (fuel : Nat) (cs : List Char) :
    readClass flags (fuel + 1) cs = match skip flags cs with
      | '^' :: rest => readClassAfter flags fuel true (skip flags rest)
      | cs => readClassAfter flags fuel false cs := by
  unfold readClass readClassAfter classStart
  simp only
  rcases skip flags cs with - | ⟨c, r⟩
  · simp only
    cases readClassItems flags fuel _ none _ <;> rfl
  · by_cases hcaret : c = '^'
    · subst hcaret
      simp only
      cases readClassItems flags fuel _ none _ <;> rfl
    · simp only [List.cons.injEq, hcaret, false_and, false_implies, implies_true]
      cases readClassItems flags fuel _ none _ <;> rfl

theorem classStart_same (flags : PatternFlags) (hyphens : Nat) (h : GoesOn source cs cs') :
    (classStart flags hyphens cs').1 = (classStart flags hyphens cs).1 ∧
      GoesOn source (classStart flags hyphens cs).2 (classStart flags hyphens cs').2 := by
  cases hyphens with
  | succ n => exact ⟨rfl, h⟩
  | zero =>
    rcases h.cases with ⟨rfl, rfl | rfl⟩ | ⟨c, r, rfl, rfl, hmem, hr⟩
    · exact ⟨rfl, h⟩
    · exact ⟨rfl, h⟩
    · by_cases hbracket : c = ']'
      · subst hbracket
        exact ⟨rfl, hr.skip flags⟩
      · simpa [classStart, hbracket] using h

/-- With so much fuel, classes and their items of the source are also read of the framed text. -/
structure SameClasses (source : List Char) (flags : PatternFlags) (fuel fuel' : Nat) : Prop where
  whole : ∀ cs cs' : List Char, GoesOn source cs cs' →
    SameReading source (readClass flags fuel cs) (readClass flags fuel' cs')
  items : ∀ (read : List CharSet) (left : Option (ClassOp × CharSet)) (cs cs' : List Char),
    GoesOn source cs cs' →
      SameReading source (readClassItems flags fuel read left cs)
        (readClassItems flags fuel' read left cs')

variable {flags : PatternFlags} {fuel fuel' : Nat}

theorem SameClasses.after (hsame : SameClasses source flags fuel fuel') (negated : Bool)
    (h : GoesOn source cs cs') :
    SameReading source (readClassAfter flags fuel negated cs)
      (readClassAfter flags fuel' negated cs') := by
  obtain ⟨hcount, hhead⟩ := readHyphens_same flags h le_rfl le_rfl
  obtain ⟨hstart, hitems⟩ := classStart_same flags (readHyphens flags cs.length cs).1 hhead
  unfold readClassAfter
  simp only [hcount, hstart]
  exact (hsame.items _ _ _ _ hitems).map fun a => CharSet.complementIf negated (fold flags a)

theorem SameClasses.whole_succ (hsame : SameClasses source flags fuel fuel')
    (h : GoesOn source cs cs') :
    SameReading source (readClass flags (fuel + 1) cs) (readClass flags (fuel' + 1) cs') := by
  rw [readClass_succ, readClass_succ]
  rcases (h.skip flags).cases with ⟨hnil, hend⟩ | ⟨c, r, hc, hc', hmem, hr⟩
  · have hgo := h.skip flags
    rw [hnil] at hgo ⊢
    rcases hend with hend | hend <;> rw [hend] at hgo ⊢ <;> exact hsame.after false hgo
  · rw [hc, hc']
    by_cases hcaret : c = '^'
    · subst hcaret
      exact hsame.after true (hr.skip flags)
    · simp only [List.cons.injEq, hcaret, false_and, false_implies, implies_true]
      exact hsame.after false (.cons hmem hr)

theorem SameClasses.items_succ (hsame : SameClasses source flags fuel fuel')
    (read : List CharSet) (left : Option (ClassOp × CharSet)) (h : GoesOn source cs cs') :
    SameReading source (readClassItems flags (fuel + 1) read left cs)
      (readClassItems flags (fuel' + 1) read left cs') := by
  unfold readClassItems
  rcases (h.skip flags).cases with ⟨hnil, -⟩ | ⟨c, r, hc, hc', hmem, hr⟩
  · rw [hnil]
    exact .fails
  rw [hc, hc']
  -- After an operator of two characters.
  have hoperator {rest : List Char} {d : Char} (heq : r = d :: rest) :
      GoesOn source rest (rest ++ frameEnd) := by
    subst heq
    exact .append (List.cons_subset.mp hr.1).2
  split
  · contradiction
  · next heq =>
    cases heq
    exact .gives _ hr
  · next heq =>
    cases heq
    exact hsame.items _ _ _ _ (hoperator rfl)
  · next heq =>
    cases heq
    exact hsame.items _ _ _ _ (hoperator rfl)
  · next heq =>
    cases heq
    exact hsame.items _ _ _ _ (hoperator rfl)
  · next heq =>
    cases heq
    have hascii := readAsciiClass_append ('[' :: r)
    rw [List.cons_append] at hascii
    simp only [hascii]
    cases hread : readAsciiClass ('[' :: r) with
    | some x =>
      exact hsame.items _ _ _ _ (.append (List.Subset.trans (readAsciiClass_subset hread)
        (List.cons_subset.mpr ⟨hmem, hr.1⟩)))
    | none =>
      rcases (hsame.whole _ _ hr).cases with hx | ⟨a, rest, rest', hx, hx', hgo⟩
      · simp only [hx]
        exact .fails
      · simp only [hx, Option.map_none, hx']
        exact hsame.items _ _ _ _ hgo
  · rename_i hclose hand hminus htilde hopen
    rcases (readClassRange_same flags (.cons hmem hr)).cases with
      hx | ⟨a, rest, rest', hx, hx', hgo⟩
    · simp only [hx]
      exact .fails
    · simp only [hx]
      intro b more hread
      obtain ⟨more', hread', hmore⟩ := hsame.items _ _ _ _ hgo b more hread
      refine ⟨more', Eq.trans ?_ hread', hmore⟩
      split
      · contradiction
      · next heq => exact absurd heq (not_begins_frame [']'] (by decide) hclose)
      · next heq => exact absurd heq (not_begins_frame ['&', '&'] (by decide) hand)
      · next heq => exact absurd heq (not_begins_frame ['-', '-'] (by decide) hminus)
      · next heq => exact absurd heq (not_begins_frame ['~', '~'] (by decide) htilde)
      · next heq => exact absurd heq (not_begins_frame ['['] (by decide) hopen)
      · simp only [hx']

theorem sameClasses (hfuel : fuel ≤ fuel') : SameClasses source flags fuel fuel' := by
  induction fuel generalizing fuel' with
  | zero => exact ⟨fun _ _ _ => .fails, fun _ _ _ _ _ => .fails⟩
  | succ fuel ih =>
    obtain ⟨fuel', rfl⟩ := Nat.exists_eq_add_of_le' hfuel
    have hsame := ih (Nat.le_of_add_le_add_right hfuel)
    exact ⟨fun _ _ h => hsame.whole_succ h, fun _ _ _ _ h => hsame.items_succ _ _ h⟩

end Reading

end PatternReader

end SchemaAssembly
