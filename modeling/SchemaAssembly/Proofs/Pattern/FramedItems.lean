import SchemaAssembly.Proofs.Pattern.Framing
import SchemaAssembly.Proofs.Pattern.Matching

/-!
Whole patterns between the ends of the text. Where a pattern and its framed text can both be read,
the framed pattern is found in a text just if the pattern spans the whole text. The framed text of a
pattern cannot be read where a comment at its end swallows the frame, or where the frame makes it too
large.
-/

set_option autoImplicit false

namespace SchemaAssembly

namespace PatternReader

section Reading

variable {source cs cs' rest : List Char}

theorem dropWhile_frame {p : Char → Bool} (hp : p ')' = false) (cs : List Char) :
    (cs ++ frameEnd).dropWhile p = cs.dropWhile p ++ frameEnd := by
  rw [List.dropWhile_append]
  split
  · rename_i hnil
    rw [List.isEmpty_iff.mp hnil]
    simp [frameEnd, hp]
  · rfl

theorem takeWhile_frame {p : Char → Bool} (hp : p ')' = false) (cs : List Char) :
    (cs ++ frameEnd).takeWhile p = cs.takeWhile p := by
  rw [List.takeWhile_append]
  split
  · rename_i hall
    rw [(List.takeWhile_prefix p).eq_of_length hall]
    simp [frameEnd, hp]
  · rfl

theorem readCount_frame (cs : List Char) :
    readCount (cs ++ frameEnd) = (readCount cs).map fun r => (r.1, r.2 ++ frameEnd) := by
  have hblank : isBlank ')' = false := by decide
  have hdigit : Char.isDigit ')' = false := by decide
  unfold readCount
  simp only [dropWhile_frame hblank, takeWhile_frame hdigit]
  rw [List.drop_append_of_le_length (List.takeWhile_prefix _).length_le, dropWhile_frame hblank]
  split
  · rfl
  · split <;> rfl

theorem readCount_subset {n : Option Nat} (h : readCount cs = some (n, rest)) : rest ⊆ cs := by
  have hsub : (((cs.dropWhile isBlank).drop ((cs.dropWhile isBlank).takeWhile
      Char.isDigit).length).dropWhile isBlank) ⊆ cs :=
    List.Subset.trans (List.dropWhile_subset _)
      (List.Subset.trans (List.drop_subset _ _) (List.dropWhile_subset _))
  unfold readCount at h
  simp only at h
  split at h
  · cases h
    exact hsub
  · split at h
    · cases h
      exact hsub
    · cases h

theorem readCount_same (h : GoesOn source cs cs') :
    SameReading source (readCount cs) (readCount cs') := by
  obtain ⟨hsub, rfl | ⟨hhash, rfl, rfl⟩⟩ := h
  · intro n rest hread
    refine ⟨rest ++ frameEnd, by rw [readCount_frame, hread]; rfl, .append ?_⟩
    exact List.Subset.trans (readCount_subset hread) hsub
  · exact .gives none ⟨hsub, .inr ⟨hhash, rfl, rfl⟩⟩

/-- Bounds after their comma. -/
def readMost (flags : PatternFlags) (least : Nat) (cs : List Char) :
    Option (Nat × Option Nat × List Char) :=
  match skip flags cs with
  | '\x7d' :: rest => some (least, none, rest)
  | rest => do
    let (most, rest) ← readCount rest
    let most ← most
    match rest with
    | '\x7d' :: rest => if least ≤ most then some (least, some most, rest) else none
    | _ => none

theorem readBounds_eq (flags : PatternFlags) (cs : List Char) :
    readBounds flags cs = (readCount (skip flags cs)).bind fun r => r.1.bind fun least =>
      match r.2 with
      | '\x7d' :: rest => some (least, some least, rest)
      | ',' :: rest => readMost flags least rest
      | _ => none := rfl

theorem readMost_same (flags : PatternFlags) (h : GoesOn source cs cs') {n least : Nat}
    {most : Option Nat} (hread : readMost flags n cs = some (least, most, rest)) :
    ∃ rest', readMost flags n cs' = some (least, most, rest') ∧ GoesOn source rest rest' := by
  unfold readMost at hread ⊢
  rcases (h.skip flags).cases with ⟨hnil, -⟩ | ⟨c, r, hc, hc', hmem, hr⟩
  · rw [hnil] at hread
    cases hread
  rw [hc] at hread
  rw [hc']
  by_cases hend : c = '\x7d'
  · subst hend
    cases hread
    exact ⟨_, rfl, hr⟩
  simp only [List.cons.injEq, hend, false_and, false_implies, implies_true] at hread ⊢
  obtain ⟨⟨count, r⟩, hcount, hread⟩ := Option.bind_eq_some_iff.mp hread
  obtain ⟨m, rfl, hread⟩ := Option.bind_eq_some_iff.mp hread
  obtain ⟨r', hcount', hgo⟩ := readCount_same (.cons hmem hr) _ _ hcount
  rw [hcount']
  simp only [Option.bind_eq_bind, Option.bind_some] at hread ⊢
  rcases hgo.cases with ⟨rfl, -⟩ | ⟨d, r, rfl, rfl, -, hr⟩
  · cases hread
  · by_cases hlast : d = '\x7d'
    · subst hlast
      simp only at hread ⊢
      split at hread
      · cases hread
        rw [if_pos ‹_›]
        exact ⟨_, rfl, hr⟩
      · cases hread
    · simp [hlast] at hread

theorem readBounds_same (flags : PatternFlags) (h : GoesOn source cs cs') {least : Nat}
    {most : Option Nat} (hread : readBounds flags cs = some (least, most, rest)) :
    ∃ rest', readBounds flags cs' = some (least, most, rest') ∧ GoesOn source rest rest' := by
  rw [readBounds_eq] at hread ⊢
  obtain ⟨⟨count, r⟩, hcount, hread⟩ := Option.bind_eq_some_iff.mp hread
  obtain ⟨n, rfl, hread⟩ := Option.bind_eq_some_iff.mp hread
  obtain ⟨r', hcount', hgo⟩ := readCount_same (h.skip flags) _ _ hcount
  rw [hcount']
  simp only [Option.bind_some] at hread ⊢
  rcases hgo.cases with ⟨rfl, -⟩ | ⟨c, r, rfl, rfl, -, hr⟩
  · cases hread
  · by_cases hbrace : c = '\x7d'
    · subst hbrace
      cases hread
      exact ⟨_, rfl, hr⟩
    · by_cases hcomma : c = ','
      · subst hcomma
        exact readMost_same flags hr hread
      · simp [hbrace, hcomma] at hread

theorem GoesOn.skipLazy (h : GoesOn source cs cs') : GoesOn source (skipLazy cs) (skipLazy cs') := by
  rcases h.cases with ⟨rfl, rfl | rfl⟩ | ⟨c, r, rfl, rfl, -, hr⟩
  · exact h
  · exact h
  · by_cases hmark : c = '?'
    · subst hmark
      exact hr
    · simpa [PatternReader.skipLazy, hmark] using h

theorem readFlags_frame {flags on : PatternFlags} {seen : List Char} {colon any : Bool}
    (h : readFlags flags seen cs = some (on, colon, any, rest)) :
    readFlags flags seen (cs ++ frameEnd) = some (on, colon, any, rest ++ frameEnd) ∧
      rest ⊆ cs := by
  induction cs generalizing flags seen with
  | nil => cases h
  | cons c r ih =>
    have hrest {flags seen} (h : readFlags flags seen r = some (on, colon, any, rest)) :
        readFlags flags seen (r ++ frameEnd) = some (on, colon, any, rest ++ frameEnd) ∧
          rest ⊆ c :: r :=
      ⟨(ih h).1, List.subset_cons_of_subset c (ih h).2⟩
    rw [List.cons_append]
    unfold readFlags at h ⊢
    simp only at h ⊢
    split at h
    · split at h
      · cases h
      · cases h
        rw [if_pos ‹_›, if_neg ‹_›]
        exact ⟨rfl, List.subset_cons_self _ _⟩
    · rw [if_neg ‹_›]
      split at h
      · cases h
      · rw [if_neg ‹_›]
        split at h
        · rw [if_pos ‹_›]
          exact hrest h
        · rw [if_neg ‹_›]
          cases hset : setFlag flags c (!seen.contains '-') with
          | none =>
            rw [hset] at h
            cases h
          | some flags =>
            rw [hset] at h
            exact hrest h

theorem readGroupName_frame {name : String} (h : readGroupName cs = some (name, rest)) :
    readGroupName (cs ++ frameEnd) = some (name, rest ++ frameEnd) ∧ rest ⊆ cs := by
  unfold readGroupName at h ⊢
  by_cases hmem : '>' ∈ cs
  · obtain ⟨text, more, rfl, htext⟩ := List.eq_append_cons_of_mem hmem
    rw [List.append_assoc, List.cons_append]
    simp only [takeWhile_ne_append htext, List.drop_left] at h ⊢
    rcases text with - | ⟨c, text⟩
    · cases h
    · simp only at h ⊢
      split at h
      · cases h
        rw [if_pos ‹_›]
        refine ⟨rfl, fun d hd => ?_⟩
        simp [hd]
      · cases h
  · simp [takeWhile_ne_self hmem] at h

def pushing (fuel : Nat) (s : GroupState) (p : Option Pattern) (rest : List Char) :
    Option (GroupState × List Char) :=
  match p with
  | some p => readItems fuel (s.push p) rest
  | none => none

def repeating (fuel : Nat) (s : GroupState) (least : Nat) (most : Option Nat) (rest : List Char) :
    Option (GroupState × List Char) :=
  match s.repeatLast least most with
  | some s => readItems fuel s (skipLazy rest)
  | none => none

def grouping (fuel : Nat) (s : GroupState) (flags : PatternFlags) (names : List String)
    (cs : List Char) : Option (GroupState × List Char) :=
  match readItems fuel ⟨flags, [], [], names⟩ cs with
  | some (inner, ')' :: rest) =>
    readItems fuel { s.push inner.close with names := inner.names } rest
  | _ => none

def naming (fuel : Nat) (s : GroupState) (cs : List Char) : Option (GroupState × List Char) :=
  match readGroupName cs with
  | some (name, rest) =>
    if s.names.contains name then none else grouping fuel s s.flags (name :: s.names) rest
  | none => none

def flagging (fuel : Nat) (s : GroupState) (cs : List Char) : Option (GroupState × List Char) :=
  match readFlags s.flags [] cs with
  | some (flags, true, _, rest) => grouping fuel s flags s.names rest
  | some (flags, false, true, rest) =>
    readItems fuel { s with flags := flags, items := none :: s.items } rest
  | _ => none

def opening (fuel : Nat) (s : GroupState) (cs : List Char) : Option (GroupState × List Char) :=
  match cs with
  | '?' :: '=' :: _ | '?' :: '!' :: _ | '?' :: '<' :: '=' :: _ | '?' :: '<' :: '!' :: _ => none
  | '?' :: 'P' :: '<' :: rest => naming fuel s rest
  | '?' :: '<' :: rest => naming fuel s rest
  | '?' :: rest => flagging fuel s rest
  | rest => grouping fuel s s.flags s.names rest

def readItem (fuel : Nat) (s : GroupState) (c : Char) (rest : List Char) :
    Option (GroupState × List Char) :=
  match c with
  | ')' => some (s, ')' :: rest)
  | '|' => readItems fuel s.alternate rest
  | '(' => opening fuel s (skip s.flags rest)
  | '[' =>
    match readClass s.flags (rest.length + 1) rest with
    | some (a, rest) => pushing fuel s (charPattern s.flags a) rest
    | none => none
  | '?' => repeating fuel s 0 (some 1) rest
  | '*' => repeating fuel s 0 none rest
  | '+' => repeating fuel s 1 none rest
  | '\x7b' =>
    match readBounds s.flags rest with
    | some (least, most, rest) => repeating fuel s least most (skip s.flags rest)
    | none => none
  | '\\' =>
    match readEscape s.flags rest with
    | some (a, rest) => pushing fuel s (atomPattern s.flags a) rest
    | none => none
  | '.' => pushing fuel s (charPattern s.flags (dotSet s.flags)) rest
  | '^' => pushing fuel s (some (.look (startAssertion s.flags))) rest
  | '$' => pushing fuel s (some (.look (endAssertion s.flags))) rest
  | c => pushing fuel s (atomPattern s.flags (.char c.toNat)) rest

theorem readItems_succ (fuel : Nat) (s : GroupState) (cs : List Char) :
    readItems (fuel + 1) s cs = match skip s.flags cs with
      | [] => some (s, [])
      | c :: rest => readItem fuel s c rest := by
  conv_lhs => unfold readItems
  rcases skip s.flags cs with - | ⟨c, rest⟩
  · rfl
  · symm
    show readItem fuel s c rest = _
    unfold readItem
    split
    all_goals try rfl
    simp only [*]
    rfl

/-- With so much fuel, items of the source are also read of the framed text. -/
def SameItems (source : List Char) (fuel fuel' : Nat) : Prop :=
  ∀ (s : GroupState) (cs cs' : List Char), GoesOn source cs cs' →
    SameReading source (readItems fuel s cs) (readItems fuel' s cs')

variable {fuel fuel' : Nat}

theorem SameItems.pushing (hsame : SameItems source fuel fuel') (s : GroupState)
    (p : Option Pattern) (h : GoesOn source cs cs') :
    SameReading source (pushing fuel s p cs) (pushing fuel' s p cs') := by
  cases p with
  | none => exact .fails
  | some p => exact hsame _ _ _ h

theorem SameItems.repeating (hsame : SameItems source fuel fuel') (s : GroupState) (least : Nat)
    (most : Option Nat) (h : GoesOn source cs cs') :
    SameReading source (repeating fuel s least most cs) (repeating fuel' s least most cs') := by
  unfold PatternReader.repeating
  cases s.repeatLast least most with
  | none => exact .fails
  | some s => exact hsame _ _ _ h.skipLazy

theorem SameItems.grouping (hsame : SameItems source fuel fuel') (s : GroupState)
    (flags : PatternFlags) (names : List String) (h : GoesOn source cs cs') :
    SameReading source (grouping fuel s flags names cs) (grouping fuel' s flags names cs') := by
  unfold PatternReader.grouping
  rcases (hsame ⟨flags, [], [], names⟩ cs cs' h).cases with
    hread | ⟨inner, rest, rest', hread, hread', hgo⟩
  · simp only [hread]
    exact .fails
  · rw [hread, hread']
    rcases hgo.cases with ⟨rfl, -⟩ | ⟨c, r, rfl, rfl, -, hr⟩
    · exact .fails
    · by_cases hclose : c = ')'
      · subst hclose
        exact hsame _ _ _ hr
      · intro a rest hfail
        simp [hclose] at hfail

theorem SameItems.naming (hsame : SameItems source fuel fuel') (s : GroupState)
    (h : cs ⊆ source) :
    SameReading source (naming fuel s cs) (naming fuel' s (cs ++ frameEnd)) := by
  unfold PatternReader.naming
  rcases hread : readGroupName cs with - | ⟨name, rest⟩
  · exact .fails
  · obtain ⟨hread', hsub⟩ := readGroupName_frame hread
    rw [hread']
    simp only
    split
    · exact .fails
    · exact hsame.grouping s _ _ (.append (List.Subset.trans hsub h))

theorem SameItems.flagged (hsame : SameItems source fuel fuel') (s : GroupState)
    (h : cs ⊆ source) :
    SameReading source (flagging fuel s cs) (flagging fuel' s (cs ++ frameEnd)) := by
  unfold flagging
  rcases hread : readFlags s.flags [] cs with - | ⟨flags, colon, any, rest⟩
  · exact .fails
  · obtain ⟨hread', hsub⟩ := readFlags_frame hread
    have hgo : GoesOn source rest (rest ++ frameEnd) := .append (List.Subset.trans hsub h)
    rw [hread']
    cases colon with
    | true => exact hsame.grouping s _ _ hgo
    | false =>
      cases any with
      | true => exact hsame _ _ _ hgo
      | false => exact .fails

/-- A group whose first character is a question mark. -/
theorem SameItems.marked (hsame : SameItems source fuel fuel') (s : GroupState)
    (hr : GoesOn source cs (cs ++ frameEnd)) :
    SameReading source (opening fuel s ('?' :: cs)) (opening fuel' s ('?' :: (cs ++ frameEnd))) := by
  have hsub := hr.1
  unfold PatternReader.opening
  -- Assertions on what stands around are refused. After those come the two spellings of a name, then
  -- flags: there the frame adds no character that could begin a name.
  split
  · exact .fails
  · exact .fails
  · exact .fails
  · exact .fails
  · rename_i heq
    cases heq
    exact hsame.naming s (List.cons_subset.mp (List.cons_subset.mp hsub).2).2
  · rename_i rest hequal hbang heq
    cases heq
    intro a more hread
    obtain ⟨more', hread', hgo⟩ := hsame.naming s (List.cons_subset.mp hsub).2 a more hread
    refine ⟨more', Eq.trans ?_ hread', hgo⟩
    rcases rest with - | ⟨e, rest⟩
    · cases hread
    · have he : e ≠ '=' := by
        rintro rfl
        exact hequal rest rfl
      have he' : e ≠ '!' := by
        rintro rfl
        exact hbang rest rfl
      simp [he, he']
  · rename_i hequal hbang hbehind hnotBehind hnamed hname heq
    cases heq
    have hbegins (head : List Char) (hhead : ')' ∉ head)
        (h : ∀ rest, cs = head ++ rest → False) {rest : List Char} :
        '?' :: (cs ++ frameEnd) ≠ '?' :: (head ++ rest) :=
      fun heq => not_begins_frame head hhead h (List.cons.inj heq).2
    intro a more hread
    obtain ⟨more', hread', hgo⟩ := hsame.flagged s hsub a more hread
    refine ⟨more', Eq.trans ?_ hread', hgo⟩
    split
    · next heq => exact absurd heq (hbegins ['='] (by decide) hequal)
    · next heq => exact absurd heq (hbegins ['!'] (by decide) hbang)
    · next heq => exact absurd heq (hbegins ['<', '='] (by decide) hbehind)
    · next heq => exact absurd heq (hbegins ['<', '!'] (by decide) hnotBehind)
    · next heq => exact absurd heq (hbegins ['P', '<'] (by decide) hnamed)
    · next heq => exact absurd heq (hbegins ['<'] (by decide) hname)
    · next heq => rw [(List.cons.inj heq).2]
    · next heq => exact absurd rfl (heq _)
  · simp_all

theorem SameItems.opening (hsame : SameItems source fuel fuel') (s : GroupState)
    (h : GoesOn source cs cs') :
    SameReading source (opening fuel s cs) (opening fuel' s cs') := by
  rcases h.cases with ⟨rfl, rfl | rfl⟩ | ⟨c, r, rfl, rfl, hmem, hr⟩
  · exact hsame.grouping s _ _ h
  · exact hsame.grouping s _ _ h
  · by_cases hmark : c = '?'
    · subst hmark
      exact hsame.marked s hr
    · unfold PatternReader.opening
      simp only [List.cons.injEq, hmark, false_and, false_implies, implies_true]
      exact hsame.grouping s _ _ h

theorem SameItems.item (hsame : SameItems source fuel fuel') (s : GroupState) {c : Char}
    (hc : c ∈ source) (hr : GoesOn source cs (cs ++ frameEnd)) :
    SameReading source (readItem fuel s c cs) (readItem fuel' s c (cs ++ frameEnd)) := by
  unfold readItem
  split
  · exact .gives s (.cons hc hr)
  · exact hsame _ _ _ hr
  · exact hsame.opening s (hr.skip _)
  -- A class in brackets, read with fuel of its own.
  · have hclass : SameReading source (readClass s.flags (cs.length + 1) cs)
        (readClass s.flags ((cs ++ frameEnd).length + 1) (cs ++ frameEnd)) :=
      (sameClasses (by simp)).whole _ _ hr
    rcases hclass.cases with hread | ⟨a, rest, rest', hread, hread', hgo⟩
    · simp only [hread]
      exact .fails
    · simp only [hread, hread']
      exact hsame.pushing s _ hgo
  · exact hsame.repeating s _ _ hr
  · exact hsame.repeating s _ _ hr
  · exact hsame.repeating s _ _ hr
  -- Bounds in braces.
  · rcases hread : readBounds s.flags cs with - | ⟨least, most, rest⟩
    · exact .fails
    · obtain ⟨rest', hread', hgo⟩ := readBounds_same s.flags hr hread
      simp only [hread']
      exact hsame.repeating s _ _ (hgo.skip _)
  -- What stands after a backslash.
  · rcases (readEscape_same s.flags hr).cases with hread | ⟨a, rest, rest', hread, hread', hgo⟩
    · simp only [hread]
      exact .fails
    · simp only [hread, hread']
      exact hsame.pushing s _ hgo
  · exact hsame.pushing s _ hr
  · exact hsame.pushing s _ hr
  · exact hsame.pushing s _ hr
  · exact hsame.pushing s _ hr

/-- Every item of the source is read of the framed text too, with no less fuel. -/
theorem sameItems (hfuel : fuel ≤ fuel') : SameItems source fuel fuel' := by
  induction fuel generalizing fuel' with
  | zero => exact fun _ _ _ _ => .fails
  | succ fuel ih =>
    obtain ⟨fuel', rfl⟩ : ∃ k, fuel' = k + 1 := ⟨fuel' - 1, by omega⟩
    have hsame := ih (Nat.le_of_add_le_add_right hfuel)
    intro s cs cs' h
    rw [readItems_succ, readItems_succ]
    rcases (h.skip s.flags).cases with ⟨hnil, hend⟩ | ⟨c, r, hc, hc', hmem, hr⟩
    · have hgo := h.skip s.flags
      rw [hnil] at hgo ⊢
      rcases hend with hend | hend <;> rw [hend] at hgo ⊢ <;> exact .gives s hgo
    · rw [hc, hc']
      exact hsame.item s hmem hr

end Reading

def start : GroupState := ⟨{}, [], [], []⟩

theorem frame_items {cs : List Char} {state : GroupState} {n : Nat} (hn : cs.length + 1 ≤ n)
    (h : readItems (cs.length + 1) start cs = some (state, [])) :
    readItems n start (cs ++ frameEnd) = some (state, frameEnd) ∨
      '#' ∈ cs ∧ readItems n start (cs ++ frameEnd) = some (state, []) := by
  obtain ⟨rest', hread, -, rfl | ⟨hhash, -, rfl⟩⟩ :=
    sameItems hn start cs _ (.append (List.Subset.refl cs)) state [] h
  · exact .inl hread
  · exact .inr ⟨hhash, hread⟩

theorem readItems_framed (n : Nat) (cs : List Char) :
    readItems (n + 2) start ('^' :: '(' :: '?' :: ':' :: cs) =
      grouping n (start.push (.look .startText)) {} [] cs := rfl

theorem grouping_frameEnd {n : Nat} {cs : List Char} {state : GroupState}
    (h : readItems (n + 2) start cs = some (state, frameEnd)) :
    ∃ final, grouping (n + 2) (start.push (.look .startText)) {} [] cs = some (final, []) ∧
      final.close = state.close.framed := by
  unfold grouping
  rw [show readItems (n + 2) ⟨{}, [], [], []⟩ cs = some (state, frameEnd) from h]
  exact ⟨_, rfl, rfl⟩

theorem grouping_swallowed {n : Nat} {cs : List Char} {state s : GroupState}
    (h : readItems n start cs = some (state, [])) : grouping n s {} [] cs = none := by
  unfold grouping
  rw [show readItems n ⟨{}, [], [], []⟩ cs = some (state, []) from h]

end PatternReader

namespace Pattern

open PatternReader

def frame (source : String) : String := "^(?:" ++ source ++ ")$"

theorem toList_frame (source : String) :
    (frame source).toList = '^' :: '(' :: '?' :: ':' :: (source.toList ++ frameEnd) := by
  simp [frame, frameEnd, String.toList_append]

variable {source : String} {p : Pattern}

theorem ofText?_eq (source : String) :
    ofText? source = match readItems (source.toList.length + 1) start source.toList with
      | some (state, []) => if state.close.weight ≤ weightLimit then some state.close else none
      | _ => none := rfl

theorem weight_framed (p : Pattern) : p.framed.weight = p.weight + 96 := by
  simp only [framed, weight]
  omega

theorem readItems_of_ofText? (h : ofText? source = some p) :
    ∃ state, readItems (source.toList.length + 1) start source.toList = some (state, []) ∧
      state.close = p := by
  rw [ofText?_eq] at h
  split at h
  · rename_i state hread
    split at h
    · exact ⟨state, hread, Option.some.inj h⟩
    · cases h
  · cases h

/-- The framed text of a pattern gives the pattern between the ends of the text, unless a comment
swallows the end of the frame. -/
theorem ofText?_frame_cases (h : ofText? source = some p) :
    ofText? (frame source) = (if p.framed.weight ≤ weightLimit then some p.framed else none) ∨
      '#' ∈ source.toList ∧ ofText? (frame source) = none := by
  obtain ⟨state, hread, rfl⟩ := readItems_of_ofText? h
  have hframed : ofText? (frame source) =
      match grouping (source.toList.length + 5) (start.push (.look .startText)) {} []
        (source.toList ++ frameEnd) with
      | some (state, []) => if state.close.weight ≤ weightLimit then some state.close else none
      | _ => none := by
    rw [ofText?_eq, toList_frame, ← readItems_framed]
    simp [frameEnd]
  rw [hframed]
  rcases frame_items (n := source.toList.length + 5) (by omega) hread with
    hitems | ⟨hhash, hitems⟩
  · obtain ⟨final, hgroup, hclose⟩ := grouping_frameEnd hitems
    rw [hgroup]
    exact .inl (by rw [← hclose])
  · exact .inr ⟨hhash, by rw [grouping_swallowed hitems]⟩

/-- A framed pattern is the pattern between the ends of the text, if it can be read. -/
theorem ofText?_frame (h : ofText? source = some p) :
    ofText? (frame source) = none ∨ ofText? (frame source) = some p.framed := by
  rcases ofText?_frame_cases h with hframe | ⟨-, hframe⟩
  · rw [hframe]
    split
    · exact .inr rfl
    · exact .inl rfl
  · exact .inl hframe

theorem ofText?_frame_of_notMem (h : ofText? source = some p) (hhash : '#' ∉ source.toList)
    (hroom : p.weight + 96 ≤ weightLimit) : ofText? (frame source) = some p.framed := by
  rcases ofText?_frame_cases h with hframe | ⟨hmem, -⟩
  · rw [hframe, weight_framed, if_pos hroom]
  · exact absurd hmem hhash

end Pattern

end SchemaAssembly
