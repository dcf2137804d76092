import SchemaAssembly.Proofs.Sdl.GoingOn
import SchemaAssembly.Proofs.Sdl.NumberEnds

/-!
The grammar and further lines. Each part of a definition is taken again when more is next, as long as
the next text does not begin like a part that a definition may end with.
-/

set_option autoImplicit false

namespace SchemaAssembly

namespace Sdl

open Reader

variable {α β : Type} {next text : List Char} {after before : List Char → Prop} {c : Char}

theorem skipIgnored_of_headOf (h : headOf text = some c) :
    ∃ rest, skipIgnored text = c :: rest := by
  rw [headOf, List.head?_eq_some_iff] at h
  exact h

theorem exists_headOf_of_name (h : Begins readName text) :
    ∃ c, headOf text = some c ∧ isNameStart c = true := by
  rw [Begins] at h
  rw [headOf]
  cases hskip : skipIgnored text with
  | nil =>
    rw [hskip] at h
    exact absurd rfl h
  | cons c rest =>
    refine ⟨c, rfl, ?_⟩
    cases hc : isNameStart c with
    | false =>
      rw [hskip, readName, if_neg (Bool.eq_false_iff.mp hc)] at h
      exact absurd rfl h
    | true => rfl

theorem begins_name_of_enumValue (h : Begins readEnumValue text) : Begins readName text := by
  intro hnone
  apply h
  simp [readEnumValue, hnone]

theorem avoids_of_name {cs : List Char} (h : Begins readName text)
    (hcs : cs.any isNameStart = false) : Avoids cs text := by
  obtain ⟨c, hc, hstart⟩ := exists_headOf_of_name h
  exact avoids_of_headOf hc fun hmem => List.any_eq_false.mp hcs c hmem hstart

theorem not_begins_name (h : headOf text = some c) (hc : isNameStart c = false) :
    ¬ Begins readName text := by
  intro hname
  obtain ⟨d, hd, hstart⟩ := exists_headOf_of_name hname
  cases h.symm.trans hd
  rw [hc] at hstart
  cases hstart

theorem not_begins_enumValue (h : headOf text = some c) (hc : isNameStart c = false) :
    ¬ Begins readEnumValue text := fun hbegins =>
  not_begins_name h hc (begins_name_of_enumValue hbegins)

theorem headOf_of_string (h : Begins readString text) : headOf text = some '"' := by
  obtain ⟨⟨s, rest⟩, hr⟩ := Option.ne_none_iff_exists'.mp h
  have hbegins := beginsString_of_readString hr
  rw [headOf]
  generalize skipIgnored text = cs at hbegins
  cases hbegins <;> rfl

theorem refuses_string (h : headOf text ≠ some '"') : Refuses (lexeme readString) text :=
  refuses_of_not_begins (mt headOf_of_string h)

theorem takesOn_described_splits (hnext : IsNext next) {f g : Option String → Reader β}
    (hf : ∀ d, TakesOn next (f d) (g d) after before) (hb : ∀ t, before t → headOf t ≠ some '"') :
    TakesOn next (description >>= f) (description >>= g) after
      (fun t => (headOf t = some '"' ∨ before t) ∧ Splits description before t) where
  toGoesOn := by
    have hstring := goesOn_lexeme settled_readString hnext
    refine ((hstring.optional (fun _ _ => trivial) fun t ht => refuses_string (hb t ht)).bind_splits
      (fun d => (hf d).toGoesOn) fun _ h => h).mono (fun _ h => h) fun t h => ⟨?_, h.2⟩
    exact h.1.imp headOf_of_string id
  takes := Takes.bind_right (advances_lexeme settled_readString).optional (fun d => (hf d).takes)
    fun d => (hf d).advances

theorem takesOn_described (hnext : IsNext next) {f g : Option String → Reader β}
    (hf : ∀ d, TakesOn next (f d) (g d) after before) (hb : ∀ t, before t → headOf t ≠ some '"') :
    TakesOn next (description >>= f) (description >>= g) after
      (fun t => headOf t = some '"' ∨ before t) :=
  (takesOn_described_splits hnext hf hb).weaken fun _ h => h.1

theorem refuses_described {f : Option String → Reader β} (h : headOf text ≠ some '"')
    (hf : Refuses (f none) text) : Refuses (description >>= f) text := by
  intro offset faults
  have hnone := (refuses_string h).optional offset faults
  rw [List.nil_append] at hnone
  rw [result_bind, description, hnone, Option.bind_some]
  exact hf _ _

def Cursor.past (c : Cursor) (rest : List Char) : Cursor :=
  { c with
    rest := rest
    offset := c.offset + (c.rest.length - (skipIgnored c.rest).length) +
      ((skipIgnored c.rest).length - rest.length) }

def numberInRange : Reader Json := do
  let l ← lexeme number.readNumberText
  match l.1.value? with
  | some n => pure (Json.ofNumeral n)
  | none => firstOf []

theorem result_numberInRange (c : Cursor) : (numberInRange c).result =
    (number.readNumberText (skipIgnored c.rest)).bind fun r =>
      r.1.1.value?.map fun n => (Json.ofNumeral n, c.past r.2) := by
  rw [numberInRange, result_bind, result_lexeme]
  cases number.readNumberText (skipIgnored c.rest) with
  | none => rfl
  | some r =>
    simp only [Option.map_some, Option.bind_some]
    cases r.1.1.value? <;> rfl

theorem result_number (c : Cursor) : (number c).result =
    (number.readNumberText (skipIgnored c.rest)).bind fun r =>
      match r.1.1.value? with
      | some n => some (Json.ofNumeral n, c.past r.2)
      | none => some (.int 0, { c.past r.2 with
          faults := (c.offset + (c.rest.length - (skipIgnored c.rest).length),
            .invalidNumber r.1.2) :: c.faults }) := by
  rw [number, result_bind, lexemeAt]
  cases number.readNumberText (skipIgnored c.rest) with
  | none => rfl
  | some r =>
    simp only [Option.bind_some]
    cases r.1.1.value? <;> rfl

theorem reads_number {a : Json} {rest : List Char} (h : Reads numberInRange text a rest) :
    Reads number text a rest := by
  intro offset faults
  have hr := h offset faults
  rw [result_numberInRange, Option.bind_eq_some_iff] at hr
  obtain ⟨r, hread, hr⟩ := hr
  obtain ⟨n, hn, heq⟩ := Option.map_eq_some_iff.mp hr
  rw [result_number, hread, Option.bind_some, hn]
  exact congrArg some heq

theorem takesOn_numberInRange (hnext : IsNext next) :
    TakesOn next numberInRange numberInRange (fun _ => True) (Begins number.readNumberText) := by
  have hvalue : ∀ l : NumberLiteral × Nat, GoesOn next
      (match l.1.value? with
        | some n => pure (Json.ofNumeral n)
        | none => firstOf [])
      (match l.1.value? with
        | some n => pure (Json.ofNumeral n)
        | none => firstOf []) (fun _ => True) (fun _ => True) := by
    intro l
    cases l.1.value? with
    | none => exact (takesOn_none ..).toGoesOn
    | some n => exact goesOn_pure _ _
  exact takesOn_lexeme_bind settled_readNumberText hnext hvalue

theorem lexeme_of_number {c d : Cursor} {a : Json} (h : (number c).result = some (a, d)) :
    ∃ l, (lexeme number.readNumberText c).result = some (l, c.past d.rest) ∧
      c.faults <:+ d.faults ∧
        (d.faults = c.faults → (numberInRange c).result = some (a, d)) := by
  rw [result_number, Option.bind_eq_some_iff] at h
  obtain ⟨r, hread, h⟩ := h
  rw [result_lexeme, result_numberInRange, hread]
  cases hvalue : r.1.1.value? with
  | none =>
    rw [hvalue] at h
    cases h
    refine ⟨r.1, rfl, List.suffix_cons _ _, fun hfaults => ?_⟩
    exact absurd (congrArg List.length hfaults) (Nat.succ_ne_self _)
  | some n =>
    rw [hvalue] at h
    cases h
    exact ⟨r.1, rfl, List.suffix_rfl, fun _ => by simp [hvalue]⟩

theorem takesOn_number (hnext : IsNext next) :
    TakesOn next number number (fun _ => True) (Begins number.readNumberText) := by
  refine ⟨(takesOn_numberInRange hnext).congr (fun c a d h => ?_) (fun h => ?_) reads_number,
    fun c a d h => ?_⟩
  · obtain ⟨l, hl, hfaults, -⟩ := lexeme_of_number h
    exact ⟨(advances_lexeme settled_readNumberText hl).1, hfaults⟩
  · obtain ⟨l, hl, -, hsame⟩ := lexeme_of_number h
    exact hsame
  · obtain ⟨l, hl, -, -⟩ := lexeme_of_number h
    exact fun hsame => takes_lexeme settled_readNumberText hl hsame

theorem readNumberText_cons {rest : List Char} (hminus : c ≠ '-') (hdigit : c.isDigit = false) :
    number.readNumberText (c :: rest) = none := by
  have hzero : c ≠ '0' := by
    rintro rfl
    cases hdigit
  have hsign : NumberLiteral.signPart (c :: rest) = (false, c :: rest) := by
    simp [NumberLiteral.signPart, hminus]
  have hwhole : (NumberLiteral.wholePart (c :: rest)).1 = [] := by
    simp [NumberLiteral.wholePart, hzero, hdigit]
  rw [number.readNumberText, readNumber, NumberLiteral.read?_eq, hsign]
  simp [hwhole]

theorem isDigit_of_isNameStart (h : isNameStart c = true) : c.isDigit = false := by
  rw [isNameStart, Bool.or_eq_true, decide_eq_true_eq] at h
  rcases h with h | rfl
  · rw [Bool.eq_false_iff]
    intro hdigit
    have halpha : c.isAlpha = (decide (c.val ≥ 'A'.val ∧ c.val ≤ 'Z'.val) ||
      (c.val ≥ 'a'.val && c.val ≤ 'z'.val)) := rfl
    simp only [halpha, Char.isDigit, Bool.or_eq_true, Bool.and_eq_true, decide_eq_true_eq,
      UInt32.le_iff_toNat_le] at h hdigit
    simp at h hdigit
    omega
  · rfl

theorem refuses_number (hc : headOf text = some c) (hminus : c ≠ '-') (hdigit : c.isDigit = false) :
    Refuses number text := by
  intro offset faults
  obtain ⟨rest, hskip⟩ := skipIgnored_of_headOf hc
  rw [result_number, hskip, readNumberText_cons hminus hdigit]
  rfl

theorem not_at_of_enumValue {w : String} (h : Begins readEnumValue text)
    (hw : w ∈ ["true", "false", "null"]) : ¬ At w text := by
  intro hat
  have hsome : (readWord w.toList (skipIgnored text)).isSome = true :=
    Option.isSome_iff_ne_none.mpr hat
  apply h
  simp only [List.mem_cons, List.not_mem_nil, or_false] at hw
  rw [readEnumValue]
  rcases hw with rfl | rfl | rfl <;> simp only [hsome, Bool.true_or, Bool.or_true, if_true]

/-- No constant begins with a closing bracket. -/
theorem refuses_constantWithin (h : headOf text = some ']') (n : Nat) :
    Refuses (constantWithin n) text := by
  obtain ⟨rest, hskip⟩ := skipIgnored_of_headOf h
  have hlexeme : ∀ {γ : Type} {read : List Char → Option (γ × List Char)},
      read (']' :: rest) = none → Refuses (lexeme read) text := fun hread =>
    refuses_lexeme (by rw [hskip, hread])
  cases n with
  | zero => exact fun _ _ => rfl
  | succ n =>
    refine refuses_firstOf ?_
    simp only [List.forall_mem_cons, List.not_mem_nil, false_imp_iff, implies_true, and_true]
    refine ⟨refuses_number h (by decide) rfl, ?_, ?_, ?_, ?_, ?_, ?_, ?_⟩
    all_goals exact (hlexeme rfl).bind

theorem takesOn_closing {w : String} (hnext : IsNext next) (hw : w.toList ≠ [] ∧ IsPlain w.toList)
    (a : α) : TakesOn next (do word w; return a) (do word w; return a) (fun _ => True) (At w) :=
  takesOn_word_bind hw hnext fun _ => goesOn_pure a _

theorem takesOn_named {p q : Reader α} (hnext : IsNext next)
    (h : TakesOn next p q (fun _ => True) (fun _ => True)) :
    TakesOn next (do let n ← name; word ":"; let v ← p; return (n, v))
      (do let n ← name; word ":"; let v ← q; return (n, v)) (fun _ => True) (Begins readName) :=
  takesOn_lexeme_bind settled_readName hnext fun n => (takesOn_word_bind (by decide) hnext fun _ =>
    (h.bind (fun v => goesOn_pure (n, v) _) fun _ _ => trivial).toGoesOn).toGoesOn

def listWithin (depth : Nat) : Reader Json := do
  word "["
  let items ← many (constantWithin depth)
  word "]"
  return .list items

def objectWithin (depth : Nat) : Reader Json := do
  word "\x7b"
  let members ← many do
    let n ← name
    word ":"
    let v ← constantWithin depth
    return (n, v)
  word "\x7d"
  return .object members

def wordConstants : List (Reader Json) := [
  do
    word "true"
    return .bool true,
  do
    word "false"
    return .bool false,
  do
    word "null"
    return .null,
  do
    let s ← lexeme readEnumValue
    return .str s]

theorem constantWithin_succ (depth : Nat) : constantWithin (depth + 1) =
    firstOf (number :: (do let s ← lexeme readString; return .str s) ::
      (wordConstants ++ [listWithin depth, objectWithin depth])) := rfl

def AtBracket (text : List Char) : Prop := headOf text = some '[' ∨ headOf text = some '\x7b'

/-- A constant begins that is neither a number nor a string. -/
def BeginsOther (text : List Char) : Prop :=
  AtBracket text ∨ ∃ c, headOf text = some c ∧ isNameStart c = true

theorem headOf_of_beginsOther (h : BeginsOther text) :
    ∃ c, headOf text = some c ∧ c ≠ '"' ∧ c ≠ '-' ∧ c.isDigit = false := by
  rcases h with (h | h) | ⟨c, h, hc⟩
  · exact ⟨_, h, by decide⟩
  · exact ⟨_, h, by decide⟩
  · refine ⟨c, h, ?_, ?_, isDigit_of_isNameStart hc⟩ <;> rintro rfl <;> cases hc

theorem beginsOther_of_at {w : String} (h : At w text) (hw : w.toList.head? = some c)
    (hc : isNameStart c = true) : BeginsOther text := .inr ⟨c, h.headOf hw, hc⟩

theorem not_at_of_atBracket {w : String} (h : AtBracket text) (hw : w.toList.head? = some c)
    (hc : isNameStart c = true) : ¬ At w text := by
  intro hat
  rcases h with h | h <;> cases (hat.headOf hw).symm.trans h <;> cases hc

/-- Lists and objects go on as the constants in them do. -/
theorem takesOn_brackets (hnext : IsNext next) {n n' : Nat}
    (hitem : TakesOn next (constantWithin n) (constantWithin n') (fun _ => True) fun _ => True) :
    TakesOn next (firstOf [listWithin n, objectWithin n])
      (firstOf [listWithin n', objectWithin n']) (fun _ => True) AtBracket := by
  have hitems := hitem.many (fun _ _ => trivial) (fun _ _ => trivial) fun t (h : At "]" t) =>
    refuses_constantWithin (h.headOf rfl) _
  have hmembers := (takesOn_named hnext hitem).many (fun _ _ => trivial) (fun _ _ => trivial)
    fun t (h : At "\x7d" t) => (refuses_of_not_begins (not_begins_name (h.headOf rfl) rfl)).bind
  have hlist : TakesOn next (listWithin n) (listWithin n') (fun _ => True) (At "[") :=
    takesOn_word_bind (by decide) hnext fun _ =>
      hitems.then fun items => (takesOn_closing hnext (by decide) (Json.list items)).toGoesOn
  have hobject : TakesOn next (objectWithin n) (objectWithin n') (fun _ => True) (At "\x7b") :=
    takesOn_word_bind (by decide) hnext fun _ =>
      hmembers.then fun ms => (takesOn_closing hnext (by decide) (Json.object ms)).toGoesOn
  exact (hlist.first hobject.last fun t h => (refuses_word (h.not_at rfl rfl)).bind).weaken
    fun t h => h.imp (·.headOf rfl) (·.headOf rfl)

/-- Words are told apart from each other and from what begins with a bracket. -/
theorem takesOn_wordConstants {ps qs : List (Reader Json)} (hnext : IsNext next)
    (hps : TakesOn next (firstOf ps) (firstOf qs) (fun _ => True) AtBracket) :
    TakesOn next (firstOf (wordConstants ++ ps)) (firstOf (wordConstants ++ qs)) (fun _ => True)
      BeginsOther := by
  have hkeyword : ∀ {w : String}, w.toList ≠ [] ∧ IsPlain w.toList → ∀ v : Json,
      TakesOn next (do word w; return v) (do word w; return v) (fun _ => True) (At w) :=
    fun hw v => takesOn_closing hnext hw v
  have henum := takesOn_lexeme_bind settled_readEnumValue hnext fun s =>
    goesOn_pure (Json.str s) (fun _ => True)
  have hnames := henum.first hps fun t h => (refuses_of_not_begins (h.elim
    (not_begins_enumValue · rfl) (not_begins_enumValue · rfl))).bind
  have hnull := (hkeyword (w := "null") (by decide) .null).first hnames fun t h =>
    (refuses_word (h.elim (not_at_of_enumValue · (by decide))
      (not_at_of_atBracket · rfl rfl))).bind
  have hfalse := (hkeyword (w := "false") (by decide) (.bool false)).first hnull fun t h =>
    (refuses_word (h.elim (·.not_at rfl rfl) fun h => h.elim
      (not_at_of_enumValue · (by decide)) (not_at_of_atBracket · rfl rfl))).bind
  have htrue := (hkeyword (w := "true") (by decide) (.bool true)).first hfalse fun t h =>
    (refuses_word (h.elim (·.not_at rfl rfl) fun h => h.elim (·.not_at rfl rfl) fun h => h.elim
      (not_at_of_enumValue · (by decide)) (not_at_of_atBracket · rfl rfl))).bind
  refine htrue.weaken fun t h => ?_
  rcases h with h | h | h | h | h
  · exact beginsOther_of_at h rfl rfl
  · exact beginsOther_of_at h rfl rfl
  · exact beginsOther_of_at h rfl rfl
  · exact .inr (exists_headOf_of_name (begins_name_of_enumValue h))
  · exact .inl h

theorem takesOn_constantWithin (hnext : IsNext next) {n n' : Nat} (hle : n ≤ n') :
    TakesOn next (constantWithin n) (constantWithin n') (fun _ => True) (fun _ => True) := by
  induction n generalizing n' with
  | zero => exact takesOn_none ..
  | succ n ih =>
    obtain ⟨m, rfl⟩ := Nat.exists_eq_add_of_le' hle
    have hothers := takesOn_wordConstants hnext
      (takesOn_brackets hnext (ih (Nat.le_add_left n m)))
    have hstring := takesOn_lexeme_bind settled_readString hnext fun s =>
      goesOn_pure (Json.str s) (fun _ => True)
    rw [constantWithin_succ, ← Nat.add_assoc, constantWithin_succ]
    -- What a choice begins with is refused by all choices before it.
    have htext := hstring.first hothers fun t h => by
      obtain ⟨c, hc, hquote, -, -⟩ := headOf_of_beginsOther h
      refine (refuses_string ?_).bind
      rw [hc]
      exact fun heq => hquote (Option.some.inj heq)
    refine ((takesOn_number hnext).first htext ?_).weaken fun _ _ => trivial
    rintro t (h | h)
    · exact refuses_number (headOf_of_string h) (by decide) rfl
    · obtain ⟨c, hc, -, hminus, hdigit⟩ := headOf_of_beginsOther h
      exact refuses_number hc hminus hdigit

theorem takesOn_constant (hnext : IsNext next) :
    TakesOn next constant constant (fun _ => True) (fun _ => True) where
  advances c a d h := (takesOn_constantWithin hnext (Nat.le_refl _)).advances h
  takes c a d h := (takesOn_constantWithin hnext (Nat.le_refl _)).takes h
  reads {c a d} h hfaults hapart hrest := by
    have hle : c.rest.length + 1 ≤ (c.rest ++ next).length + 1 := by
      rw [List.length_append]
      omega
    obtain ⟨text, htext, hreads, -⟩ :=
      (takesOn_constantWithin hnext hle).reads h hfaults hapart hrest
    refine ⟨text, htext, fun offset faults => ?_, trivial⟩
    rw [htext, List.append_assoc] at hreads
    exact hreads offset faults

section Parts

variable {stop : List Char → Prop}

theorem refuses_named {f : String → Reader β} (h : headOf text = some c)
    (hc : isNameStart c = false) : Refuses (name >>= f) text :=
  (refuses_of_not_begins (not_begins_name h hc)).bind

theorem takesOn_directiveUse (hnext : IsNext next) :
    TakesOn next directiveUse directiveUse (Avoids ['(']) (At "@") := by
  have hargs := (takesOn_named hnext (takesOn_constant hnext)).many1 (fun _ _ => trivial)
    (fun _ _ => trivial) fun t (h : At ")" t) => refuses_named (h.headOf rfl) rfl
  have hbraces := takesOn_word_bind (w := "(") (by decide) hnext fun _ => (hargs.bind
    (fun args => (takesOn_closing (w := ")") hnext (by decide) args).toGoesOn) fun _ h => h).toGoesOn
  exact takesOn_word_bind (by decide) hnext fun _ => (takesOn_lexeme_bind settled_readName hnext
    fun n => (hbraces.optional (fun _ _ => trivial) fun t (h : Avoids ['('] t) =>
      (refuses_word (not_at_of_avoids h rfl (by decide))).bind).map _).toGoesOn

theorem takesOn_directives (hnext : IsNext next) (hstop : ∀ t, stop t → Avoids ['(', '@'] t) :
    TakesOn next directives directives stop (At "@") :=
  (takesOn_directiveUse hnext).many1 (fun t h => avoids_of_headOf (h.headOf rfl) (by decide))
    (fun t h => (hstop t h).subset (by decide))
    fun t h => (refuses_word (not_at_of_avoids (hstop t h) rfl (by decide))).bind

theorem goesOn_optionalDirectives (hnext : IsNext next)
    (hstop : ∀ t, stop t → Avoids ['(', '@'] t) :
    GoesOn next optionalDirectives optionalDirectives stop (fun t => At "@" t ∨ stop t) := by
  have h := (takesOn_directives hnext hstop).optional (fun _ h => h) fun t h =>
    (refuses_word (not_at_of_avoids (hstop t h) rfl (by decide))).bind.bind
  exact h.map fun uses => uses.getD []

/-- The characters that some part of a definition begins with, after which it may go on. -/
def openers : List Char := ['(', '@', '\x7b', '=', '|', '&']

/-- An item in braces begins: with its description or with its name. -/
def BeginsItem (text : List Char) : Prop := headOf text = some '"' ∨ Begins readName text

theorem avoids_of_beginsItem (h : BeginsItem text) : Avoids openers text :=
  h.elim (avoids_of_headOf · (by decide)) (avoids_of_name · rfl)

theorem not_beginsItem_of_headOf (h : headOf text = some c) (hc : isNameStart c = false)
    (hquote : c ≠ '"') : ¬ BeginsItem text := by
  rintro (hs | hn)
  · exact hquote (Option.some.inj (h.symm.trans hs))
  · exact not_begins_name h hc hn

theorem headOf_ne_quote_of_name (h : Begins readName text) : headOf text ≠ some '"' := by
  intro hquote
  exact not_begins_name hquote rfl h

theorem takesOn_inputField (hnext : IsNext next) :
    TakesOn next inputField inputField (Avoids openers) BeginsItem := by
  have hdirectives := goesOn_optionalDirectives hnext fun t (h : Avoids openers t) =>
    h.subset (by decide)
  have hconstant : TakesOn next (do word "="; constant) (do word "="; constant) (fun _ => True)
      (At "=") := takesOn_word_bind (by decide) hnext fun _ => (takesOn_constant hnext).toGoesOn
  have hdefault := hconstant.optional (fun _ _ => trivial)
    fun t (h : At "@" t ∨ Avoids openers t) => (refuses_word (h.elim (·.not_at rfl rfl)
      (not_at_of_avoids · rfl (by decide)))).bind
  exact takesOn_described hnext (fun d => takesOn_lexeme_bind settled_readName hnext fun n =>
    (takesOn_word_bind (by decide) hnext fun _ => (takesOn_lexeme_bind settled_readTypeRef hnext
      fun t => hdefault.then fun default =>
        hdirectives.map _).toGoesOn).toGoesOn) fun t h => headOf_ne_quote_of_name h

theorem refuses_inputField (h : ¬ BeginsItem text) : Refuses inputField text :=
  refuses_described (fun hq => h (.inl hq)) (refuses_of_not_begins fun hn => h (.inr hn)).bind

theorem takesOn_arguments (hnext : IsNext next) :
    TakesOn next arguments arguments (fun _ => True) (At "(") := by
  have hfields := (takesOn_inputField hnext).many1 (fun t h => avoids_of_beginsItem h)
    (fun t (h : At ")" t) => avoids_of_headOf (h.headOf rfl) (by decide))
    fun t h => refuses_inputField (not_beginsItem_of_headOf (h.headOf rfl) rfl (by decide))
  exact takesOn_word_bind (by decide) hnext fun _ =>
    (hfields.then fun fs => (takesOn_closing hnext (by decide) _).toGoesOn).toGoesOn

theorem goesOn_optionalArguments (hnext : IsNext next) (hstop : ∀ t, stop t → ¬ At "(" t) :
    GoesOn next optionalArguments optionalArguments stop (fun t => At "(" t ∨ stop t) :=
  ((takesOn_arguments hnext).optional (fun _ _ => trivial) fun t h =>
    (refuses_word (hstop t h)).bind).map fun args => args.getD []

theorem takesOn_field (hnext : IsNext next) :
    TakesOn next field field (Avoids openers) BeginsItem := by
  have hdirectives := goesOn_optionalDirectives hnext fun t (h : Avoids openers t) =>
    h.subset (by decide)
  have hargs := goesOn_optionalArguments hnext fun t (h : At ":" t) => h.not_at rfl rfl
  exact takesOn_described hnext (fun d => takesOn_lexeme_bind settled_readName hnext fun n =>
    hargs.then fun args => (takesOn_word_bind (by decide) hnext fun _ =>
      (takesOn_lexeme_bind settled_readTypeRef hnext fun t => hdirectives.map _).toGoesOn).toGoesOn)
    fun t h => headOf_ne_quote_of_name h

theorem refuses_field (h : ¬ BeginsItem text) : Refuses field text :=
  refuses_described (fun hq => h (.inl hq)) (refuses_of_not_begins fun hn => h (.inr hn)).bind

theorem takesOn_enumValue (hnext : IsNext next) :
    TakesOn next enumValue enumValue (Avoids openers) BeginsItem := by
  have hdirectives := goesOn_optionalDirectives hnext fun t (h : Avoids openers t) =>
    h.subset (by decide)
  refine (takesOn_described hnext (fun d => takesOn_lexeme_bind settled_readEnumValue hnext fun n =>
    hdirectives.map _) fun t h =>
      headOf_ne_quote_of_name (begins_name_of_enumValue h)).weaken ?_
  rintro t (h | h)
  · exact .inl h
  · exact .inr (begins_name_of_enumValue h)

theorem refuses_enumValue (h : ¬ BeginsItem text) : Refuses enumValue text :=
  refuses_described (fun hq => h (.inl hq))
    (refuses_of_not_begins fun hn => h (.inr (begins_name_of_enumValue hn))).bind

theorem takesOn_braced {p : Reader α} (hnext : IsNext next)
    (hp : TakesOn next p p (Avoids openers) BeginsItem)
    (hend : ∀ {t}, ¬ BeginsItem t → Refuses p t) :
    TakesOn next (braced p) (braced p) (fun _ => True) (At "\x7b") := by
  have hitems := hp.many1 (fun t h => avoids_of_beginsItem h)
    (fun t (h : At "\x7d" t) => avoids_of_headOf (h.headOf rfl) (by decide))
    fun t h => hend (not_beginsItem_of_headOf (h.headOf rfl) rfl (by decide))
  exact takesOn_word_bind (by decide) hnext fun _ =>
    (hitems.then fun items => (takesOn_closing hnext (by decide) items).toGoesOn).toGoesOn

theorem takesOn_fields (hnext : IsNext next) :
    TakesOn next fields fields (fun _ => True) (At "\x7b") :=
  (takesOn_braced hnext (takesOn_field hnext) refuses_field).map fun fs => byName FieldDef.name fs

theorem takesOn_inputFields (hnext : IsNext next) :
    TakesOn next inputFields inputFields (fun _ => True) (At "\x7b") :=
  (takesOn_braced hnext (takesOn_inputField hnext) refuses_inputField).map fun fs =>
    byName InputField.name fs

theorem takesOn_enumValues (hnext : IsNext next) :
    TakesOn next enumValues enumValues (fun _ => True) (At "\x7b") :=
  takesOn_braced hnext (takesOn_enumValue hnext) refuses_enumValue

/-- Items with a sign between them, which may also stand in front. -/
def separatedBy (sign : String) (p : Reader α) : Reader (List α) := do
  let _ ← optional (word sign)
  let first ← p
  let rest ← many do
    word sign
    p
  return first :: rest

/-- Items are told apart from the sign between them. -/
theorem goesOn_separatedBy {p : Reader α} {sign : String} (hnext : IsNext next)
    (hsign : sign.toList ≠ [] ∧ IsPlain sign.toList)
    (hp : TakesOn next p p (fun _ => True) before) (hbefore : ∀ t, before t → ¬ At sign t) :
    GoesOn next (separatedBy sign p) (separatedBy sign p) (fun t => ¬ At sign t)
      (fun t => At sign t ∨ before t) := by
  have hmore : TakesOn next (do word sign; p) (do word sign; p) (fun _ => True) (At sign) :=
    takesOn_word_bind hsign hnext fun _ => hp.toGoesOn
  have hmany := hmore.many (fun _ _ => trivial) (fun _ _ => trivial)
    fun t (h : ¬ At sign t) => (refuses_word h).bind
  have hfirst := (takesOn_lexeme (settled_readWord hsign.1 hsign.2) hnext).optional
    (fun _ _ => trivial) fun t (h : before t) => refuses_word (hbefore t h)
  exact hfirst.then fun _ => (hp.bind (fun first => hmany.map _) fun _ _ => trivial).toGoesOn

end Parts

end Sdl

end SchemaAssembly
