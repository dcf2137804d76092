import SchemaAssembly.Json.Text
import SchemaAssembly.Proofs.Number.NumeralText

/-!
The compact text of a JSON value determines the value. Numbers are told apart by their digits,
strings are framed by their quotes, and the first character gives the kind of a value.
-/

set_option autoImplicit false

namespace SchemaAssembly

def hexDigitValue (c : Char) : Nat := if c.isDigit then c.toNat - 48 else c.toNat - 87

def readEscaped : List Char → Option (Char × List Char)
  | '\\' :: 'u' :: '0' :: '0' :: a :: b :: rest =>
    some (Char.ofNat (16 * hexDigitValue a + hexDigitValue b), rest)
  | '\\' :: c :: rest =>
    some (if c = 'n' then '\n' else if c = 'r' then '\r' else if c = 't' then '\t'
      else if c = 'b' then '\x08' else if c = 'f' then '\x0c' else c, rest)
  | '"' :: _ => none
  | c :: rest => some (c, rest)
  | [] => none

theorem hex4_control : ∀ n : Fin 32,
    hex4 n = ['0', '0', Nat.digitChar (n / 16), Nat.digitChar (n % 16)] := by decide

theorem hexDigitValue_control : ∀ n : Fin 32,
    16 * hexDigitValue (Nat.digitChar (n / 16)) + hexDigitValue (Nat.digitChar (n % 16)) = n := by
  decide

/-- An escaped character is read without touching what follows. -/
theorem readEscaped_escapeChar (c : Char) (rest : List Char) :
    readEscaped (escapeChar c ++ rest) = some (c, rest) := by
  unfold escapeChar
  split
  · subst c; rfl
  split
  · subst c; rfl
  split
  · subst c; rfl
  split
  · subst c; rfl
  split
  · subst c; rfl
  split
  · subst c; rfl
  split
  · subst c; rfl
  split
  · rename_i h
    have hh := hex4_control ⟨c.toNat, h⟩
    have hv := hexDigitValue_control ⟨c.toNat, h⟩
    dsimp only at hh hv
    rw [hh]
    simp only [List.cons_append, List.nil_append, readEscaped, hv, Char.ofNat_toNat]
  · rename_i hq hb _ _ _ _ _ _
    simp only [List.cons_append, List.nil_append]
    unfold readEscaped
    split <;> simp_all

theorem escaped_cancel {cs ds r s : List Char}
    (h : cs.flatMap escapeChar ++ '"' :: r = ds.flatMap escapeChar ++ '"' :: s) :
    cs = ds ∧ r = s := by
  induction cs generalizing ds with
  | nil =>
    cases ds with
    | nil => simpa using h
    | cons d ds =>
      have hr := congrArg readEscaped h
      rw [List.flatMap_cons, List.append_assoc, readEscaped_escapeChar] at hr
      cases hr
  | cons c cs ih =>
    cases ds with
    | nil =>
      have hr := congrArg readEscaped h
      rw [List.flatMap_cons, List.append_assoc, readEscaped_escapeChar] at hr
      cases hr
    | cons d ds =>
      have hr := congrArg readEscaped h
      simp only [List.flatMap_cons, List.append_assoc, readEscaped_escapeChar, Option.some.injEq,
        Prod.mk.injEq] at hr
      obtain ⟨rfl, htail⟩ := hr
      obtain ⟨rfl, hrest⟩ := ih htail
      exact ⟨rfl, hrest⟩

theorem quoted_cancel {a b : String} {r s : List Char}
    (h : (quoted a).toList ++ r = (quoted b).toList ++ s) : a = b ∧ r = s := by
  simp only [quoted, quoteChars, String.toList_ofList, List.cons_append, List.append_assoc,
    List.nil_append, List.cons.injEq, true_and] at h
  obtain ⟨hl, hr⟩ := escaped_cancel h
  exact ⟨String.toList_injective hl, hr⟩

theorem quoted_ne_close {n : String} {r s : List Char} : (quoted n).toList ++ r ≠ '\x7d' :: s := by
  rw [quoted, String.toList_ofList]
  simp [quoteChars]

/-- What may follow a number. -/
def EndsNumeral (r : List Char) : Prop := ∀ c ∈ r.head?, isNumeral c = false

theorem endsNumeral_nil : EndsNumeral [] := by simp [EndsNumeral]

theorem endsNumeral_cons {c : Char} (h : isNumeral c = false) (r : List Char) :
    EndsNumeral (c :: r) := by simpa [EndsNumeral] using h

theorem numeral_cancel {p q r s : List Char} (hp : AllNumeral p) (hq : AllNumeral q)
    (hr : EndsNumeral r) (hs : EndsNumeral s) (h : p ++ r = q ++ s) : p = q ∧ r = s := by
  have prefixOf {l t : List Char} (hl : AllNumeral l) (ht : EndsNumeral t) :
      (l ++ t).takeWhile isNumeral = l := by
    rw [List.takeWhile_append_of_pos hl]
    cases t with
    | nil => simp
    | cons c t => simp [ht c (by simp)]
  have hpq : p = q := by rw [← prefixOf hp hr, h, prefixOf hq hs]
  subst hpq
  exact ⟨rfl, List.append_cancel_left h⟩

namespace Json

/-- The kinds of values that first characters tell apart; integers and floats are one kind. -/
def kind : Json → Nat
  | .null => 0
  | .bool _ => 1
  | .int _ | .float _ => 2
  | .str _ => 3
  | .list _ => 4
  | .obj _ => 5

/-- The kind of the values whose texts start with a character; none has kind six. -/
def kindOfHead (c : Char) : Nat :=
  if c = 'n' then 0 else if c = 't' ∨ c = 'f' then 1 else if c.isDigit ∨ c = '-' then 2
  else if c = '"' then 3 else if c = '[' then 4 else if c = '\x7b' then 5 else 6

theorem kind_lt (v : Json) : v.kind < 6 := by cases v <;> simp [kind]

theorem kindOfHead_digit {c : Char} (h : c.isDigit = true) : kindOfHead c = 2 := by
  have hne (d : Char) (hd : d.isDigit = false) : c ≠ d := by
    rintro rfl
    rw [hd] at h
    cases h
  simp [kindOfHead, h, hne 'n' rfl, hne 't' rfl, hne 'f' rfl]

theorem head_sign {c : Char} (h : c.isDigit = true) (negative : Bool) (rest : List Char) :
    ∃ d tail, (if negative then ['-'] else []) ++ c :: rest = d :: tail ∧ kindOfHead d = 2 := by
  cases negative with
  | false => exact ⟨c, rest, rfl, kindOfHead_digit h⟩
  | true => exact ⟨'-', c :: rest, rfl, rfl⟩

theorem list_toList (items : List Json) :
    (text (.list items)).toList = '[' :: ((itemsText items).toList ++ [']']) := by
  simp [text]

theorem obj_toList (members : List (String × Json)) :
    (text (.obj members)).toList = '\x7b' :: ((membersText members).toList ++ ['\x7d']) := by
  simp [text]

theorem head_text (v : Json) :
    ∃ c rest, (text v).toList = c :: rest ∧ kindOfHead c = v.kind := by
  cases v with
  | null => exact ⟨'n', _, rfl, rfl⟩
  | bool b => cases b <;> exact ⟨_, _, rfl, rfl⟩
  | int n =>
    obtain ⟨c, rest, hc, dc⟩ := head_append_of_digits (allDigits_toDigits n.natAbs)
      Nat.toDigits_ne_nil []
    rw [List.append_nil] at hc
    rw [text, intText_toList, hc]
    exact head_sign dc _ _
  | float x =>
    obtain ⟨c, rest, hl, hc, -⟩ := Layout.json.text_numeral x
    rw [text, hl]
    exact head_sign hc _ _
  | str s => exact ⟨'"', _, String.toList_ofList, rfl⟩
  | list items => exact ⟨'[', _, list_toList items, rfl⟩
  | obj members => exact ⟨'\x7b', _, obj_toList members, rfl⟩

theorem kind_of_text {a b : Json} {r s : List Char}
    (h : (text a).toList ++ r = (text b).toList ++ s) : a.kind = b.kind := by
  obtain ⟨c, rest, ha, hc⟩ := head_text a
  obtain ⟨d, rest', hb, hd⟩ := head_text b
  rw [ha, hb, List.cons_append, List.cons_append, List.cons.injEq] at h
  rw [← hc, ← hd, h.1]

theorem number_cases {v : Json} (h : v.kind = 2) : (∃ n, v = .int n) ∨ ∃ x, v = .float x := by
  cases v <;> simp [kind] at h ⊢

theorem allNumeral_number {v : Json} (h : v.kind = 2) : AllNumeral (text v).toList := by
  rcases number_cases h with ⟨n, rfl⟩ | ⟨x, rfl⟩
  · exact allNumeral_intText n
  · exact Layout.json.allNumeral_text x

theorem intText_ne_floatText (n : Int) (x : Binary64) : text (.int n) ≠ text (.float x) := by
  intro h
  have hx : HasMark (text (.float x)).toList := Layout.hasMark_text rfl x
  rw [← h] at hx
  exact not_hasMark_intText n hx

theorem number_injective {a b : Json} (ha : a.kind = 2) (hb : b.kind = 2)
    (h : text a = text b) : a = b := by
  rcases number_cases ha with ⟨m, rfl⟩ | ⟨x, rfl⟩ <;> rcases number_cases hb with ⟨n, rfl⟩ | ⟨y, rfl⟩
  · exact congrArg Json.int (intText_injective h)
  · exact absurd h (intText_ne_floatText m y)
  · exact absurd h.symm (intText_ne_floatText n x)
  · exact congrArg Json.float (@Layout.text_injective .json x y h)

def itemsTail : List Json → List Char
  | [] => []
  | v :: rest => ',' :: (itemsText (v :: rest)).toList

theorem itemsText_cons (v : Json) (rest : List Json) :
    (itemsText (v :: rest)).toList = (text v).toList ++ itemsTail rest := by
  cases rest <;> simp [itemsText, itemsTail]

def membersTail : List (String × Json) → List Char
  | [] => []
  | m :: rest => ',' :: (membersText (m :: rest)).toList

theorem membersText_cons (n : String) (v : Json) (rest : List (String × Json)) :
    (membersText ((n, v) :: rest)).toList =
      (quoted n).toList ++ ':' :: ((text v).toList ++ membersTail rest) := by
  cases rest <;> simp [membersText, membersTail]

theorem endsNumeral_itemsTail (rest : List Json) (r : List Char) :
    EndsNumeral (itemsTail rest ++ ']' :: r) := by
  cases rest with
  | nil => exact endsNumeral_cons rfl r
  | cons v rest => exact endsNumeral_cons rfl _

theorem endsNumeral_membersTail (rest : List (String × Json)) (r : List Char) :
    EndsNumeral (membersTail rest ++ '\x7d' :: r) := by
  cases rest with
  | nil => exact endsNumeral_cons rfl r
  | cons v rest => exact endsNumeral_cons rfl _

theorem text_ne_close {v : Json} {c : Char} (hc : kindOfHead c = 6) {r s : List Char} :
    (text v).toList ++ r ≠ c :: s := by
  intro h
  obtain ⟨d, rest, ht, hd⟩ := head_text v
  rw [ht, List.cons_append, List.cons.injEq] at h
  have hk := kind_lt v
  rw [← hd, h.1, hc] at hk
  omega

/-- The text of a value tells where it ends and which value it is. -/
def Framed (a : Json) : Prop :=
  ∀ (b : Json) (r s : List Char), EndsNumeral r → EndsNumeral s →
    (text a).toList ++ r = (text b).toList ++ s → a = b ∧ r = s

def FramedItems (as : List Json) : Prop :=
  ∀ (bs : List Json) (r s : List Char),
    (itemsText as).toList ++ ']' :: r = (itemsText bs).toList ++ ']' :: s → as = bs ∧ r = s

def FramedMembers (as : List (String × Json)) : Prop :=
  ∀ (bs : List (String × Json)) (r s : List Char),
    (membersText as).toList ++ '\x7d' :: r = (membersText bs).toList ++ '\x7d' :: s →
      as = bs ∧ r = s

theorem framed_null : Framed .null := by
  intro b r s _ _ h
  have hk := kind_of_text h
  cases b <;> simp only [kind, reduceCtorEq] at hk
  exact ⟨rfl, List.append_cancel_left h⟩

theorem framed_bool (p : Bool) : Framed (.bool p) := by
  intro b r s _ _ h
  have hk := kind_of_text h
  cases b <;> simp only [kind, reduceCtorEq, Nat.reduceEqDiff] at hk
  rename_i q
  cases p <;> cases q
  · exact ⟨rfl, List.append_cancel_left h⟩
  · cases h
  · cases h
  · exact ⟨rfl, List.append_cancel_left h⟩

theorem framed_number {a : Json} (ha : a.kind = 2) : Framed a := by
  intro b r s hr hs h
  have hb : b.kind = 2 := (kind_of_text h).symm.trans ha
  obtain ⟨ht, he⟩ := numeral_cancel (allNumeral_number ha) (allNumeral_number hb) hr hs h
  exact ⟨number_injective ha hb (String.toList_injective ht), he⟩

theorem framed_str (p : String) : Framed (.str p) := by
  intro b r s _ _ h
  have hk := kind_of_text h
  cases b <;> simp only [kind, reduceCtorEq, Nat.reduceEqDiff] at hk
  obtain ⟨rfl, he⟩ := quoted_cancel h
  exact ⟨rfl, he⟩

theorem framed_list {as : List Json} (ih : FramedItems as) : Framed (.list as) := by
  intro b r s _ _ h
  have hk := kind_of_text h
  cases b <;> simp only [kind, reduceCtorEq, Nat.reduceEqDiff] at hk
  rename_i bs
  rw [list_toList, list_toList] at h
  obtain ⟨rfl, he⟩ := ih bs r s (by simpa using h)
  exact ⟨rfl, he⟩

theorem framed_obj {as : List (String × Json)} (ih : FramedMembers as) : Framed (.obj as) := by
  intro b r s _ _ h
  have hk := kind_of_text h
  cases b <;> simp only [kind, reduceCtorEq, Nat.reduceEqDiff] at hk
  rename_i bs
  rw [obj_toList, obj_toList] at h
  obtain ⟨rfl, he⟩ := ih bs r s (by simpa using h)
  exact ⟨rfl, he⟩

theorem framedItems_nil : FramedItems [] := by
  intro bs r s h
  cases bs with
  | nil => simpa [itemsText] using h
  | cons w rest =>
    rw [itemsText_cons, List.append_assoc] at h
    exact absurd h.symm (text_ne_close rfl)

theorem framedItems_cons {v : Json} {rest : List Json} (hv : Framed v)
    (ih : FramedItems rest) : FramedItems (v :: rest) := by
  intro bs r s h
  cases bs with
  | nil =>
    rw [itemsText_cons, List.append_assoc] at h
    exact absurd h (text_ne_close rfl)
  | cons w rest' =>
    rw [itemsText_cons, itemsText_cons, List.append_assoc, List.append_assoc] at h
    -- The first items agree; what follows decides together whether there are more.
    obtain ⟨rfl, ht⟩ := hv w _ _ (endsNumeral_itemsTail _ _) (endsNumeral_itemsTail _ _) h
    cases rest with
    | nil =>
      cases rest' with
      | nil => simpa [itemsTail] using ht
      | cons _ _ => simp [itemsTail] at ht
    | cons x more =>
      cases rest' with
      | nil => simp [itemsTail] at ht
      | cons y more' =>
        obtain ⟨he, hr⟩ := ih (y :: more') r s (List.cons.inj ht).2
        exact ⟨by rw [he], hr⟩

theorem framedMembers_nil : FramedMembers [] := by
  intro bs r s h
  cases bs with
  | nil => simpa [membersText] using h
  | cons m rest =>
    rw [membersText_cons, List.append_assoc] at h
    exact absurd h.symm quoted_ne_close

theorem framedMembers_cons {n : String} {v : Json} {rest : List (String × Json)} (hv : Framed v)
    (ih : FramedMembers rest) : FramedMembers ((n, v) :: rest) := by
  intro bs r s h
  cases bs with
  | nil =>
    rw [membersText_cons, List.append_assoc] at h
    exact absurd h quoted_ne_close
  | cons m rest' =>
    rw [membersText_cons, membersText_cons, List.append_assoc, List.append_assoc] at h
    obtain ⟨hn, ht⟩ := quoted_cancel h
    rw [List.cons_append, List.cons_append, List.cons.injEq, List.append_assoc,
      List.append_assoc] at ht
    obtain ⟨hw, ht⟩ := hv m.2 _ _ (endsNumeral_membersTail _ _) (endsNumeral_membersTail _ _) ht.2
    have hm : (n, v) = m := Prod.ext hn hw
    cases rest with
    | nil =>
      cases rest' with
      | nil => simpa [membersTail, hm] using ht
      | cons _ _ => simp [membersTail] at ht
    | cons x more =>
      cases rest' with
      | nil => simp [membersTail] at ht
      | cons y more' =>
        obtain ⟨he, hr⟩ := ih (y :: more') r s (List.cons.inj ht).2
        exact ⟨by rw [hm, he], hr⟩

mutual

theorem framed : (a : Json) → Framed a
  | .null => framed_null
  | .bool p => framed_bool p
  | .int _ => framed_number rfl
  | .float _ => framed_number rfl
  | .str p => framed_str p
  | .list as => framed_list (framedItems as)
  | .obj as => framed_obj (framedMembers as)

theorem framedItems : (as : List Json) → FramedItems as
  | [] => framedItems_nil
  | v :: rest => framedItems_cons (framed v) (framedItems rest)

theorem framedMembers : (as : List (String × Json)) → FramedMembers as
  | [] => framedMembers_nil
  | (_, v) :: rest => framedMembers_cons (framed v) (framedMembers rest)

end

/-- Different values have different texts. -/
theorem text_injective {a b : Json} (h : a.text = b.text) : a = b :=
  (framed a b [] [] endsNumeral_nil endsNumeral_nil (by rw [h])).1

end Json

end SchemaAssembly
