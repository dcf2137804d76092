import SchemaAssembly.Sdl.Reader

/-!
What readers find, apart from how far they looked. A reader takes a text in front of what follows,
or it refuses a text; both are put together along the combinators, and so is any property of what
a reader finds.
-/

set_option autoImplicit false

namespace SchemaAssembly

namespace Sdl

namespace Reader

variable {α β : Type} {p q : Reader α} {f : α → Reader β} {a : α} {b : β} {c d : Cursor}
  {text more rest : List Char}

theorem result_bind (p : Reader α) (f : α → Reader β) (c : Cursor) :
    ((p >>= f) c).result = (p c).result.bind fun r => (f r.1 r.2).result := by
  have h : (p >>= f) c = andThen p f c := rfl
  rw [h, andThen]
  rcases p c with ⟨_ | ⟨a, d⟩, reach⟩ <;> rfl

theorem result_pure (a : α) (c : Cursor) : ((pure a : Reader α) c).result = some (a, c) := rfl

theorem result_or (p q : Reader α) (c : Cursor) :
    (p.or q c).result = (p c).result.or (q c).result := by
  rw [or]
  rcases p c with ⟨_ | ⟨a, d⟩, reach⟩ <;> rfl

theorem result_optional (p : Reader α) (c : Cursor) :
    (optional p c).result = some (match (p c).result with
      | some (a, d) => (some a, d)
      | none => (none, c)) := by
  rw [optional]
  rcases p c with ⟨_ | ⟨a, d⟩, reach⟩ <;> rfl

theorem result_atMost_succ (p : Reader α) (n : Nat) (c : Cursor) :
    (atMost p (n + 1) c).result = match (p c).result with
      | none => some ([], c)
      | some (a, d) => (atMost p n d).result.map fun r => (a :: r.1, r.2) := by
  simp only [atMost]
  rcases p c with ⟨_ | ⟨a, d⟩, reach⟩ <;> rfl

theorem result_lexeme (read : List Char → Option (α × List Char)) (c : Cursor) :
    (lexeme read c).result = (read (skipIgnored c.rest)).map fun r =>
      (r.1, { c with
        rest := r.2
        offset := c.offset + (c.rest.length - (skipIgnored c.rest).length) +
          ((skipIgnored c.rest).length - r.2.length) }) := by
  rw [lexeme, result_bind, lexemeAt]
  cases read (skipIgnored c.rest) with
  | none => rfl
  | some r => rfl

/-- The reader takes a text in front of `rest` and notes no fault. -/
def Reads (p : Reader α) (text : List Char) (a : α) (rest : List Char) : Prop :=
  ∀ offset faults, (p ⟨text ++ rest, offset, faults⟩).result =
    some (a, ⟨rest, offset + text.length, faults⟩)

def Refuses (p : Reader α) (text : List Char) : Prop :=
  ∀ offset faults, (p ⟨text, offset, faults⟩).result = none

theorem reads_pure (a : α) (rest : List Char) : Reads (pure a) [] a rest := fun _ _ => rfl

theorem Reads.bind (hp : Reads p text a (more ++ rest)) (hf : Reads (f a) more b rest) :
    Reads (p >>= f) (text ++ more) b rest := by
  intro offset faults
  rw [result_bind, List.append_assoc, hp, Option.bind_some, hf, List.length_append, Nat.add_assoc]

theorem Reads.bind_nil (hp : Reads p text a rest) (hf : Reads (f a) [] b rest) :
    Reads (p >>= f) text b rest := by
  have h := hp.bind hf
  rwa [List.append_nil] at h

theorem Reads.nil_bind (hp : Reads p [] a (text ++ rest)) (hf : Reads (f a) text b rest) :
    Reads (p >>= f) text b rest := hp.bind hf

theorem Reads.pure_bind {g : α → β} (hp : Reads p text a rest) :
    Reads (do return g (← p)) text (g a) rest := hp.bind_nil (reads_pure (g a) rest)

theorem Refuses.bind (hp : Refuses p text) : Refuses (p >>= f) text := by
  intro offset faults
  rw [result_bind, hp, Option.bind_none]

theorem Reads.or_left (hp : Reads p text a rest) : Reads (p.or q) text a rest := by
  intro offset faults
  rw [result_or, hp, Option.some_or]

theorem Reads.or_right (hp : Refuses p (text ++ rest)) (hq : Reads q text a rest) :
    Reads (p.or q) text a rest := by
  intro offset faults
  rw [result_or, hp, Option.none_or, hq]

theorem Reads.optional (hp : Reads p text a rest) :
    Reads (Reader.optional p) text (some a) rest := by
  intro offset faults
  rw [result_optional, hp]

theorem Refuses.optional (hp : Refuses p rest) : Reads (Reader.optional p) [] none rest := by
  intro offset faults
  rw [result_optional, List.nil_append, hp]
  rfl

def joined (items : List (List Char × α)) : List Char := items.flatMap (·.1)

/-- The reader takes one item after the other, each in front of the others and `rest`. -/
inductive ReadsEach (p : Reader α) (rest : List Char) : List (List Char × α) → Prop where
  | nil : ReadsEach p rest []
  | cons {text : List Char} {a : α} {items : List (List Char × α)} (hne : text ≠ [])
      (h : Reads p text a (joined items ++ rest)) (hs : ReadsEach p rest items) :
      ReadsEach p rest ((text, a) :: items)

variable {items : List (List Char × α)} {n : Nat}

/-- After the items a repetition goes on with what is left of its bound. -/
theorem ReadsEach.result_atMost (h : ReadsEach p rest items) (n offset : Nat)
    (faults : List (Nat × FragmentFault)) :
    (atMost p (items.length + n) ⟨joined items ++ rest, offset, faults⟩).result =
      (atMost p n ⟨rest, offset + (joined items).length, faults⟩).result.map fun r =>
        (items.map (·.2) ++ r.1, r.2) := by
  induction h generalizing offset with
  | nil => simp [joined]
  | @cons text a items hne h hs ih =>
    have hn : ((text, a) :: items).length + n = (items.length + n) + 1 := by
      rw [List.length_cons]
      omega
    have htext : joined ((text, a) :: items) = text ++ joined items := rfl
    rw [hn, result_atMost_succ, htext, List.append_assoc, h]
    simp only [ih, Option.map_map, List.length_append, Nat.add_assoc]
    rfl

theorem ReadsEach.length_le (h : ReadsEach p rest items) :
    items.length ≤ (joined items).length := by
  induction h with
  | nil => exact Nat.zero_le _
  | @cons text a items hne h hs ih =>
    have htext : joined ((text, a) :: items) = text ++ joined items := rfl
    have hpos := List.length_pos_iff.mpr hne
    rw [htext, List.length_append, List.length_cons]
    omega

theorem ReadsEach.many (h : ReadsEach p rest items) (hend : Refuses p rest) :
    Reads (many p) (joined items) (items.map (·.2)) rest := by
  intro offset faults
  have hle : items.length ≤ (joined items ++ rest).length := by
    have hlength := h.length_le
    rw [List.length_append]
    omega
  obtain ⟨n, hn⟩ := Nat.exists_eq_add_of_le hle
  rw [Reader.many, hn, h.result_atMost]
  cases n with
  | zero => simp [atMost, found]
  | succ n =>
    rw [result_atMost_succ, hend]
    simp

theorem joined_append (xs ys : List (List Char × α)) :
    joined (xs ++ ys) = joined xs ++ joined ys := List.flatMap_append

theorem ReadsEach.append {before after : List (List Char × α)}
    (h : ReadsEach p (joined after ++ rest) before) (hafter : ReadsEach p rest after) :
    ReadsEach p rest (before ++ after) := by
  induction h with
  | nil => exact hafter
  | @cons text a items hne h hs ih =>
    refine .cons hne ?_ ih
    change Reads p text a (joined (items ++ after) ++ rest)
    rwa [joined_append, List.append_assoc]

/-- Whatever the reader finds is good. -/
def Finds (p : Reader α) (good : α → Prop) : Prop :=
  ∀ c a d, (p c).result = some (a, d) → good a

variable {good : α → Prop} {fine : β → Prop}

theorem finds_true (p : Reader α) : Finds p fun _ => True := fun _ _ _ _ => trivial

theorem finds_pure (h : good a) : Finds (pure a) good := by
  intro c a' d hr
  cases hr
  exact h

theorem Finds.bind (hp : Finds p good) (hf : ∀ a, good a → Finds (f a) fine) :
    Finds (p >>= f) fine := by
  intro c b d h
  rw [result_bind, Option.bind_eq_some_iff] at h
  obtain ⟨⟨a, m⟩, ha, hb⟩ := h
  exact hf a (hp c a m ha) m b d hb

theorem Finds.or (hp : Finds p good) (hq : Finds q good) : Finds (p.or q) good := by
  intro c a d h
  rw [result_or, Option.or_eq_some_iff] at h
  rcases h with h | ⟨-, h⟩
  · exact hp c a d h
  · exact hq c a d h

theorem finds_firstOf {ps : List (Reader α)} (h : ∀ p ∈ ps, Finds p good) :
    Finds (firstOf ps) good := by
  induction ps with
  | nil =>
    intro c a d hr
    cases hr
  | cons p rest ih =>
    exact (h p List.mem_cons_self).or (ih fun q hq => h q (List.mem_cons_of_mem _ hq))

theorem Finds.atMost (hp : Finds p good) (n : Nat) :
    Finds (atMost p n) fun as => ∀ a ∈ as, good a := by
  induction n with
  | zero => exact finds_pure fun a ha => absurd ha List.not_mem_nil
  | succ n ih =>
    intro c as d h
    rw [result_atMost_succ] at h
    cases hc : (p c).result with
    | none =>
      rw [hc] at h
      cases h
      exact fun a ha => absurd ha List.not_mem_nil
    | some r =>
      rw [hc, Option.map_eq_some_iff] at h
      obtain ⟨⟨more, e⟩, hmore, heq⟩ := h
      cases heq
      rw [List.forall_mem_cons]
      exact ⟨hp c r.1 r.2 hc, ih r.2 more e hmore⟩

theorem Finds.many1 (hp : Finds p good) : Finds (many1 p) fun as => ∀ a ∈ as, good a := by
  have hmany : Finds (many p) fun as => ∀ a ∈ as, good a := fun c => hp.atMost c.rest.length c
  exact hp.bind fun a ha => hmany.bind fun as has =>
    finds_pure (List.forall_mem_cons.mpr ⟨ha, has⟩)

end Reader

end Sdl

end SchemaAssembly
