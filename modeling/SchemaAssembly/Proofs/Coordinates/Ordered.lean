import SchemaAssembly.Coordinates

/-!
The order of coordinates and the tables that keep it. Names are compared as strings are, so
coordinates are ordered like pairs of strings.
-/

set_option autoImplicit false

namespace SchemaAssembly

theorem charsBefore_iff {as bs : List Char} : charsBefore as bs = true ↔ as < bs := by
  induction as generalizing bs with
  | nil =>
    cases bs with
    | nil => simp [charsBefore]
    | cons b bs => simp [charsBefore]
  | cons a as ih =>
    cases bs with
    | nil => simp [charsBefore]
    | cons b bs =>
      rw [List.cons_lt_cons_iff, charsBefore]
      by_cases hlt : a.toNat < b.toNat
      · have hab : a < b := hlt
        simp [hlt, hab]
      · by_cases hgt : b.toNat < a.toNat
        · have hab : ¬ a < b := hlt
          have hne : a ≠ b := by
            rintro rfl
            omega
          simp [hlt, hgt, hab, hne]
        · have hab : ¬ a < b := hlt
          have heq : a = b := Char.toNat_inj.mp (by omega)
          simp [heq, ih]

theorem nameBefore_iff {a b : String} : nameBefore a b = true ↔ a < b := charsBefore_iff

namespace Coordinates

variable {a b c : Coordinates}

theorem before_iff : a.before b = true ↔
    a.parentType < b.parentType ∨ a.parentType = b.parentType ∧ a.field < b.field := by
  simp [before, nameBefore_iff]

theorem before_irrefl (a : Coordinates) : a.before a = false := by
  rw [Bool.eq_false_iff, ne_eq, before_iff]
  simp

theorem before_trans (h : a.before b = true) (h' : b.before c = true) : a.before c = true := by
  rw [before_iff] at *
  rcases h with h | ⟨he, h⟩
  · rcases h' with h' | ⟨he', -⟩
    · exact .inl (String.lt_trans h h')
    · exact .inl (he' ▸ h)
  · rcases h' with h' | ⟨he', h'⟩
    · exact .inl (he ▸ h')
    · exact .inr ⟨he.trans he', String.lt_trans h h'⟩

theorem before_of_not_before (hne : a ≠ b) (h : ¬ a.before b = true) : b.before a = true := by
  rw [before_iff, not_or] at h
  rw [before_iff]
  by_cases htype : b.parentType < a.parentType
  · exact .inl htype
  · have hparent : b.parentType = a.parentType :=
      String.le_antisymm (String.not_lt.mp h.1) (String.not_lt.mp htype)
    by_cases hfield : b.field < a.field
    · exact .inr ⟨hparent, hfield⟩
    · have hle : ¬ a.field < b.field := fun hlt => h.2 ⟨hparent.symm, hlt⟩
      have heq : b.field = a.field :=
        String.le_antisymm (String.not_lt.mp hle) (String.not_lt.mp hfield)
      obtain ⟨_, _⟩ := a
      obtain ⟨_, _⟩ := b
      cases hparent
      cases heq
      exact absurd rfl hne

theorem ne_of_before (h : a.before b = true) : a ≠ b := by
  rintro rfl
  rw [before_irrefl] at h
  cases h

theorem before_asymm (h : a.before b = true) : ¬ b.before a = true :=
  fun h' => ne_of_before (before_trans h h') rfl

end Coordinates

namespace CoordinateMap

variable {α : Type} {c d : Coordinates} {v : α} {m : CoordinateMap α}

/-- The coordinates ascend, so no two are equal. -/
def Sorted (m : CoordinateMap α) : Prop := m.Pairwise fun p q => p.1.before q.1 = true

theorem get?_insert (c d : Coordinates) (v : α) (m : CoordinateMap α) :
    get? c (insert d v m) = if d = c then some v else get? c m := by
  induction m with
  | nil => simp [insert, get?]
  | cons p rest ih =>
    obtain ⟨e, u⟩ := p
    by_cases hde : d = e
    · by_cases hdc : d = c
      · simp [insert, get?, ← hde, hdc]
      · simp [insert, get?, ← hde, hdc]
    · by_cases hbefore : d.before e = true
      · simp [insert, get?, hde, hbefore]
      · by_cases hec : e = c
        · subst hec
          simp [insert, get?, hde, hbefore]
        · simp [insert, get?, hde, hbefore, hec, ih]

theorem get?_insertIfAbsent (c d : Coordinates) (v : α) (m : CoordinateMap α) :
    get? c (insertIfAbsent d v m) = (get? c m).or (if d = c then some v else none) := by
  unfold insertIfAbsent contains
  cases hd : get? d m with
  | some u =>
    by_cases hdc : d = c
    · simp [← hdc, hd]
    · simp [hdc]
  | none =>
    by_cases hdc : d = c
    · simp [get?_insert, ← hdc, hd]
    · simp [get?_insert, hdc]

theorem mem_insert {p : Coordinates × α} (h : p ∈ insert c v m) : p = (c, v) ∨ p ∈ m := by
  induction m with
  | nil => exact .inl (List.mem_singleton.mp h)
  | cons q rest ih =>
    obtain ⟨e, u⟩ := q
    unfold insert at h
    split at h
    · exact (List.mem_cons.mp h).imp_right (List.mem_cons_of_mem _)
    · split at h
      · exact List.mem_cons.mp h
      · rcases List.mem_cons.mp h with h | h
        · exact .inr (h ▸ List.mem_cons_self)
        · exact (ih h).imp_right (List.mem_cons_of_mem _)

theorem Sorted.insert (h : Sorted m) (c : Coordinates) (v : α) : Sorted (insert c v m) := by
  induction m with
  | nil => exact List.pairwise_singleton _ _
  | cons q rest ih =>
    obtain ⟨e, u⟩ := q
    obtain ⟨hhead, hrest⟩ := List.pairwise_cons.mp h
    unfold CoordinateMap.insert
    split
    · rename_i hce
      exact List.pairwise_cons.mpr ⟨fun p hp => hce ▸ hhead p hp, hrest⟩
    · rename_i hce
      split
      · rename_i hbefore
        refine List.pairwise_cons.mpr ⟨?_, h⟩
        intro p hp
        rcases List.mem_cons.mp hp with rfl | hp
        · exact hbefore
        · exact Coordinates.before_trans hbefore (hhead p hp)
      · rename_i hbefore
        have hec : e.before c = true :=
          Coordinates.before_of_not_before hce hbefore
        refine List.pairwise_cons.mpr ⟨?_, ih hrest⟩
        intro p hp
        rcases mem_insert hp with rfl | hp
        · exact hec
        · exact hhead p hp

theorem Sorted.insertIfAbsent (h : Sorted m) (c : Coordinates) (v : α) :
    Sorted (insertIfAbsent c v m) := by
  unfold CoordinateMap.insertIfAbsent
  split
  · exact h
  · exact h.insert c v

theorem mem_of_get? (h : get? c m = some v) : (c, v) ∈ m := by
  induction m with
  | nil => simp [get?] at h
  | cons q rest ih =>
    obtain ⟨e, u⟩ := q
    by_cases he : e = c
    · simp only [get?, he, if_true, Option.some.injEq] at h
      simp [he, h]
    · simp only [get?, he, if_false] at h
      exact List.mem_cons_of_mem _ (ih h)

theorem Sorted.mem_iff (h : Sorted m) : (c, v) ∈ m ↔ get? c m = some v := by
  refine ⟨?_, mem_of_get?⟩
  intro hmem
  induction m with
  | nil => exact absurd hmem List.not_mem_nil
  | cons q rest ih =>
    obtain ⟨e, u⟩ := q
    obtain ⟨hhead, hrest⟩ := List.pairwise_cons.mp h
    rcases List.mem_cons.mp hmem with heq | hmem
    · cases heq
      simp [get?]
    · have hne : e ≠ c := Coordinates.ne_of_before (hhead (c, v) hmem)
      simpa [get?, hne] using ih hrest hmem

end CoordinateMap

end SchemaAssembly
