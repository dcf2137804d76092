/-!
Tables in order of insertion: a name entered again keeps its place and takes the new value.
-/

set_option autoImplicit false

namespace SchemaAssembly

abbrev Entries (α : Type) := List (String × α)

namespace Entries

variable {α : Type}

def get? (name : String) : Entries α → Option α
  | [] => none
  | (n, v) :: rest => if n = name then some v else get? name rest

def contains (name : String) (t : Entries α) : Bool := (get? name t).isSome

/-- Enters a value at the end, or in place of the one under the same name. -/
def put (name : String) (value : α) : Entries α → Entries α
  | [] => [(name, value)]
  | (n, v) :: rest => if n = name then (n, value) :: rest else (n, v) :: put name value rest

/-- Changes the value under a name, if there is one. -/
def adjust (name : String) (f : α → α) : Entries α → Entries α
  | [] => []
  | (n, v) :: rest => if n = name then (n, f v) :: rest else (n, v) :: adjust name f rest

def erase (name : String) : Entries α → Entries α
  | [] => []
  | (n, v) :: rest => if n = name then rest else (n, v) :: erase name rest

def keys (t : Entries α) : List String := t.map (·.1)

def values (t : Entries α) : List α := t.map (·.2)

theorem get?_put_self (name : String) (value : α) (t : Entries α) :
    get? name (put name value t) = some value := by
  induction t with
  | nil => simp [put, get?]
  | cons e rest ih =>
    obtain ⟨n, v⟩ := e
    by_cases h : n = name <;> simp [put, get?, h, ih]

theorem get?_put_of_ne {name other : String} (value : α) (t : Entries α) (h : other ≠ name) :
    get? other (put name value t) = get? other t := by
  induction t with
  | nil => simp [put, get?, Ne.symm h]
  | cons e rest ih =>
    obtain ⟨n, v⟩ := e
    by_cases hn : n = name
    · subst hn
      simp [put, get?, Ne.symm h]
    · simp only [put, hn, if_false, get?, ih]

theorem put_of_get? {name : String} {value : α} {t : Entries α} (h : get? name t = some value) :
    put name value t = t := by
  induction t with
  | nil => cases h
  | cons e rest ih =>
    obtain ⟨n, v⟩ := e
    by_cases hn : n = name
    · simp only [get?, hn, if_true, Option.some.injEq] at h
      simp only [put, hn, if_true, h]
    · simp only [get?, hn, if_false] at h
      simp only [put, hn, if_false, ih h]

theorem get?_erase_of_ne {name other : String} (t : Entries α) (h : other ≠ name) :
    get? other (erase name t) = get? other t := by
  induction t with
  | nil => rfl
  | cons e rest ih =>
    obtain ⟨n, v⟩ := e
    by_cases hn : n = name
    · subst hn
      simp [erase, get?, Ne.symm h]
    · simp only [erase, hn, if_false, get?, ih]

theorem mem_of_get? {name : String} {value : α} {t : Entries α} (h : get? name t = some value) :
    (name, value) ∈ t := by
  induction t with
  | nil => simp [get?] at h
  | cons e rest ih =>
    obtain ⟨n, v⟩ := e
    by_cases hn : n = name
    · simp only [get?, hn, if_true, Option.some.injEq] at h
      simp [hn, h]
    · simp only [get?, hn, if_false] at h
      exact List.mem_cons_of_mem _ (ih h)

theorem get?_of_mem {name : String} {value : α} {t : Entries α} (hn : (t.map (·.1)).Nodup)
    (h : (name, value) ∈ t) : get? name t = some value := by
  induction t with
  | nil => exact absurd h List.not_mem_nil
  | cons e rest ih =>
    obtain ⟨n, v⟩ := e
    obtain ⟨hnot, hrest⟩ := List.nodup_cons.mp hn
    rcases List.mem_cons.mp h with heq | h
    · obtain ⟨rfl, rfl⟩ := Prod.mk.inj heq
      simp [get?]
    · have hne : n ≠ name := fun heq => hnot (List.mem_map.mpr ⟨_, h, heq.symm⟩)
      rw [get?, if_neg hne, ih hrest h]

theorem mem_put {name : String} {value : α} {t : Entries α} {p : String × α}
    (h : p ∈ put name value t) : p = (name, value) ∨ p ∈ t := by
  induction t with
  | nil => exact .inl (List.mem_singleton.mp h)
  | cons e rest ih =>
    obtain ⟨n, v⟩ := e
    by_cases hn : n = name
    · simp only [put, hn, if_true, List.mem_cons] at h
      exact h.imp_right (List.mem_cons_of_mem _)
    · simp only [put, hn, if_false, List.mem_cons] at h
      rcases h with h | h
      · exact .inr (h ▸ List.mem_cons_self)
      · exact (ih h).imp_right (List.mem_cons_of_mem _)

theorem erase_subset (name : String) (t : Entries α) : erase name t ⊆ t := by
  induction t with
  | nil => exact List.Subset.refl _
  | cons e rest ih =>
    obtain ⟨n, v⟩ := e
    by_cases hn : n = name
    · simp [erase, hn]
    · simpa [erase, hn] using List.cons_subset_cons (n, v) ih

theorem nodup_keys_put {name : String} {value : α} {t : Entries α}
    (h : (t.map (·.1)).Nodup) : ((put name value t).map (·.1)).Nodup := by
  induction t with
  | nil => simp [put]
  | cons e rest ih =>
    obtain ⟨n, v⟩ := e
    obtain ⟨hnot, hrest⟩ := List.nodup_cons.mp h
    by_cases hn : n = name
    · simpa [put, hn] using h
    · simp only [put, hn, if_false, List.map_cons, List.nodup_cons]
      refine ⟨?_, ih hrest⟩
      intro hmem
      obtain ⟨p, hp, heq⟩ := List.mem_map.mp hmem
      rcases mem_put hp with rfl | hp
      · exact hn heq.symm
      · exact hnot (List.mem_map.mpr ⟨p, hp, heq⟩)

theorem nodup_keys_erase {name : String} {t : Entries α}
    (h : (t.map (·.1)).Nodup) : ((erase name t).map (·.1)).Nodup := by
  induction t with
  | nil => exact h
  | cons e rest ih =>
    obtain ⟨n, v⟩ := e
    obtain ⟨hnot, hrest⟩ := List.nodup_cons.mp h
    by_cases hn : n = name
    · simpa [erase, hn] using hrest
    · simp only [erase, hn, if_false, List.map_cons, List.nodup_cons]
      exact ⟨fun hmem => hnot (List.map_subset _ (erase_subset name rest) hmem), ih hrest⟩

theorem notMem_erase {name : String} {value : α} {t : Entries α}
    (h : (t.map (·.1)).Nodup) : (name, value) ∉ erase name t := by
  induction t with
  | nil => exact List.not_mem_nil
  | cons e rest ih =>
    obtain ⟨n, v⟩ := e
    obtain ⟨hnot, hrest⟩ := List.nodup_cons.mp h
    by_cases hn : n = name
    · subst hn
      simp only [erase, if_true]
      exact fun hmem => hnot (List.mem_map.mpr ⟨_, hmem, rfl⟩)
    · simp only [erase, hn, if_false, List.mem_cons, Prod.mk.injEq, not_or]
      exact ⟨fun heq => hn heq.1.symm, ih hrest⟩

theorem get?_erase_self {name : String} {t : Entries α} (h : (t.map (·.1)).Nodup) :
    get? name (erase name t) = none := by
  rw [Option.eq_none_iff_forall_ne_some]
  exact fun value hvalue => notMem_erase h (mem_of_get? hvalue)

end Entries

/-- Where keys are distinct, a row is the one found under its key. -/
theorem find?_key {β κ : Type} [BEq κ] [LawfulBEq κ] (key : β → κ) {rows : List β} {row : β}
    (h : (rows.map key).Nodup) (hr : row ∈ rows) :
    (rows.find? fun r => key r == key row) = some row := by
  induction rows with
  | nil => exact absurd hr List.not_mem_nil
  | cons r rest ih =>
    rw [List.map_cons, List.nodup_cons] at h
    by_cases hk : key r = key row
    · rcases List.mem_cons.mp hr with rfl | hr
      · simp
      · exact absurd (List.mem_map.mpr ⟨row, hr, hk.symm⟩) h.1
    · rcases List.mem_cons.mp hr with rfl | hr
      · exact absurd rfl hk
      · simpa [hk] using ih h.2 hr

end SchemaAssembly
