import Mathlib.Data.List.Basic
import SchemaAssembly.Schema.Registry

/-!
What extensions add to a type. Names of fields, interfaces and members are added unless they are
there, enum values and directives always; kind, name and description stay. So the order of
extensions shows in the order of the parts of a type, and in the definitions of fields of one name.
-/

set_option autoImplicit false

namespace SchemaAssembly

section AppendNew

variable {target xs ys : List String}

theorem appendNew_append (target xs ys : List String) :
    appendNew target (xs ++ ys) = appendNew (appendNew target xs) ys := by
  induction xs generalizing target with
  | nil => rfl
  | cons x rest ih => exact ih _

/-- A name that is there keeps its number of occurrences; a new one is entered once. -/
theorem count_appendNew (x : String) (target xs : List String) :
    (appendNew target xs).count x =
      if x ∈ target then target.count x else if x ∈ xs then 1 else 0 := by
  induction xs generalizing target with
  | nil =>
    by_cases hx : x ∈ target
    · simp [appendNew, hx]
    · simp [appendNew, hx, List.count_eq_zero_of_not_mem hx]
  | cons y rest ih =>
    rw [appendNew, ih]
    by_cases hy : y ∈ target
    · have hxy : x ∉ target → x ≠ y := fun h heq => h (heq ▸ hy)
      by_cases hx : x ∈ target
      · simp [hy, hx]
      · simp [hy, hx, hxy hx]
    · by_cases heq : x = y
      · subst heq
        simp [hy, List.count_eq_zero_of_not_mem hy]
      · by_cases hx : x ∈ target
        · simp [hy, hx, Ne.symm heq]
        · simp [hy, hx, heq]

theorem mem_appendNew {x : String} : x ∈ appendNew target xs ↔ x ∈ target ∨ x ∈ xs := by
  rw [← List.count_pos_iff, count_appendNew]
  by_cases hx : x ∈ target
  · simp [hx, List.count_pos_iff]
  · by_cases hxs : x ∈ xs <;> simp [hx, hxs]

theorem appendNew_perm {target' : List String} (ht : target.Perm target') (h : xs.Perm ys) :
    (appendNew target xs).Perm (appendNew target' ys) := by
  rw [List.perm_iff_count]
  intro x
  simp only [count_appendNew, h.mem_iff, ht.mem_iff, ht.count_eq]

end AppendNew

theorem Entries.keys_put {α : Type} (name : String) (value : α) (t : Entries α) :
    (Entries.put name value t).keys = appendNew t.keys [name] := by
  induction t with
  | nil => rfl
  | cons e rest ih =>
    obtain ⟨n, v⟩ := e
    simp only [keys, appendNew, List.contains_iff_mem] at ih
    by_cases hn : n = name
    · simp [put, keys, appendNew, hn]
    · by_cases hmem : name ∈ rest.map (·.1)
      · rw [if_pos hmem] at ih
        have hin : name ∈ n :: rest.map (·.1) := List.mem_cons_of_mem _ hmem
        simp [put, keys, appendNew, hn, ih, hin]
      · rw [if_neg hmem] at ih
        have hout : name ∉ n :: rest.map (·.1) := by simpa [Ne.symm hn] using hmem
        simp [put, keys, appendNew, hn, ih, hout]

theorem keys_extendFields {α : Type} (base extension : Entries α) :
    (extendFields base extension).keys = appendNew base.keys extension.keys := by
  induction extension generalizing base with
  | nil => rfl
  | cons f rest ih =>
    have hstep : extendFields base (f :: rest) = extendFields (Entries.put f.1 f.2 base) rest := rfl
    rw [hstep, ih, Entries.keys_put]
    exact (appendNew_append base.keys [f.1] (Entries.keys rest)).symm

namespace TypeBody

variable {b e b' : TypeBody}

def fieldNames : TypeBody → List String
  | object fields _ | interface fields _ => fields.keys
  | input fields => fields.keys
  | _ => []

def interfaces : TypeBody → List String
  | object _ names | interface _ names => names
  | _ => []

def members : TypeBody → List String
  | union names => names
  | _ => []

def values : TypeBody → List EnumValue
  | enumeration vs => vs
  | _ => []

theorem isSome_extend?_iff : (b.extend? e).isSome = true ↔ b.keyword = e.keyword := by
  cases b <;> cases e <;> simp [extend?, keyword]

/-- The parts of an extended body are those of the body with those of the extension. -/
theorem parts_of_extend? (h : b.extend? e = some b') :
    b'.keyword = b.keyword ∧ b'.fieldNames = appendNew b.fieldNames e.fieldNames ∧
      b'.interfaces = appendNew b.interfaces e.interfaces ∧
      b'.members = appendNew b.members e.members ∧ b'.values = b.values ++ e.values := by
  cases b <;> cases e <;> simp only [extend?, Option.some.injEq, reduceCtorEq] at h <;> subst h <;>
    simp [keyword, fieldNames, interfaces, members, values, appendNew, keys_extendFields]

end TypeBody

namespace TypeDef

variable {d e : TypeDef} {es fs : List TypeDef}

/-- The type with an extension; one of another kind changes nothing. -/
def extended (d e : TypeDef) : TypeDef :=
  match d.body.extend? e.body with
  | some body => { d with directives := d.directives ++ e.directives, body := body }
  | none => d

@[simp] theorem name_extended (d e : TypeDef) : (d.extended e).name = d.name := by
  unfold extended
  split <;> rfl

@[simp] theorem description_extended (d e : TypeDef) :
    (d.extended e).description = d.description := by
  unfold extended
  split <;> rfl

@[simp] theorem keyword_extended (d e : TypeDef) : (d.extended e).keyword = d.keyword := by
  unfold extended
  split
  · rename_i body h
    exact (TypeBody.parts_of_extend? h).1
  · rfl

/-- Two definitions with the same parts, up to the order of the parts and the definitions of
fields. -/
structure Alike (d e : TypeDef) : Prop where
  name : d.name = e.name
  keyword : d.keyword = e.keyword
  description : d.description = e.description
  fieldNames : d.body.fieldNames.Perm e.body.fieldNames
  interfaces : d.body.interfaces.Perm e.body.interfaces
  members : d.body.members.Perm e.body.members
  values : d.body.values.Perm e.body.values
  directives : d.directives.Perm e.directives

theorem parts_foldl_extended (h : ∀ e ∈ es, d.keyword = e.keyword) :
    let x := es.foldl extended d
    x.name = d.name ∧ x.keyword = d.keyword ∧ x.description = d.description ∧
      x.body.fieldNames = appendNew d.body.fieldNames (es.flatMap (·.body.fieldNames)) ∧
      x.body.interfaces = appendNew d.body.interfaces (es.flatMap (·.body.interfaces)) ∧
      x.body.members = appendNew d.body.members (es.flatMap (·.body.members)) ∧
      x.body.values = d.body.values ++ es.flatMap (·.body.values) ∧
      x.directives = d.directives ++ es.flatMap (·.directives) := by
  induction es generalizing d with
  | nil => simp [appendNew]
  | cons e rest ih =>
    have hkind := TypeBody.isSome_extend?_iff.mpr (h e List.mem_cons_self)
    obtain ⟨body, hbody⟩ := Option.isSome_iff_exists.mp hkind
    obtain ⟨-, hf, hi, hm, hv⟩ := TypeBody.parts_of_extend? hbody
    have hnext := ih (d := d.extended e) fun e' he' => by
      rw [keyword_extended]
      exact h e' (List.mem_cons_of_mem _ he')
    simp only [List.foldl_cons, List.flatMap_cons, appendNew_append]
    simp only [name_extended, keyword_extended, description_extended] at hnext
    simpa only [extended, hbody, hf, hi, hm, hv, List.append_assoc] using hnext

/-- Extensions of the kind of a type may come in any order. -/
theorem alike_foldl_extended (h : ∀ e ∈ es, d.keyword = e.keyword) (hp : es.Perm fs) :
    (es.foldl extended d).Alike (fs.foldl extended d) := by
  obtain ⟨hn, hk, hd, hf, hi, hm, hv, hu⟩ := parts_foldl_extended h
  obtain ⟨hn', hk', hd', hf', hi', hm', hv', hu'⟩ :=
    parts_foldl_extended fun e he => h e (hp.mem_iff.mpr he)
  refine ⟨hn.trans hn'.symm, hk.trans hk'.symm, hd.trans hd'.symm, ?_, ?_, ?_, ?_, ?_⟩
  · rw [hf, hf']
    exact appendNew_perm (.refl _) (hp.flatMap_right _)
  · rw [hi, hi']
    exact appendNew_perm (.refl _) (hp.flatMap_right _)
  · rw [hm, hm']
    exact appendNew_perm (.refl _) (hp.flatMap_right _)
  · rw [hv, hv']
    exact (hp.flatMap_right _).append_left _
  · rw [hu, hu']
    exact (hp.flatMap_right _).append_left _

end TypeDef

end SchemaAssembly
