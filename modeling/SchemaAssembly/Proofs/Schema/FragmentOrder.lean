import Mathlib.Data.List.Perm.Basic
import SchemaAssembly.Proofs.Schema.Merging
import SchemaAssembly.Sdl.Load

/-!
The order of fragments. It shows in the order of types and of their parts, and in which of several
definitions stands for a field or a root. Whether fragments can be merged, and which types with
which parts there are, is the same for all orders. So files are accepted in every order or in none.
-/

set_option autoImplicit false

namespace SchemaAssembly

/-- Where keys are distinct, a look-up does not depend on the order of the rows. -/
theorem find?_key_perm {β : Type} (key : β → String) {xs ys : List β} (h : (xs.map key).Nodup)
    (hp : xs.Perm ys) (k : String) :
    (xs.find? fun x => key x == k) = ys.find? fun y => key y == k := by
  cases hx : xs.find? fun x => key x == k with
  | none =>
    rw [List.find?_eq_none] at hx
    exact (List.find?_eq_none.mpr fun y hy => hx y (hp.mem_iff.mpr hy)).symm
  | some x =>
    have hkey : key x = k := by simpa using List.find?_some hx
    have hys : (ys.map key).Nodup := (hp.map key).nodup_iff.mp h
    rw [← hkey]
    exact (find?_key key hys (hp.mem_iff.mp (List.mem_of_find?_eq_some hx))).symm

section Parts

variable {fs gs : List Fragment}

theorem baseTypes_perm (hp : fs.Perm gs) : (baseTypes fs).Perm (baseTypes gs) :=
  hp.flatMap_right _

theorem directiveDefs_perm (hp : fs.Perm gs) : (directiveDefs fs).Perm (directiveDefs gs) :=
  hp.flatMap_right _

theorem extensions_perm (hp : fs.Perm gs) : (extensions fs).Perm (extensions gs) :=
  hp.flatMap_right _

end Parts

namespace TypeRegistry

variable {r s t : TypeRegistry} {fs gs : List Fragment} {n : String}

theorem Accepts.perm (h : r.Accepts (baseTypes fs) (directiveDefs fs)) (hp : fs.Perm gs) :
    r.Accepts (baseTypes gs) (directiveDefs gs) :=
  ⟨h.1.perm ((baseTypes_perm hp).map _), h.2.perm ((directiveDefs_perm hp).map _)⟩

theorem entry?_withBases_perm (h : r.Accepts (baseTypes fs) (directiveDefs fs))
    (hp : fs.Perm gs) (n : String) : entry? (r.withBases fs) n = entry? (r.withBases gs) n := by
  have hfind := find?_key_perm Declared.name h.1.1 (baseTypes_perm hp) n
  simp only [Declared.name] at hfind
  simp only [withBases, entry?, declare, List.find?_append, hfind]

theorem get?_withBases_perm (h : r.Accepts (baseTypes fs) (directiveDefs fs))
    (hp : fs.Perm gs) (n : String) : (r.withBases fs).get? n = (r.withBases gs).get? n := by
  rw [get?, entry?_withBases_perm h hp, get?]

theorem Mergeable.perm (h : r.Mergeable fs) (hp : fs.Perm gs) : r.Mergeable gs where
  bases := h.bases.perm hp
  extendable e he := by
    obtain ⟨d, hd, hkind⟩ := h.extendable e ((extensions_perm hp).mem_iff.mpr he)
    exact ⟨d, get?_withBases_perm h.bases hp e.name ▸ hd, hkind⟩

theorem mergeable_perm_iff (hp : fs.Perm gs) : r.Mergeable fs ↔ r.Mergeable gs :=
  ⟨fun h => h.perm hp, fun h => h.perm hp.symm⟩

theorem get?_mergedTypes_perm (h : r.Mergeable fs) (hp : fs.Perm gs) (n : String) :
    Option.Rel TypeDef.Alike ((r.mergedTypes fs).get? n) ((r.mergedTypes gs).get? n) := by
  rw [mergedTypes, mergedTypes, get?_foldl_extended, get?_foldl_extended,
    ← get?_withBases_perm h.bases hp]
  cases hd : (r.withBases fs).get? n with
  | none => exact .none
  | some d =>
    refine .some (TypeDef.alike_foldl_extended ?_ ((extensions_perm hp).filter _))
    -- An extension of this name found a type of its kind, and there is only this one to be found.
    intro e he
    obtain ⟨hmem, hname⟩ := List.mem_filter.mp he
    obtain ⟨d', hd', hkind⟩ := h.extendable e hmem
    rw [of_decide_eq_true hname, hd, Option.some.injEq] at hd'
    rw [hd', hkind]

theorem origin?_mergedTypes_perm (h : r.Mergeable fs) (hp : fs.Perm gs) (n : String) :
    (r.mergedTypes fs).origin? n = (r.mergedTypes gs).origin? n := by
  simp only [origin?, mergedTypes, entry?_foldl_extended, entry?_withBases_perm h.bases hp,
    Option.map_map, Function.comp_def]

theorem directive?_mergedTypes_perm (h : r.Mergeable fs) (hp : fs.Perm gs) (n : String) :
    (r.mergedTypes fs).directive? n = (r.mergedTypes gs).directive? n := by
  simp only [directive?, directives_mergedTypes, List.find?_append,
    find?_key_perm (·.name) h.bases.2.1 (directiveDefs_perm hp) n]

end TypeRegistry

namespace Fragment

variable {files : FileTree} {paths others : List String}

/-- Files are accepted if all can be read and their fragments can be merged. -/
theorem check_accepts_iff : (check files paths).2 = [] ↔
    (∀ p ∈ paths, ∃ f, ofFile files p = .ok f) ∧
      TypeRegistry.initial.Mergeable ((paths.map (ofFile files)).filterMap (·.toOption)) := by
  have hfailure : ∀ x : Registration, x.failure.toList = [] ↔ ∃ s, x = .done s := by
    rintro ⟨s, failure⟩
    cases failure <;> simp [Registration.done]
  simp only [check, List.append_eq_nil_iff, hfailure, TypeRegistry.exists_mergeFragments_iff,
    List.filterMap_eq_nil_iff, List.forall_mem_map]
  refine and_congr_left fun _ => forall₂_congr fun p _ => ?_
  cases ofFile files p <;> simp

theorem check_accepts_perm (hp : paths.Perm others) :
    (check files paths).2 = [] ↔ (check files others).2 = [] := by
  simp only [check_accepts_iff, hp.mem_iff,
    TypeRegistry.mergeable_perm_iff ((hp.map (ofFile files)).filterMap _)]

end Fragment

namespace TypeRegistry

/-- The order of fragments does not matter. They can be merged into a registry in every order or in
none; the results have the same types, under each name of the same kind, description and origin and
with the same fields, interfaces, members, values and directives up to order, and the same directive
definitions. So files are accepted in every order or in none. -/
theorem mergeFragments_perm (r : TypeRegistry) {fs gs : List Fragment} (hp : fs.Perm gs) :
    ((∃ s, r.mergeFragments fs = .done s) ↔ ∃ t, r.mergeFragments gs = .done t) ∧
      (∀ s t, r.mergeFragments fs = .done s → r.mergeFragments gs = .done t →
        s.names.Perm t.names ∧
        (∀ n, Option.Rel TypeDef.Alike (s.get? n) (t.get? n) ∧ s.origin? n = t.origin? n) ∧
        s.directives.Perm t.directives ∧ ∀ n, s.directive? n = t.directive? n) ∧
      ∀ (files : FileTree) (paths others : List String), paths.Perm others →
        ((Fragment.check files paths).2 = [] ↔ (Fragment.check files others).2 = []) := by
  refine ⟨?_, ?_, fun files paths others hpaths => Fragment.check_accepts_perm hpaths⟩
  · rw [exists_mergeFragments_iff, exists_mergeFragments_iff, mergeable_perm_iff hp]
  · intro s t hs ht
    obtain ⟨h, rfl⟩ := mergeFragments_eq_done_iff.mp hs
    obtain ⟨-, rfl⟩ := mergeFragments_eq_done_iff.mp ht
    rw [applyRoots_eq, applyRoots_eq (r.mergedTypes gs)]
    refine ⟨?_, fun n => ⟨get?_mergedTypes_perm h hp n, origin?_mergedTypes_perm h hp n⟩, ?_,
      directive?_mergedTypes_perm h hp⟩
    · have hnames := ((baseTypes_perm hp).map Declared.name).append_left r.names
      rw [← names_mergedTypes, ← names_mergedTypes] at hnames
      exact hnames
    · simp only [directives_mergedTypes]
      exact (directiveDefs_perm hp).append_left _

theorem mergeFragments_perm_extension_first :
    let base : Fragment := ⟨"base", "type Query", [.type ⟨"Query", none, [], .object [] ["Node"]⟩]⟩
    let more : Fragment := ⟨"more", "extend type Query implements Item & Node",
      [.extension ⟨"Query", none, [], .object [] ["Item", "Node"]⟩]⟩
    ∃ s t, initial.mergeFragments [more, base] = .done s ∧
      initial.mergeFragments [base, more] = .done t ∧ s.names.Perm t.names ∧
      Option.Rel TypeDef.Alike (s.get? "Query") (t.get? "Query") := by
  intro base more
  have hp : [more, base].Perm [base, more] := .swap base more []
  have h := mergeFragments_perm initial hp
  obtain ⟨s, hs⟩ : ∃ s, initial.mergeFragments [more, base] = .done s := ⟨_, rfl⟩
  obtain ⟨t, ht⟩ := h.1.mp ⟨s, hs⟩
  obtain ⟨hnames, hget, -⟩ := h.2.1 s t hs ht
  exact ⟨s, t, hs, ht, hnames, (hget "Query").1⟩

end TypeRegistry

end SchemaAssembly
