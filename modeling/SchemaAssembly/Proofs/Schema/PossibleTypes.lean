import SchemaAssembly.Schema.Registry

/-!
Possible types are object types of the registry.
-/

set_option autoImplicit false

namespace SchemaAssembly

namespace TypeRegistry

variable {r : TypeRegistry} {name o : String} {t : TypeDef}

theorem name_of_get? (h : r.get? name = some t) : t.name = name := by
  obtain ⟨d, hd, rfl⟩ := Option.map_eq_some_iff.mp h
  simpa using List.find?_some hd

theorem get?_of_mem (hn : r.names.Nodup) (ht : t ∈ r.types) : r.get? t.name = some t := by
  obtain ⟨d, hd, rfl⟩ := List.mem_map.mp ht
  have hkeys : (r.declared.map fun d => d.definition.name).Nodup := by
    simpa [names, types, Function.comp_def] using hn
  have hfind := find?_key (fun d : Declared => d.definition.name) hkeys hd
  rw [get?, entry?, hfind, Option.map_some]

theorem isObject_of_mem_implementations (hn : r.names.Nodup) (h : o ∈ r.implementations name) :
    ∃ t, r.get? o = some t ∧ t.isObject = true := by
  obtain ⟨t, ht, hname⟩ := List.mem_filterMap.mp h
  have hget := get?_of_mem hn ht
  cases hb : t.body with
  | object fields interfaces =>
    simp only [hb, Option.ite_none_right_eq_some, Option.some.injEq] at hname
    rw [← hname.2]
    exact ⟨t, hget, by simp [TypeDef.isObject, hb]⟩
  | scalar => simp [hb] at hname
  | interface fields interfaces => simp [hb] at hname
  | union members => simp [hb] at hname
  | enumeration values => simp [hb] at hname
  | input fields => simp [hb] at hname

theorem isObject_of_mem_possibleTypes (hn : r.names.Nodup) (h : o ∈ r.possibleTypes name) :
    ∃ t, r.get? o = some t ∧ t.isObject = true := by
  cases hg : r.get? name with
  | none => simp [possibleTypes, hg] at h
  | some d =>
    cases hb : d.body with
    | object fields interfaces =>
      simp only [possibleTypes, hg, hb, List.mem_singleton] at h
      rw [h, name_of_get? hg]
      exact ⟨d, hg, by simp [TypeDef.isObject, hb]⟩
    | interface fields interfaces =>
      simp only [possibleTypes, hg, hb] at h
      exact isObject_of_mem_implementations hn h
    | union members =>
      simp only [possibleTypes, hg, hb, List.mem_filter] at h
      cases ho : r.get? o with
      | none => simp [ho] at h
      | some t => exact ⟨t, rfl, by simpa [ho] using h.2⟩
    | scalar => simp [possibleTypes, hg, hb] at h
    | enumeration values => simp [possibleTypes, hg, hb] at h
    | input fields => simp [possibleTypes, hg, hb] at h

theorem isAbstract_of_mem_possibleTypes (hn : r.names.Nodup) (h : o ∈ r.possibleTypes name) :
    r.isAbstract o = false := by
  obtain ⟨t, ht, hobj⟩ := isObject_of_mem_possibleTypes hn h
  rw [isAbstract, ht]
  cases hb : t.body <;> simp_all [TypeDef.isObject, TypeDef.isAbstract]

end TypeRegistry

end SchemaAssembly
