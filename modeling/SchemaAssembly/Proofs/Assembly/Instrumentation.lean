import SchemaAssembly.Proofs.Assembly.FanOut
import SchemaAssembly.Proofs.Federation.Guards

/-!
Flags of instrumentation. They stand under texts, the written coordinates of bindings and the marked
names of entity types, in one table. No two of these texts meet: the name of a type holds no point,
so the first point of a key ends its type, whatever the field or the entity is called.
-/

set_option autoImplicit false

namespace SchemaAssembly

theorem splitOnce_append {sep : Char} {before : List Char} (h : sep ∉ before) (after : List Char) :
    splitOnce sep (before ++ sep :: after) = some (before, after) := by
  induction before with
  | nil => simp [splitOnce]
  | cons c rest ih =>
    rw [List.mem_cons, not_or] at h
    simp [splitOnce, Ne.symm h.1, ih h.2]

theorem Sdl.point_notMem_of_isName {n : String} (h : isName n = true) : '.' ∉ n.toList := by
  obtain ⟨c, tail, hlist, hc, htail⟩ := exists_of_isName h
  rw [hlist, List.mem_cons, not_or]
  constructor
  · rintro rfl
    cases hc
  · intro hpoint
    cases htail '.' hpoint

namespace Coordinates

variable {a b : Coordinates}

theorem splitOnce_key (h : '.' ∉ a.parentType.toList) :
    splitOnce '.' a.key.toList = some (a.parentType.toList, a.field.toList) := by
  simpa [key] using splitOnce_append h a.field.toList

/-- Keys tell coordinates apart where no type has a point in its name. -/
theorem key_inj (ha : '.' ∉ a.parentType.toList) (hb : '.' ∉ b.parentType.toList)
    (h : a.key = b.key) : a = b := by
  have hsplit := splitOnce_key ha
  rw [h, splitOnce_key hb, Option.some.injEq, Prod.mk.injEq] at hsplit
  obtain ⟨_, _⟩ := a
  obtain ⟨_, _⟩ := b
  rw [mk.injEq]
  exact ⟨(String.toList_inj.mp hsplit.1).symm, (String.toList_inj.mp hsplit.2).symm⟩

end Coordinates

section Flags

variable {bindings : List Binding} {entities : EntityTable} {k t : String} {b : Binding}

theorem get?_foldl_put_keyed {α β : Type} {key : β → String} {value : β → α} {xs : List β}
    (h : (xs.map key).Nodup) (t : Entries α) (k : String) :
    Entries.get? k (xs.foldl (fun t x => Entries.put (key x) (value x) t) t) =
      ((xs.find? fun x => key x == k).map value).or (Entries.get? k t) := by
  induction xs generalizing t with
  | nil => rfl
  | cons x rest ih =>
    rw [List.map_cons, List.nodup_cons] at h
    rw [List.foldl_cons, ih h.2]
    by_cases hk : key x = k
    · have hrest : rest.find? (fun y => key y == k) = none := by
        rw [List.find?_eq_none]
        intro y hy hyk
        rw [beq_iff_eq] at hyk
        exact h.1 (List.mem_map.mpr ⟨y, hy, hyk.trans hk.symm⟩)
      simp [hk, hrest, Entries.get?_put_self]
    · simp [hk, Entries.get?_put_of_ne _ _ (Ne.symm hk)]

theorem nodup_keys (hpoint : ∀ b ∈ bindings, '.' ∉ b.parentType.toList)
    (h : (bindings.map (·.coordinates)).Nodup) :
    (bindings.map fun b => b.coordinates.key).Nodup := by
  have hinj : ∀ c ∈ bindings.map (·.coordinates), ∀ d ∈ bindings.map (·.coordinates),
      c.key = d.key → c = d := by
    intro c hc d hd heq
    obtain ⟨b, hb, rfl⟩ := List.mem_map.mp hc
    obtain ⟨b', hb', rfl⟩ := List.mem_map.mp hd
    exact Coordinates.key_inj (hpoint b hb) (hpoint b' hb') heq
  simpa [Function.comp_def] using List.Nodup.map_on hinj h

/-- The mark of an entity type is the key of no binding, unless its type has the reserved name. -/
theorem key_ne_marked (hpoint : '.' ∉ b.parentType.toList) (h : b.parentType ≠ "__entities")
    (t : String) : b.coordinates.key ≠ "__entities." ++ t := by
  intro heq
  have hmark : '.' ∉ "__entities".toList := by decide
  have hsame := Coordinates.key_inj (b := ⟨"__entities", t⟩) hpoint hmark heq
  exact h (congrArg Coordinates.parentType hsame)

theorem get?_instrumentationFlags (h : (bindings.map fun b => b.coordinates.key).Nodup)
    (entities : EntityTable) (k : String) :
    (instrumentationFlags bindings entities).get? k =
      if k ∈ entities.keys.map fun t => "__entities." ++ t then some false
      else (bindings.find? fun b => b.coordinates.key == k).map (·.instrumented) := by
  rw [instrumentationFlags, get?_foldl_put, get?_foldl_put_keyed h, Entries.get?, Option.or_none]

end Flags

section Parents

variable {types : TypeRegistry} {components : List Component} {bindings : List Binding}
  {b : Binding}

theorem mem_names_of_mem_bindings (hn : types.names.Nodup)
    (h : bindFetchers types components = .ok bindings) (hb : b ∈ bindings) :
    b.parentType ∈ types.names := by
  have hbindable := bindable_of_ok h
  rw [bindFetchers_of_bindable hbindable] at h
  cases h
  obtain ⟨p, hp, rfl⟩ := List.mem_map.mp hb
  obtain ⟨-, d, hselected, hsame⟩ := mem_spread hbindable.2 hp
  rw [hsame]
  cases hselected with
  | direct hdirect =>
    obtain ⟨hd, hparent, -⟩ := hdirect
    rw [← hparent]
    exact TypeRegistry.isSome_entry?_iff.mp (hbindable.1 d hd)
  | fanned _ hfanned _ =>
    obtain ⟨t, ht, -⟩ := TypeRegistry.isObject_of_mem_possibleTypes hn hfanned.2.2.1
    exact TypeRegistry.mem_names_of_get? ht

end Parents

namespace Assembler

variable {a : Assembler} {files : FileTree} {raw : Option String} {visibility : Visibility}
  {s : Snapshot} {merged : MergedTypes}

/-- Flags of instrumentation are those of the bindings. Over texts without a type of the reserved
name, the flag under the key of a binding is its own, that under the marked name of an entity type
is off, and under any other key it is on. Every binding has a fetcher. -/
theorem instrumented_of_assemble (a : Assembler) (files : FileTree) (raw : Option String)
    (visibility : Visibility) (s : Snapshot) (merged : MergedTypes) (ha : a.OverTexts)
    (h : a.assemble files raw visibility = .ok s) (hmerged : a.mergeTypes files raw = .ok merged)
    (hreserved : "__entities" ∉ merged.types.names) :
    (∀ b ∈ s.bindings, s.isInstrumented b.coordinates.key = b.instrumented) ∧
    (∀ t ∈ s.entities.keys, s.isInstrumented ("__entities." ++ t) = false) ∧
    (∀ key, (∀ b ∈ s.bindings, b.coordinates.key ≠ key) →
      (∀ t ∈ s.entities.keys, "__entities." ++ t ≠ key) → s.isInstrumented key = true) ∧
    ∀ b ∈ s.bindings, (s.schema.code.bound? b.coordinates).isSome = true := by
  obtain ⟨⟨merged', hpasses⟩, hflags⟩ := passes_of_assemble h
  cases hmerged.symm.trans hpasses.merge
  have hsound := (ha.mergeTypes hmerged).sound
  have hparent : ∀ b ∈ s.bindings, b.parentType ∈ merged.types.names := fun b hb =>
    mem_names_of_mem_bindings hsound.distinct hpasses.bind hb
  have hpoint : ∀ b ∈ s.bindings, '.' ∉ b.parentType.toList := fun b hb =>
    Sdl.point_notMem_of_isName (hsound.named _ (hparent b hb))
  have hkeys := nodup_keys hpoint (nodup_coordinates hpasses.bind)
  have hget := get?_instrumentationFlags hkeys s.entities
  simp only [Snapshot.isInstrumented, hflags, hget]
  refine ⟨fun b hb => ?_, fun t ht => ?_, fun key hbindings hentities => ?_, fun b hb =>
    isSome_bound?_of_binding h hb⟩
  · have hfind : (s.bindings.find? fun x => x.coordinates.key == b.coordinates.key) = some b :=
      find?_key (fun b : Binding => b.coordinates.key) hkeys hb
    have hentity : b.coordinates.key ∉ s.entities.keys.map fun t => "__entities." ++ t := by
      intro hmem
      obtain ⟨t, -, heq⟩ := List.mem_map.mp hmem
      have hname : b.parentType ≠ "__entities" := fun heq => hreserved (heq ▸ hparent b hb)
      exact key_ne_marked (hpoint b hb) hname t heq.symm
    rw [if_neg hentity, hfind]
    rfl
  · rw [if_pos (List.mem_map_of_mem ht)]
    rfl
  · have hfind : (s.bindings.find? fun b => b.coordinates.key == key) = none := by
      rw [List.find?_eq_none]
      exact fun b hb hkey => hbindings b hb (beq_iff_eq.mp hkey)
    have hentity : key ∉ s.entities.keys.map fun t => "__entities." ++ t := by
      intro hmem
      obtain ⟨t, ht, heq⟩ := List.mem_map.mp hmem
      exact hentities t ht heq
    rw [if_neg hentity, hfind]
    rfl

/-- A handler for all items that is not instrumented, one whose field has a point in its name, and
films as entities. -/
def meteredItems : Component where
  name := "items"
  fetchers :=
    [⟨"Item", some "title", ⟨0, "items", "title", [], .sync, fun _ => .ok (.value .null)⟩,
        some false⟩,
      ⟨"Book", some "title.short", ⟨1, "items", "short", [], .sync, fun _ => .ok (.value .null)⟩,
        none⟩]
  entities := [("Film", .representation fun _ => .ok (.value .null))]

def meteredMedia : Assembler where
  settings := { extensions := { validation := false } }
  components := [meteredItems]

theorem overTexts_meteredMedia : meteredMedia.OverTexts := nofun

def meteredFlags : List (String × Bool) :=
  [("Book.title", false), ("Book.title.short", true), ("Film.title", false)]

theorem exists_passes_meteredMedia : ∃ merged bindings entities,
    meteredMedia.Passes .empty (some mediaText) merged bindings {} entities ∧
      "__entities" ∉ merged.types.names ∧ entities.keys = ["Film"] ∧
      bindings.map (fun b => (b.coordinates.key, b.instrumented)) = meteredFlags := by
  have hchecked : (meteredMedia.mergeTypes .empty (some mediaText)).toOption.any (fun merged =>
      decide ("__entities" ∉ merged.types.names) && decide (merged.types.roots.query = "Query") &&
        !merged.types.contains "Query" && !merged.types.contains "_Entity" &&
        (bindFetchers merged.types meteredMedia.activeComponents).toOption.any (fun bindings =>
          decide (bindings.map (fun b => (b.coordinates.key, b.instrumented)) = meteredFlags))) =
      true := by decide +kernel
  obtain ⟨merged, hmerged, hchecked⟩ := Except.exists_ok_of_any hchecked
  simp only [Bool.and_eq_true, Bool.not_eq_true', decide_eq_true_eq] at hchecked
  obtain ⟨⟨⟨⟨hreserved, hroot⟩, hquery⟩, hentity⟩, hbound⟩ := hchecked
  obtain ⟨bindings, hbindings, hflags⟩ := Except.exists_ok_of_any hbound
  obtain ⟨entities, hentities, hkeys⟩ : ∃ entities,
      registerEntities meteredMedia.activeComponents = .ok entities ∧ entities.keys = ["Film"] :=
    ⟨_, rfl, rfl⟩
  have hsound := (overTexts_meteredMedia.mergeTypes hmerged).sound
  have hm : merged.types.Federable (entityMembers merged.types entities) := by
    refine ⟨fun hthere => ?_, fun _ => hentity, fun _ => ?_⟩
    · rw [hroot, hquery] at hthere
      cases hthere
    · rw [hroot]
      exact ⟨by decide, fun _ => by decide⟩
  exact ⟨merged, bindings, entities, ⟨hmerged, hbindings, rfl, ⟨_, rfl⟩, hentities, fun _ =>
    ⟨_, (TypeRegistry.addFederationTypes_eq_done_iff_federable hsound).mpr ⟨hm, rfl⟩⟩⟩,
    hreserved, hkeys, of_decide_eq_true hflags⟩

theorem instrumented_of_assemble_meteredMedia :
    meteredMedia.OverTexts ∧
    ∃ s merged, meteredMedia.assemble .empty (some mediaText) .all = .ok s ∧
      meteredMedia.mergeTypes .empty (some mediaText) = .ok merged ∧
      "__entities" ∉ merged.types.names ∧
      s.bindings.map (fun b => (b.coordinates.key, b.instrumented)) = meteredFlags ∧
      s.isInstrumented "Film.title" = false ∧ s.isInstrumented "Book.title.short" = true ∧
      s.isInstrumented "__entities.Film" = false ∧ s.isInstrumented "Film.title.short" = true ∧
      ∀ b ∈ s.bindings, (s.schema.code.bound? b.coordinates).isSome = true := by
  obtain ⟨merged, bindings, entities, hpasses, hreserved, hentities, hbindings⟩ :=
    exists_passes_meteredMedia
  obtain ⟨s, hs⟩ := hpasses.exists_assemble .all
  obtain ⟨⟨merged', hpasses'⟩, -⟩ := passes_of_assemble hs
  obtain ⟨rfl, -, rfl⟩ := hpasses.unique hpasses'
  obtain ⟨hflags, hmarks, hothers, hbound⟩ := instrumented_of_assemble meteredMedia .empty _ .all s
    merged overTexts_meteredMedia hs hpasses.merge hreserved
  have hflag : ∀ p ∈ meteredFlags, s.isInstrumented p.1 = p.2 := by
    intro p hp
    rw [← hbindings] at hp
    obtain ⟨b, hb, rfl⟩ := List.mem_map.mp hp
    exact hflags b hb
  have hother : s.isInstrumented "Film.title.short" = true := by
    apply hothers
    · intro b hb hkey
      have hmem : (b.coordinates.key, b.instrumented) ∈ meteredFlags := by
        rw [← hbindings]
        exact List.mem_map.mpr ⟨b, hb, rfl⟩
      have hnot : ∀ p ∈ meteredFlags, p.1 ≠ "Film.title.short" := by decide
      exact hnot _ hmem hkey
    · intro t ht
      rw [hentities, List.mem_singleton] at ht
      subst ht
      decide
  refine ⟨overTexts_meteredMedia, s, merged, hs, hpasses.merge, hreserved, hbindings, ?_, ?_, ?_,
    hother, hbound⟩
  · exact hflag ("Film.title", false) (by decide)
  · exact hflag ("Book.title.short", true) (by decide)
  · exact hmarks "Film" (by rw [hentities]; decide)

end Assembler

end SchemaAssembly
