import SchemaAssembly.Proofs.Assembly.TypeResolution

/-!
Handlers on interfaces and unions. They are bound before federation adds its types and answers are
checked after that, so a value could resolve to a type that no handler was bound on; it cannot, for
federation adds no possible type to what was there.
-/

set_option autoImplicit false

namespace SchemaAssembly

/-- All members that a union of the registry lists are there. -/
def TypeRegistry.MembersDeclared (r : TypeRegistry) : Prop :=
  ∀ d ∈ r.types, ∀ m ∈ d.body.members, r.contains m = true

instance (r : TypeRegistry) : Decidable r.MembersDeclared :=
  inferInstanceAs (Decidable (∀ d ∈ r.types, ∀ m ∈ d.body.members, r.contains m = true))

namespace Assembler

variable {a : Assembler} {files : FileTree} {raw : Option String} {visibility : Visibility}
  {s : Snapshot}
  {merged : MergedTypes} {T n : String}

theorem mem_possibleTypes_of_admits (ha : a.OverTexts)
    (h : a.assemble files raw visibility = .ok s) (hmerged : a.mergeTypes files raw = .ok merged)
    (hdeclared : merged.types.MembersDeclared) (habs : merged.types.isAbstract T = true)
    (hadmits : s.schema.types.Admits T n) : n ∈ merged.types.possibleTypes T := by
  obtain ⟨hgrown, -, hnodup⟩ := ha.grown h hmerged
  rw [TypeRegistry.mem_possibleTypes_iff hnodup]
  refine (hgrown.admits_iff habs ?_).mp hadmits
  intro t ms ht hms m hm
  have hmembers : m ∈ t.body.members := by rwa [hms]
  exact TypeRegistry.isSome_entry?_iff.mp
    (hdeclared t (TypeRegistry.mem_types_of_get? ht) m hmembers)

theorem isSome_bound?_of_binding
    (h : a.assemble files raw visibility = .ok s) {b : Binding} (hb : b ∈ s.bindings) :
    (s.schema.code.bound? b.coordinates).isSome = true := by
  obtain ⟨u, hu, rfl⟩ := assemble_eq_ok_iff.mp h
  obtain ⟨merged, resolved, -, -, -, -, hbound⟩ := bound?_of_unwired hu
  change b ∈ u.bindings at hb
  have hfind := isSome_handlerFetcher?
    (ArgumentResolver.standard a.argumentResolvers a.mapper) hb
  have hdressed := CodeRegistry.bound?_dressed u.schema.code a.wiring u.schema.types b.coordinates
  change ((u.schema.code.dressed a.wiring u.schema.types).bound? b.coordinates).isSome = true
  rw [hdressed, hbound]
  simp [hfind]

/-- A handler that is declared on an interface or a union is bound for all values of it. To whatever
type a value resolves, there is a binding for the field on that type, and a fetcher. -/
theorem bound_where_resolved (a : Assembler) (files : FileTree) (raw : Option String)
    (visibility : Visibility) (s : Snapshot) (merged : MergedTypes) (ha : a.OverTexts)
    (h : a.assemble files raw visibility = .ok s) (hmerged : a.mergeTypes files raw = .ok merged)
    (hdeclared : merged.types.MembersDeclared) :
    ∀ d ∈ definitionsOf a.activeComponents, s.schema.types.isAbstract d.parentType = true →
      ∀ v n, s.schema.resolveType d.parentType v = .ok n →
        (∃ b ∈ s.bindings, b.coordinates = ⟨n, d.fieldName⟩) ∧
          (s.schema.code.bound? ⟨n, d.fieldName⟩).isSome = true := by
  intro d hd habs v n hresolve
  obtain ⟨hgrown, hnodup, -⟩ := ha.grown h hmerged
  obtain ⟨u, hu, rfl⟩ := assemble_eq_ok_iff.mp h
  obtain ⟨merged', hmerged', hbind, -⟩ := types_of_unwired hu
  cases hmerged.symm.trans hmerged'
  have hbindable := bindable_of_ok hbind
  have hparent : d.parentType ∈ merged.types.names :=
    TypeRegistry.isSome_entry?_iff.mp (hbindable.1 d hd)
  rw [hgrown.isAbstract_eq hparent] at habs
  have hpossible := mem_possibleTypes_of_admits ha h hmerged hdeclared habs
    (Schema.admits_of_resolveType hnodup hresolve)
  have hfanned : FannedAt merged.types (definitionsOf a.activeComponents) n d.fieldName d :=
    ⟨hd, habs, hpossible, rfl⟩
  have hbindings : ∃ b ∈ u.bindings, b.coordinates = ⟨n, d.fieldName⟩ := by
    have hexists := (exists_binding_iff hbindable.2).mpr (.inr ⟨d, hfanned⟩)
    rw [bindFetchers_of_bindable hbindable] at hbind
    rwa [← Except.ok.inj hbind]
  obtain ⟨b, hb, hc⟩ := hbindings
  refine ⟨⟨b, hb, hc⟩, ?_⟩
  rw [← hc]
  exact isSome_bound?_of_binding h hb

def titledMedia : Assembler :=
  { media with components := media.components ++ [{ name := "items", fetchers :=
    [⟨"Item", some "title", ⟨0, "items", "title", [], .sync, fun _ => .ok (.value .null)⟩, none⟩] }] }

/-- A film among the items has a title. -/
theorem bound_where_resolved_titledMedia :
    titledMedia.OverTexts ∧
    ∃ s merged, titledMedia.assemble .empty (some mediaText) .all = .ok s ∧
      titledMedia.mergeTypes .empty (some mediaText) = .ok merged ∧
      merged.types.MembersDeclared ∧
      s.schema.resolveType "Item" (.obj [("__typename", .str "Film")]) = .ok "Film" ∧
      (∃ b ∈ s.bindings, b.coordinates = ⟨"Film", "title"⟩) ∧
      (s.schema.code.bound? ⟨"Film", "title"⟩).isSome = true := by
  have htexts : titledMedia.OverTexts := nofun
  have hassembled : (titledMedia.assemble .empty (some mediaText) .all).toOption.any (fun s =>
      s.schema.types.isAbstract "Item" &&
        decide ((s.schema.resolveType "Item" (.obj [("__typename", .str "Film")])).toOption =
          some "Film")) = true := by decide +kernel
  have hmerged : (titledMedia.mergeTypes .empty (some mediaText)).toOption.any (fun m =>
      decide m.types.MembersDeclared) = true := by decide +kernel
  obtain ⟨s, hs, hchecked⟩ := Except.exists_ok_of_any hassembled
  obtain ⟨merged, hm, hdeclared⟩ := Except.exists_ok_of_any hmerged
  rw [Bool.and_eq_true, decide_eq_true_eq] at hchecked
  obtain ⟨habs, hfilm⟩ := hchecked
  have hresolve : s.schema.resolveType "Item" (.obj [("__typename", .str "Film")]) = .ok "Film" := by
    cases hanswer : s.schema.resolveType "Item" (.obj [("__typename", .str "Film")]) with
    | error e => rw [hanswer] at hfilm; cases hfilm
    | ok n => rw [hanswer] at hfilm; cases hfilm; rfl
  refine ⟨htexts, s, merged, hs, hm, of_decide_eq_true hdeclared, hresolve, ?_⟩
  exact bound_where_resolved titledMedia .empty _ .all s merged htexts hs hm
    (of_decide_eq_true hdeclared) _ List.mem_cons_self habs _ _ hresolve

end Assembler

end SchemaAssembly
