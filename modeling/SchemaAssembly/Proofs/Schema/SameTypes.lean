import SchemaAssembly.Assembly.Assembler
import SchemaAssembly.Proofs.Schema.Roots

/-!
Registries with the same types, directives and roots. Where the types came from, and how the
definitions were spread over fragments, makes no difference to what is merged into them, bound to
them or added to them.
-/

set_option autoImplicit false

namespace SchemaAssembly

namespace TypeRegistry

variable {r s r' : TypeRegistry} {fs gs : List Fragment} {n : String} {e : TypeDef}

/-- The same types in the same order, the same directives and the same roots. -/
structure SameTypes (r s : TypeRegistry) : Prop where
  types : r.types = s.types
  directives : r.directives = s.directives
  roots : r.roots = s.roots

theorem SameTypes.refl (r : TypeRegistry) : r.SameTypes r := ⟨rfl, rfl, rfl⟩

theorem get?_eq_find? (r : TypeRegistry) (n : String) :
    r.get? n = r.types.find? fun d => d.name == n := by
  rw [get?, entry?, types, List.find?_map]
  rfl

theorem contains_eq (r : TypeRegistry) (n : String) : r.contains n = (r.get? n).isSome := by
  rw [contains, get?, Option.isSome_map]

theorem SameTypes.get? (h : r.SameTypes s) : r.get? = s.get? := by
  funext n
  rw [get?_eq_find?, get?_eq_find?, h.types]

theorem SameTypes.names (h : r.SameTypes s) : r.names = s.names := by
  rw [TypeRegistry.names, TypeRegistry.names, h.types]

theorem SameTypes.contains (h : r.SameTypes s) : r.contains = s.contains := by
  funext n
  rw [contains_eq, contains_eq, h.get?]

theorem SameTypes.directive? (h : r.SameTypes s) : r.directive? = s.directive? := by
  funext n
  rw [TypeRegistry.directive?, TypeRegistry.directive?, h.directives]

theorem SameTypes.isAbstract (h : r.SameTypes s) : r.isAbstract = s.isAbstract := by
  funext n
  simp only [TypeRegistry.isAbstract, h.get?]

theorem SameTypes.possibleTypes (h : r.SameTypes s) : r.possibleTypes = s.possibleTypes := by
  funext n
  simp only [TypeRegistry.possibleTypes, implementations, h.get?, h.types]

theorem SameTypes.objectsWithDirective (h : r.SameTypes s) :
    r.objectsWithDirective = s.objectsWithDirective := by
  funext n
  simp only [TypeRegistry.objectsWithDirective, h.types]

def typeDefsOf (ds : List Sdl.Definition) : List TypeDef :=
  ds.filterMap fun
    | .type d => some d
    | _ => none

theorem definitions_baseTypes (fs : List Fragment) :
    (baseTypes fs).map (·.definition) = typeDefsOf (fs.flatMap (·.definitions)) := by
  rw [baseTypes, List.map_flatMap, typeDefsOf, List.filterMap_flatMap]
  congr 1
  funext f
  rw [typesOf, List.map_filterMap]
  congr 1
  funext d
  cases d <;> rfl

theorem directiveDefs_eq (fs : List Fragment) :
    directiveDefs fs = directivesOf (fs.flatMap (·.definitions)) := by
  rw [directiveDefs, directivesOf, List.filterMap_flatMap]
  rfl

theorem extensions_eq (fs : List Fragment) :
    extensions fs = extensionsOf (fs.flatMap (·.definitions)) := by
  rw [extensions, extensionsOf, List.filterMap_flatMap]
  rfl

theorem SameTypes.withBases (h : r.SameTypes s)
    (hfs : fs.flatMap (·.definitions) = gs.flatMap (·.definitions)) :
    (r.withBases fs).SameTypes (s.withBases gs) where
  types := by
    have hbases : (baseTypes fs).map (·.definition) = (baseTypes gs).map (·.definition) := by
      rw [definitions_baseTypes, definitions_baseTypes, hfs]
    have htypes := h.types
    simp only [TypeRegistry.types] at htypes
    simp only [TypeRegistry.types, TypeRegistry.withBases, declare, List.map_append, hbases, htypes]
  directives := by
    simp only [TypeRegistry.withBases, declare, directiveDefs_eq, hfs, h.directives]
  roots := h.roots

theorem SameTypes.extended (h : r.SameTypes s) (e : TypeDef) :
    (r.extended e).SameTypes (s.extended e) := by
  have hreplace : ∀ d, (r.replace d).SameTypes (s.replace d) := by
    intro d
    have htypes : ∀ r : TypeRegistry, (r.replace d).types =
        r.types.map fun x => if x.name = d.name then d else x := by
      intro r
      simp only [TypeRegistry.types, TypeRegistry.replace, List.map_map]
      refine List.map_congr_left fun x _ => ?_
      by_cases hx : x.definition.name = d.name <;> simp [hx]
    exact ⟨by rw [htypes, htypes, h.types], h.directives, h.roots⟩
  unfold TypeRegistry.extended
  rw [h.get?]
  cases s.get? e.name with
  | none => exact h
  | some d => exact hreplace _

theorem SameTypes.foldl_extended (h : r.SameTypes s) (es : List TypeDef) :
    (es.foldl TypeRegistry.extended r).SameTypes (es.foldl TypeRegistry.extended s) := by
  induction es generalizing r s with
  | nil => exact h
  | cons e rest ih => exact ih (h.extended e)

theorem SameTypes.mergedTypes (h : r.SameTypes s)
    (hfs : fs.flatMap (·.definitions) = gs.flatMap (·.definitions)) :
    (r.mergedTypes fs).SameTypes (s.mergedTypes gs) := by
  rw [TypeRegistry.mergedTypes, TypeRegistry.mergedTypes, extensions_eq, extensions_eq, hfs]
  exact (h.withBases hfs).foldl_extended _

theorem SameTypes.mergeable (h : r.SameTypes s)
    (hfs : fs.flatMap (·.definitions) = gs.flatMap (·.definitions)) (hm : r.Mergeable fs) :
    s.Mergeable gs where
  bases := by
    have hnames : ∀ fs : List Fragment, (baseTypes fs).map Declared.name =
        (typeDefsOf (fs.flatMap (·.definitions))).map (·.name) := by
      intro fs
      rw [← definitions_baseTypes, List.map_map]
      rfl
    have hbases := hm.bases
    rw [Accepts, hnames, directiveDefs_eq, hfs] at hbases
    rw [Accepts, hnames, directiveDefs_eq, ← h.names, directiveNames, ← h.directives]
    exact hbases
  extendable e he := by
    rw [extensions_eq, ← hfs, ← extensions_eq] at he
    obtain ⟨d, hd, hkind⟩ := hm.extendable e he
    exact ⟨d, (h.withBases hfs).get? ▸ hd, hkind⟩

theorem SameTypes.applyRoots (h : r.SameTypes s) (q : Sdl.NamedRoots) :
    (r.applyRoots q).SameTypes (s.applyRoots q) := by
  unfold TypeRegistry.applyRoots
  split
  · exact ⟨h.types, h.directives, rfl⟩
  · exact h

/-- Fragments with the same definitions can be merged alike. -/
theorem SameTypes.mergeFragments (h : r.SameTypes s)
    (hfs : fs.flatMap (·.definitions) = gs.flatMap (·.definitions))
    (hr : r.mergeFragments fs = .done r') :
    ∃ s', s.mergeFragments gs = .done s' ∧ r'.SameTypes s' ∧
      s'.sources = s.sources ++ gs.map (·.source) := by
  obtain ⟨hm, rfl⟩ := mergeFragments_eq_done_iff.mp hr
  refine ⟨_, mergeFragments_eq_done_iff.mpr ⟨h.mergeable hfs hm, rfl⟩, ?_, ?_⟩
  · rw [namedRoots_eq, namedRoots_eq, hfs]
    exact (h.mergedTypes hfs).applyRoots _
  · rw [applyRoots_eq]
    exact sources_mergedTypes s gs

end TypeRegistry

section Assembly

variable {r s r' : TypeRegistry} {entities : EntityTable}

theorem TypeRegistry.SameTypes.bindFetchers (h : r.SameTypes s) (components : List Component) :
    bindFetchers r components = bindFetchers s components := by
  simp only [SchemaAssembly.bindFetchers, spread, h.contains, h.isAbstract, h.possibleTypes]

theorem TypeRegistry.SameTypes.registerResolvers (h : r.SameTypes s) (components : List Component)
    (code : CodeRegistry) :
    registerResolvers r components code = registerResolvers s components code := by
  simp only [SchemaAssembly.registerResolvers, h.get?]

theorem TypeRegistry.SameTypes.needsFederation (h : r.SameTypes s) (entities : EntityTable) :
    needsFederation r entities = needsFederation s entities := by
  simp only [SchemaAssembly.needsFederation, h.objectsWithDirective]

theorem TypeRegistry.SameTypes.isObject (h : r.SameTypes s) : r.isObject = s.isObject := by
  funext n
  simp only [TypeRegistry.isObject, h.get?]

theorem TypeRegistry.SameTypes.addFederationTypes (h : r.SameTypes s)
    (hr : addFederationTypes r entities = .done r') :
    ∃ s', addFederationTypes s entities = .done s' ∧ r'.SameTypes s' := by
  have htext : federationSdl r (entityMembers r entities) =
      federationSdl s (entityMembers s entities) := by
    simp only [federationSdl, entityMembers, h.contains, h.directive?, h.roots,
      h.objectsWithDirective, h.isObject]
    rfl
  unfold SchemaAssembly.addFederationTypes at hr ⊢
  rw [htext] at hr
  cases hparse : Fragment.parse federationOrigin (federationSdl s (entityMembers s entities)) with
  | error e =>
    rw [hparse] at hr
    cases hr
  | ok f =>
    rw [hparse] at hr
    obtain ⟨s', hs', hsame, -⟩ := h.mergeFragments rfl hr
    exact ⟨s', hs', hsame⟩

theorem TypeRegistry.SameTypes.missingDirectives? (h : r.SameTypes s) :
    missingDirectives? r = missingDirectives? s := by
  simp only [SchemaAssembly.missingDirectives?, h.directive?]

end Assembly

end SchemaAssembly
