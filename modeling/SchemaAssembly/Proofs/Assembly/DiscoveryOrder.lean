import SchemaAssembly.Proofs.Assembly.BindingOrder
import SchemaAssembly.Proofs.Assembly.Failures
import SchemaAssembly.Proofs.Federation.EntityOrder

/-!
Assembly and the order in which components are found. Every pass succeeds for all orders or for
none, and what a snapshot says about bindings, loaders and entities is the same for all of them.
-/

set_option autoImplicit false

namespace SchemaAssembly

section Names

variable {r s : TypeRegistry} {fs : List Fragment} {a : Assembler} {files : FileTree}
  {raw : Option String} {merged : MergedTypes}

def TypeRegistry.WellNamed (r : TypeRegistry) : Prop := ∀ n ∈ r.names, Sdl.isName n = true

/-- A registry whose types are named as texts name them. The union of the entities is written as a
text and read again, so a name of another form could end it early. -/
structure NamedTypes where
  registry : TypeRegistry
  named : registry.WellNamed

def Assembler.startingFrom (a : Assembler) (preset : Option NamedTypes) : Assembler :=
  { a with types := preset.map (·.registry) }

theorem Assembler.wellNamed_startingFrom (a : Assembler) (preset : Option NamedTypes) :
    ∀ r ∈ (a.startingFrom preset).types, r.WellNamed := by
  intro r hr
  obtain ⟨p, -, rfl⟩ := Option.map_eq_some_iff.mp hr
  exact p.named

theorem Fragment.names_baseTypes (f : Fragment) :
    (typesOf f.name f.definitions).map Declared.name = f.typeNames := by
  rw [typesOf, Fragment.typeNames, List.map_filterMap]
  congr 1
  funext d
  cases d <;> rfl

theorem TypeRegistry.WellNamed.mergeFragments (hr : r.WellNamed) (hfs : ∀ f ∈ fs, f.WellNamed)
    (h : r.mergeFragments fs = .done s) : s.WellNamed := by
  obtain ⟨-, rfl⟩ := TypeRegistry.mergeFragments_eq_done_iff.mp h
  rw [TypeRegistry.applyRoots_eq]
  intro n hn
  have hnames := TypeRegistry.names_mergedTypes r fs
  rw [baseTypes, List.map_flatMap] at hnames
  replace hn : n ∈ (r.mergedTypes fs).names := hn
  rw [hnames, List.mem_append, List.mem_flatMap] at hn
  rcases hn with hn | ⟨f, hf, hn⟩
  · exact hr n hn
  · rw [Fragment.names_baseTypes] at hn
    exact hfs f hf n hn

theorem Registration.toExcept_eq_ok_iff {x : Registration} : x.toExcept = .ok s ↔ x = .done s := by
  obtain ⟨s', failure⟩ := x
  cases failure <;> simp [toExcept, done]

theorem wellNamed_initial : TypeRegistry.initial.WellNamed := by
  unfold TypeRegistry.WellNamed
  decide +kernel

theorem forall_of_mapM {α β ε : Type} {f : α → Except ε β} {p : β → Prop} {xs : List α}
    {ys : List β} (hf : ∀ x y, f x = .ok y → p y) (h : xs.mapM f = .ok ys) : ∀ y ∈ ys, p y := by
  induction xs generalizing ys with
  | nil =>
    cases h
    exact fun y hy => absurd hy List.not_mem_nil
  | cons x rest ih =>
    rw [List.mapM_cons, Except.bind_eq_ok] at h
    obtain ⟨y, hy, h⟩ := h
    obtain ⟨more, hmore, h⟩ := Except.bind_eq_ok.mp h
    cases h
    exact List.forall_mem_cons.mpr ⟨hf x y hy, ih hmore⟩

theorem wellNamed_of_load {locations : List String}
    (h : Fragment.load files locations = .ok fs) : ∀ f ∈ fs, f.WellNamed := by
  obtain ⟨paths, -, h⟩ := Except.bind_eq_ok.mp h
  refine forall_of_mapM (fun path f hf => ?_) h
  unfold Fragment.ofFile at hf
  split at hf
  · cases hf
  · exact Fragment.wellNamed_of_parse hf

theorem Assembler.wellNamed_gatherFragments (h : a.gatherFragments files raw = .ok fs) :
    ∀ f ∈ fs, f.WellNamed := by
  have hgiven : ∀ f ∈ a.fragments.map (·.fragment), f.WellNamed := by
    intro f hf
    obtain ⟨p, -, rfl⟩ := List.mem_map.mp hf
    exact Fragment.wellNamed_of_parse p.parsed
  have hmap : ∀ located : Except ConfigurationError (List Fragment),
      (∀ gs, located = .ok gs → ∀ f ∈ gs, f.WellNamed) →
      (located.map fun fragments => fragments ++ a.fragments.map (·.fragment)) = .ok fs →
      ∀ f ∈ fs, f.WellNamed := by
    intro located hlocated h
    cases located with
    | error e => cases h
    | ok gs =>
      cases h
      exact List.forall_mem_append.mpr ⟨hlocated gs rfl, hgiven⟩
  refine hmap _ ?_ h
  intro gs hgs
  cases raw with
  | none => exact wellNamed_of_load hgs
  | some sdl =>
    cases hparse : Fragment.parse "<raw>" sdl with
    | error e =>
      simp only [hparse] at hgs
      cases hgs
    | ok f =>
      simp only [hparse] at hgs
      cases hgs
      exact List.forall_mem_singleton.mpr (Fragment.wellNamed_of_parse hparse)

theorem wellNamed_addValidationDirectives (hr : r.WellNamed)
    (h : addValidationDirectives r = .ok s) : s.WellNamed := by
  unfold addValidationDirectives at h
  split at h
  · cases h
    exact hr
  · split at h
    · cases h
    · rename_i sdl hsdl f hf
      exact hr.mergeFragments (List.forall_mem_singleton.mpr (Fragment.wellNamed_of_parse hf))
        (Registration.toExcept_eq_ok_iff.mp h)

end Names

section Merging

variable {a : Assembler} {files : FileTree} {raw : Option String} {merged : MergedTypes}

theorem typeContributors_eq_nil {components : List Component}
    (h : ∀ c ∈ components, c.hasContributors = false) :
    (components.flatMap (·.typeContributors)) = [] ∧
      components.any Component.hasContributors = false := by
  refine ⟨?_, by simpa using h⟩
  rw [List.flatMap_eq_nil_iff]
  intro c hc
  have hnone := h c hc
  simp only [Component.hasContributors, Bool.or_eq_false_iff, Bool.not_eq_false',
    List.isEmpty_iff] at hnone
  exact hnone.1.1

theorem Assembler.mergeTypes_eq (h : ∀ c ∈ a.components, c.hasContributors = false) :
    a.mergeTypes files raw = a.gatherFragments files raw >>= fun fragments =>
      if fragments.isEmpty && a.types.isNone then
        .error (.noSchemaFound a.settings.resolvedLocations)
      else ((a.types.getD .initial).mergeFragments fragments).toExcept >>= fun merged =>
        (if a.settings.extensions.validation then addValidationDirectives merged
          else .ok merged).map fun types => ⟨types, types.sdl⟩ := by
  have hactive : ∀ c ∈ a.activeComponents, c.hasContributors = false := fun c hc =>
    h c (List.mem_filter.mp hc).1
  obtain ⟨hcontributors, hany⟩ := typeContributors_eq_nil hactive
  simp only [Assembler.mergeTypes, hcontributors, hany]
  congr 1
  funext fragments
  simp only [Bool.not_false, Bool.and_true, List.foldlM_nil, pure_bind]
  split
  · rfl
  · congr 1
    funext merged
    split <;> rfl

theorem Assembler.wellNamed_mergeTypes (htypes : ∀ r ∈ a.types, r.WellNamed)
    (hcontributors : ∀ c ∈ a.components, c.hasContributors = false)
    (h : a.mergeTypes files raw = .ok merged) : merged.types.WellNamed := by
  rw [Assembler.mergeTypes_eq hcontributors] at h
  obtain ⟨fs, hfs, h⟩ := Except.bind_eq_ok.mp h
  split at h
  · cases h
  obtain ⟨r, hr, h⟩ := Except.bind_eq_ok.mp h
  have hmerged : r.WellNamed := by
    refine TypeRegistry.WellNamed.mergeFragments ?_ (Assembler.wellNamed_gatherFragments hfs)
      (Registration.toExcept_eq_ok_iff.mp hr)
    cases ht : a.types with
    | none => exact wellNamed_initial
    | some given => exact htypes given ht
  split at h
  · cases hadded : addValidationDirectives r with
    | error e =>
      rw [hadded] at h
      cases h
    | ok types =>
      rw [hadded] at h
      cases h
      exact wellNamed_addValidationDirectives hmerged hadded
  · cases h
    exact hmerged

theorem failsElsewhere_mergeTypes (h : ∀ c ∈ a.components, c.hasContributors = false) :
    FailsElsewhere (a.mergeTypes files raw) := by
  rw [Assembler.mergeTypes_eq h]
  refine .bind (failsElsewhere_gatherFragments a files raw) fun fs => ?_
  split
  · exact failsElsewhere_error rfl
  · refine .bind (failsElsewhere_mergeFragments _ _).toExcept fun r => .map ?_
    split
    · exact failsElsewhere_addValidationDirectives r
    · exact failsElsewhere_ok r

end Merging

section Passes

variable {a : Assembler} {files : FileTree} {raw : Option String} {visibility : Visibility}
  {s : Snapshot} {others : List Component}

structure Assembler.Passes (a : Assembler) (files : FileTree) (raw : Option String)
    (merged : MergedTypes) (bindings : List Binding) (loaders : LoaderTable)
    (entities : EntityTable) : Prop where
  merge : a.mergeTypes files raw = .ok merged
  bind : bindFetchers merged.types a.activeComponents = .ok bindings
  load : registerLoaders a.loaderInstrumentation a.activeComponents = .ok loaders
  resolve : ∃ r, registerResolvers merged.types a.activeComponents
    (bindAll (ArgumentResolver.standard a.argumentResolvers a.mapper) bindings) = .ok r
  own : registerEntities a.activeComponents = .ok entities
  federate : needsFederation merged.types entities = true →
    ∃ r, addFederationTypes merged.types entities = .done r

theorem exists_addFederation_iff {types : TypeRegistry} {entities : EntityTable}
    {federation : FederationResolver} {sdl : String} {code : CodeRegistry} :
    (∃ r, addFederation types entities federation sdl code = .ok r) ↔
      ∃ r, addFederationTypes types entities = .done r := by
  unfold addFederation
  generalize addFederationTypes types entities = added
  obtain ⟨r, failure⟩ := added
  cases failure <;> simp [Registration.toExcept, Registration.done]

theorem Assembler.passes_of_assemble (h : a.assemble files raw visibility = .ok s) :
    (∃ merged, a.Passes files raw merged s.bindings s.loaders s.entities) ∧
      s.instrumentation = instrumentationFlags s.bindings s.entities := by
  obtain ⟨merged, hmerged, h⟩ := Except.bind_eq_ok.mp h
  obtain ⟨bindings, hbindings, h⟩ := Except.bind_eq_ok.mp h
  obtain ⟨loaders, hloaders, h⟩ := Except.bind_eq_ok.mp h
  obtain ⟨resolved, hresolved, h⟩ := Except.bind_eq_ok.mp h
  obtain ⟨entities, hentities, h⟩ := Except.bind_eq_ok.mp h
  dsimp only at h
  split at h
  · obtain ⟨federated, hfederated, h⟩ := Except.bind_eq_ok.mp h
    cases h
    exact ⟨⟨merged, hmerged, hbindings, hloaders, ⟨_, hresolved⟩, hentities, fun _ =>
      exists_addFederation_iff.mp ⟨_, hfederated⟩⟩, rfl⟩
  · rename_i hneeds
    cases h
    exact ⟨⟨merged, hmerged, hbindings, hloaders, ⟨_, hresolved⟩, hentities, fun h =>
      absurd h hneeds⟩, rfl⟩

theorem Assembler.Passes.exists_assemble {merged : MergedTypes} {bindings : List Binding}
    {loaders : LoaderTable} {entities : EntityTable}
    (h : a.Passes files raw merged bindings loaders entities) (visibility : Visibility) :
    ∃ s, a.assemble files raw visibility = .ok s := by
  obtain ⟨resolved, hresolved⟩ := h.resolve
  simp only [Assembler.assemble, h.merge, h.bind, h.load, hresolved, h.own, Except.ok_bind]
  by_cases hneeds : needsFederation merged.types entities = true
  · obtain ⟨federated, hfederated⟩ := exists_addFederation_iff.mpr (h.federate hneeds)
    rw [if_pos hneeds, hfederated]
    exact ⟨_, rfl⟩
  · rw [if_neg hneeds]
    exact ⟨_, rfl⟩

theorem activeComponents_perm (hp : a.components.Perm others) :
    a.activeComponents.Perm ({ a with components := others } : Assembler).activeComponents :=
  hp.filter a.accepts

theorem Assembler.mergeTypes_perm (hp : a.components.Perm others)
    (hcontributors : ∀ c ∈ a.components, c.hasContributors = false) :
    ({ a with components := others } : Assembler).mergeTypes files raw =
      a.mergeTypes files raw := by
  rw [Assembler.mergeTypes_eq hcontributors, Assembler.mergeTypes_eq fun c hc =>
    hcontributors c (hp.mem_iff.mpr hc)]
  rfl

theorem EntityTable.keys_perm {t t' : EntityTable} (h : t.owners.Perm t'.owners) :
    (Entries.keys t).Perm (Entries.keys t') := by
  have hkeys : ∀ t : EntityTable, Entries.keys t = t.owners.map (·.1) := fun t => by
    rw [EntityTable.owners, List.map_map]
    rfl
  rw [hkeys, hkeys]
  exact h.map _

theorem Assembler.Passes.perm {merged : MergedTypes} {bindings : List Binding}
    {loaders : LoaderTable} {entities : EntityTable}
    (h : a.Passes files raw merged bindings loaders entities) (hp : a.components.Perm others)
    (hcontributors : ∀ c ∈ a.components, c.hasContributors = false)
    (htypes : ∀ r ∈ a.types, r.WellNamed) : ∃ loaders' entities',
      ({ a with components := others } : Assembler).Passes files raw merged bindings loaders'
        entities' ∧
      loaders.names.Perm loaders'.names ∧ entities.owners.Perm entities'.owners := by
  have hactive := activeComponents_perm hp
  obtain ⟨loaders', hloaders, hnames'⟩ := registerLoaders_perm hactive h.load
  obtain ⟨r, hr⟩ := h.resolve
  obtain ⟨entities', hentities, howners⟩ := registerEntities_perm hactive h.own
  have hkeys := EntityTable.keys_perm howners
  refine ⟨loaders', entities', ⟨?_, bindFetchers_perm hactive h.bind, hloaders,
    registerResolvers_perm hactive hr, hentities, ?_⟩, hnames', howners⟩
  · rw [Assembler.mergeTypes_perm hp hcontributors]
    exact h.merge
  · intro hneeds
    rw [← needsFederation_perm hkeys] at hneeds
    have hmerged := Assembler.wellNamed_mergeTypes htypes hcontributors h.merge
    exact exists_addFederationTypes_perm hmerged hkeys (h.federate hneeds)

theorem get?_foldl_put {α β : Type} (name : β → String) (v : α) (xs : List β) (t : Entries α)
    (key : String) : Entries.get? key (xs.foldl (fun t x => Entries.put (name x) v t) t) =
      if key ∈ xs.map name then some v else Entries.get? key t := by
  induction xs generalizing t with
  | nil => simp
  | cons x rest ih =>
    rw [List.foldl_cons, ih]
    by_cases hrest : key ∈ rest.map name
    · simp [hrest]
    · by_cases hkey : key = name x
      · simp [hkey, Entries.get?_put_self]
      · simp [hrest, hkey, Entries.get?_put_of_ne v t hkey]

theorem get?_instrumentationFlags_perm {bindings : List Binding} {entities others : EntityTable}
    (hp : entities.keys.Perm others.keys) (key : String) :
    (instrumentationFlags bindings entities).get? key =
      (instrumentationFlags bindings others).get? key := by
  simp only [instrumentationFlags, get?_foldl_put, (hp.map _).mem_iff]

theorem Assembler.Passes.unique {merged merged' : MergedTypes} {bindings bindings' : List Binding}
    {loaders loaders' : LoaderTable} {entities entities' : EntityTable}
    (h : a.Passes files raw merged bindings loaders entities)
    (h' : a.Passes files raw merged' bindings' loaders' entities') :
    bindings = bindings' ∧ loaders = loaders' ∧ entities = entities' := by
  obtain rfl := Except.ok.inj (h.merge.symm.trans h'.merge)
  exact ⟨Except.ok.inj (h.bind.symm.trans h'.bind), Except.ok.inj (h.load.symm.trans h'.load),
    Except.ok.inj (h.own.symm.trans h'.own)⟩

/-- An assembly fails for a cause of the binding just if the types can be merged and the binding
fails so. -/
theorem Assembler.assemble_eq_error_iff {e : ConfigurationError} (he : e.ofBinding = true)
    (hcontributors : ∀ c ∈ a.components, c.hasContributors = false) :
    a.assemble files raw visibility = .error e ↔ ∃ merged, a.mergeTypes files raw = .ok merged ∧
      bindFetchers merged.types a.activeComponents = .error e := by
  have hnot : ∀ {α : Type} {x : Except ConfigurationError α}, FailsElsewhere x → x ≠ .error e := by
    intro α x hx heq
    rw [hx e heq] at he
    cases he
  constructor
  · intro h
    rcases Except.bind_eq_error.mp h with h | ⟨merged, hmerged, h⟩
    · exact absurd h (hnot (failsElsewhere_mergeTypes hcontributors))
    rcases Except.bind_eq_error.mp h with h | ⟨bindings, -, h⟩
    · exact ⟨merged, hmerged, h⟩
    refine absurd h (hnot ?_)
    refine .bind (failsElsewhere_registerLoaders _ _) fun loaders =>
      .bind (failsElsewhere_registerResolvers _ _ _) fun resolved =>
        .bind (failsElsewhere_registerEntities _) fun entities => ?_
    dsimp only
    split
    · exact .bind (failsElsewhere_addFederation _ _ _ _ _) fun _ => failsElsewhere_ok _
    · exact failsElsewhere_ok _
  · rintro ⟨merged, hmerged, h⟩
    exact Except.bind_eq_error.mpr (.inr ⟨merged, hmerged, Except.bind_eq_error.mpr (.inl h)⟩)

theorem Assembler.assemble_duplicate_perm {c : Coordinates} (hp : a.components.Perm others)
    (hcontributors : ∀ c ∈ a.components, c.hasContributors = false)
    (h : a.assemble files raw visibility = .error (.duplicateDataFetcher c)) :
    ({ a with components := others } : Assembler).assemble files raw visibility =
        .error (.duplicateDataFetcher c) ∧
      LeastDuplicate (definitionsOf a.activeComponents) c := by
  obtain ⟨merged, hmerged, hbind⟩ := (Assembler.assemble_eq_error_iff rfl hcontributors).mp h
  obtain ⟨hbind', hleast⟩ := bindFetchers_duplicate_perm (activeComponents_perm hp) hbind
  refine ⟨(Assembler.assemble_eq_error_iff rfl ?_).mpr ⟨merged, ?_, hbind'⟩, hleast⟩
  · exact fun c hc => hcontributors c (hp.mem_iff.mpr hc)
  · rw [Assembler.mergeTypes_perm hp hcontributors, hmerged]

theorem Assembler.assemble_missing_perm (hp : a.components.Perm others)
    (hcontributors : ∀ c ∈ a.components, c.hasContributors = false)
    (h : ∃ parent owner handler, a.assemble files raw visibility =
      .error (.missingParentType parent owner handler)) :
    ∃ parent owner handler, ({ a with components := others } : Assembler).assemble files raw
      visibility = .error (.missingParentType parent owner handler) := by
  obtain ⟨parent, owner, handler, h⟩ := h
  obtain ⟨merged, hmerged, hbind⟩ := (Assembler.assemble_eq_error_iff rfl hcontributors).mp h
  obtain ⟨parent', owner', handler', hbind'⟩ :=
    bindFetchers_missing_perm (activeComponents_perm hp) hbind
  refine ⟨parent', owner', handler',
    (Assembler.assemble_eq_error_iff rfl ?_).mpr ⟨merged, ?_, hbind'⟩⟩
  · exact fun c hc => hcontributors c (hp.mem_iff.mpr hc)
  · rw [Assembler.mergeTypes_perm hp hcontributors, hmerged]

/-- Assembly does not depend on the order in which components without contributors are found. It
succeeds for all orders or for none; the snapshots then have the same bindings and flags, and the
same loaders and entities with their owners. If coordinates are declared twice, the least of them
are reported in every order; a type that is not there is reported in every order or in none. -/
theorem Assembler.assemble_perm (a : Assembler) (preset : Option NamedTypes) (files : FileTree)
    (raw : Option String) (visibility : Visibility) {others : List Component}
    (hp : a.components.Perm others)
    (hcontributors : ∀ c ∈ a.components, c.hasContributors = false) :
    let first := a.startingFrom preset
    let second := ({ a with components := others } : Assembler).startingFrom preset
    ((∃ s, first.assemble files raw visibility = .ok s) ↔
        ∃ t, second.assemble files raw visibility = .ok t) ∧
      (∀ s t, first.assemble files raw visibility = .ok s →
        second.assemble files raw visibility = .ok t →
        s.bindings = t.bindings ∧
        (∀ key, s.instrumentation.get? key = t.instrumentation.get? key) ∧
        s.loaders.names.Perm t.loaders.names ∧ s.entities.owners.Perm t.entities.owners) ∧
      (∀ c, (first.assemble files raw visibility = .error (.duplicateDataFetcher c) ↔
          second.assemble files raw visibility = .error (.duplicateDataFetcher c)) ∧
        (first.assemble files raw visibility = .error (.duplicateDataFetcher c) →
          LeastDuplicate (definitionsOf a.activeComponents) c)) ∧
      ((∃ parent owner handler, first.assemble files raw visibility =
          .error (.missingParentType parent owner handler)) ↔
        ∃ parent owner handler, second.assemble files raw visibility =
          .error (.missingParentType parent owner handler)) := by
  intro first second
  have hback : ∀ c ∈ second.components, c.hasContributors = false := fun c hc =>
    hcontributors c (hp.mem_iff.mpr hc)
  have hp : first.components.Perm second.components := hp
  have htypes := a.wellNamed_startingFrom preset
  refine ⟨⟨?_, ?_⟩, ?_, fun c => ⟨⟨?_, ?_⟩, ?_⟩, ?_, ?_⟩
  · rintro ⟨s, hs⟩
    obtain ⟨⟨merged, h⟩, -⟩ := Assembler.passes_of_assemble hs
    obtain ⟨_, _, h', -⟩ := h.perm hp hcontributors htypes
    exact h'.exists_assemble visibility
  · rintro ⟨t, ht⟩
    obtain ⟨⟨merged, h⟩, -⟩ := Assembler.passes_of_assemble ht
    obtain ⟨_, _, h', -⟩ := h.perm hp.symm hback htypes
    exact h'.exists_assemble visibility
  · intro s t hs ht
    obtain ⟨⟨merged, h⟩, hflags⟩ := Assembler.passes_of_assemble hs
    obtain ⟨⟨merged', h'⟩, hflags'⟩ := Assembler.passes_of_assemble ht
    obtain ⟨loaders, entities, hpasses, hloaders, howners⟩ := h.perm hp hcontributors htypes
    obtain ⟨hbindings, rfl, rfl⟩ := hpasses.unique h'
    refine ⟨hbindings, fun key => ?_, hloaders, howners⟩
    have hkeys := EntityTable.keys_perm howners
    rw [hflags, hflags', hbindings, get?_instrumentationFlags_perm hkeys]
  · exact fun h => (Assembler.assemble_duplicate_perm hp hcontributors h).1
  · exact fun h => (Assembler.assemble_duplicate_perm hp.symm hback h).1
  · exact fun h => (Assembler.assemble_duplicate_perm hp hcontributors h).2
  · exact Assembler.assemble_missing_perm hp hcontributors
  · exact Assembler.assemble_missing_perm hp.symm hback

def exampleComponent (name field loader entity : String) : Component where
  name := name
  fetchers := [⟨"Query", none, ⟨0, name, field, [], .sync, fun _ => .ok (.value .null)⟩, none⟩]
  entities := [(entity, .representation fun _ => .ok (.value .null))]
  loaders := [(.component,
    { name := loader, batch := ⟨fun _ keys => .done (.ok keys), false, ""⟩ })]

/-- Types that take part in a federation already, but for the union of their entities. -/
def exampleTypes : TypeRegistry :=
  TypeRegistry.initial.declare
    [⟨⟨"Book", none, [], .object [] []⟩, "catalogue"⟩,
      ⟨⟨"Shelf", none, [], .object [] []⟩, "catalogue"⟩,
      ⟨⟨"_FieldSet", none, [], .scalar⟩, "catalogue"⟩,
      ⟨⟨"_Any", none, [], .scalar⟩, "catalogue"⟩,
      ⟨⟨"_Service", none, [], .object serviceFields []⟩, "catalogue"⟩]
    federationDirectiveDefs

/-- A shop and a library assemble in both orders, to the same bindings, loaders and entities; two
shops for one field are refused in both orders, with the field that both declare. -/
theorem Assembler.assemble_perm_shop_library :
    let shop := exampleComponent "shop" "title" "books" "Book"
    let second := exampleComponent "second" "title" "films" "Shelf"
    let library := exampleComponent "library" "shelf" "shelves" "Shelf"
    let text := "type Query \x7b title: ID shelf: ID \x7d"
    let assemble (components : List Component) : Except ConfigurationError Snapshot :=
      ({ components, types := some exampleTypes,
         settings := { extensions := { validation := false } } } : Assembler).assemble .empty
        (some text) .all
    (∃ s t, assemble [shop, library] = .ok s ∧ assemble [library, shop] = .ok t ∧
        s.bindings = t.bindings ∧ s.loaders.names.Perm t.loaders.names ∧
        s.entities.owners.Perm t.entities.owners) ∧
      assemble [shop, second] = .error (.duplicateDataFetcher ⟨"Query", "title"⟩) ∧
      assemble [second, shop] = .error (.duplicateDataFetcher ⟨"Query", "title"⟩) := by
  intro shop second library text assemble
  let preset : NamedTypes := ⟨exampleTypes, by unfold TypeRegistry.WellNamed; decide +kernel⟩
  let settings : Settings := { extensions := { validation := false } }
  obtain ⟨hok, hsame, -⟩ := Assembler.assemble_perm
    { components := [shop, library], settings } (some preset) .empty (some text) .all
    (.swap library shop []) (by decide)
  obtain ⟨-, -, hduplicate, -⟩ := Assembler.assemble_perm
    { components := [shop, second], settings } (some preset) .empty (some text) .all
    (.swap second shop []) (by decide)
  have hassembles : Except.isOk (assemble [shop, library]) = true := by decide +kernel
  have hrefused : (match assemble [shop, second] with
      | .ok _ => none
      | .error e => some e) = some (.duplicateDataFetcher ⟨"Query", "title"⟩) := by
    decide +kernel
  refine ⟨?_, ?_⟩
  · cases hs : assemble [shop, library] with
    | error e =>
      rw [hs] at hassembles
      cases hassembles
    | ok s =>
      obtain ⟨t, ht⟩ := hok.mp ⟨s, hs⟩
      obtain ⟨hbindings, -, hloaders, howners⟩ := hsame s t hs ht
      exact ⟨s, t, rfl, ht, hbindings, hloaders, howners⟩
  · cases hs : assemble [shop, second] with
    | ok s =>
      rw [hs] at hrefused
      cases hrefused
    | error e =>
      rw [hs] at hrefused
      obtain rfl := Option.some.inj hrefused
      exact ⟨rfl, (hduplicate _).1.mp hs⟩

end Passes

end SchemaAssembly
