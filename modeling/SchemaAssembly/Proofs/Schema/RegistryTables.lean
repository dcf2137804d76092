import SchemaAssembly.Federation.Types
import SchemaAssembly.Proofs.Assembly.Registering
import SchemaAssembly.Proofs.Schema.JoinedRegistries

/-!
Registries as tables kept apart: definitions by name, directives by name, and origins by name. What
looks for a name that is taken asks the origins, everything else asks the definitions, so each
change must keep the two in step, also where it stops halfway. All changes do what the changes of
a registry do, in which a definition and its origin cannot come apart.
-/

set_option autoImplicit false

namespace SchemaAssembly

structure RegistryTables where
  types : Entries TypeDef
  directives : Entries DirectiveDef
  origins : Entries String
  roots : RootTypes
  sources : List String

/-- What a change of tables gives: the tables it leaves, and the cause if it failed. -/
structure TableStep where
  tables : RegistryTables
  failure : Option ConfigurationError

namespace TableStep

def done (t : RegistryTables) : TableStep := ⟨t, none⟩

def andThen (s : TableStep) (next : RegistryTables → TableStep) : TableStep :=
  match s.failure with
  | none => next s.tables
  | some _ => s

def all {α : Type} (step : RegistryTables → α → TableStep) : RegistryTables → List α → TableStep
  | t, [] => .done t
  | t, a :: rest => (step t a).andThen fun u => all step u rest

end TableStep

namespace RegistryTables

def initial : RegistryTables where
  types := builtinScalars.map fun n => (n, (builtinScalar n).definition)
  directives := []
  origins := builtinScalars.map fun n => (n, builtinOrigin)
  roots := .standard
  sources := []

def contains (t : RegistryTables) (name : String) : Bool := t.types.contains name

def registry (t : RegistryTables) : TypeRegistry where
  declared := t.types.map fun p => ⟨p.2, (t.origins.get? p.1).getD ""⟩
  directives := t.directives.values
  roots := t.roots
  sources := t.sources

def addType (t : RegistryTables) (origin : String) (definition : TypeDef) : TableStep :=
  match t.origins.get? definition.name with
  | some first => ⟨t, some (.duplicateType definition.name first origin)⟩
  | none =>
    .done { t with
      origins := t.origins.put definition.name origin
      types := t.types.put definition.name definition }

def addDirective (t : RegistryTables) (definition : DirectiveDef) : TableStep :=
  if t.directives.contains definition.name then ⟨t, some (.duplicateDirective definition.name)⟩
  else .done { t with directives := t.directives.put definition.name definition }

def extendType (t : RegistryTables) (origin : String) (extension : TypeDef) : TableStep :=
  match t.types.get? extension.name with
  | none => ⟨t, some (.extensionOfUnknownType extension.name origin)⟩
  | some base =>
    match base.body.extend? extension.body with
    | some body =>
      .done { t with
        types := t.types.put extension.name { base with
          directives := base.directives ++ extension.directives, body := body } }
    | none =>
      ⟨t, some (.invalidFragment origin
        (.invalidExtension ("cannot extend " ++ base.keyword ++ " `" ++ extension.name ++
          "` with a " ++ extension.keyword ++ " extension")) ⟨0, 0⟩)⟩

/-- Takes over types, each with what the remaining origins have for it, which it uses up. -/
def takeTypes : RegistryTables → Entries String → Entries TypeDef → TableStep
  | t, _, [] => .done t
  | t, origins, (name, definition) :: rest =>
    let origin := (origins.get? name).getD ""
    let left := origins.erase name
    if origin = builtinOrigin ∧ t.contains name then takeTypes t left rest
    else (t.addType origin definition).andThen fun u => takeTypes u left rest

def merge (t other : RegistryTables) : TableStep :=
  ((t.takeTypes other.origins other.types).andThen fun u =>
    TableStep.all addDirective u other.directives.values).andThen fun u =>
      .done { u with
        roots := if other.roots = .standard then u.roots else other.roots
        sources := u.sources ++ other.sources }

def addBase (origin : String) (t : RegistryTables) : Sdl.Definition → TableStep
  | .type d => t.addType origin d
  | .directive d => t.addDirective d
  | _ => .done t

def addExtension (origin : String) (t : RegistryTables) : Sdl.Definition → TableStep
  | .extension d => t.extendType origin d
  | _ => .done t

def addFragment (t : RegistryTables) (f : Fragment) : TableStep :=
  (TableStep.all (addBase f.name) t f.definitions).andThen fun u =>
    .done { u with sources := u.sources ++ [f.source] }

def extendByFragment (t : RegistryTables) (f : Fragment) : TableStep :=
  TableStep.all (addExtension f.name) t f.definitions

def applyRoots (t : RegistryTables) (roots : Sdl.NamedRoots) : RegistryTables :=
  if roots.query.isSome || roots.mutation.isSome || roots.subscription.isSome then
    { t with roots := ⟨roots.query.getD RootTypes.standard.query,
      roots.mutation.getD RootTypes.standard.mutation,
      roots.subscription.getD RootTypes.standard.subscription⟩ }
  else t

def mergeFragments (t : RegistryTables) (fragments : List Fragment) : TableStep :=
  ((TableStep.all addFragment t fragments).andThen fun u =>
    TableStep.all extendByFragment u fragments).andThen fun u =>
      .done (u.applyRoots (namedRoots fragments))

def addFederationTypes (t : RegistryTables) (entities : EntityTable) : TableStep :=
  match Fragment.parse federationOrigin
      (federationSdl t.registry (entityMembers t.registry entities)) with
  | .error e => ⟨t, some e⟩
  | .ok fragment => t.mergeFragments [fragment]

end RegistryTables

def TypeRegistry.tables (r : TypeRegistry) : RegistryTables where
  types := r.declared.map fun d => (d.name, d.definition)
  directives := r.directives.map fun d => (d.name, d)
  origins := r.declared.map fun d => (d.name, d.origin)
  roots := r.roots
  sources := r.sources

def Registration.tables (s : Registration) : TableStep := ⟨s.registry.tables, s.failure⟩

/-- No two types, and no two directives, have one name. -/
structure TypeRegistry.Keyed (r : TypeRegistry) : Prop where
  types : r.names.Nodup
  directives : r.directiveNames.Nodup

section Reads

variable {α : Type} {r : TypeRegistry} {n : String}

theorem get?_map_keyed {β : Type} (key : β → String) (value : β → α) (xs : List β) (n : String) :
    Entries.get? n (xs.map fun x => (key x, value x)) =
      (xs.find? fun x => key x == n).map value := by
  induction xs with
  | nil => rfl
  | cons x rest ih => by_cases hx : key x = n <;> simp [Entries.get?, hx, ih]

namespace TypeRegistry

@[simp] theorem get?_types_tables (r : TypeRegistry) (n : String) :
    r.tables.types.get? n = r.get? n :=
  get?_map_keyed Declared.name (·.definition) r.declared n

@[simp] theorem get?_origins_tables (r : TypeRegistry) (n : String) :
    r.tables.origins.get? n = r.origin? n :=
  get?_map_keyed Declared.name (·.origin) r.declared n

@[simp] theorem get?_directives_tables (r : TypeRegistry) (n : String) :
    r.tables.directives.get? n = r.directive? n :=
  (get?_map_keyed DirectiveDef.name id r.directives n).trans (congrFun Option.map_id _)

@[simp] theorem contains_tables (r : TypeRegistry) (n : String) :
    r.tables.contains n = r.contains n := by
  simp [RegistryTables.contains, Entries.contains, contains, get?]

theorem keys_types_tables (r : TypeRegistry) : r.tables.types.keys = r.names := by
  simp [tables, Entries.keys, names_eq]

theorem keys_origins_tables (r : TypeRegistry) : r.tables.origins.keys = r.names := by
  simp [tables, Entries.keys, names_eq]

theorem keys_directives_tables (r : TypeRegistry) :
    r.tables.directives.keys = r.directiveNames := by
  simp [tables, Entries.keys, directiveNames]

/-- Nothing is lost in the tables of a registry. -/
theorem registry_tables (h : r.names.Nodup) : r.tables.registry = r := by
  have hdeclared : r.tables.registry.declared = r.declared := by
    simp only [RegistryTables.registry, get?_origins_tables]
    simp only [tables, List.map_map]
    conv_rhs => rw [← List.map_id r.declared]
    refine List.map_congr_left fun x hx => ?_
    simp [origin?, entry?_of_mem h hx]
  have hdirectives : r.tables.registry.directives = r.directives := by
    simp [RegistryTables.registry, tables, Entries.values, Function.comp_def]
  calc r.tables.registry
      = ⟨r.tables.registry.declared, r.tables.registry.directives, r.roots, r.sources⟩ := rfl
    _ = r := by rw [hdeclared, hdirectives]

end TypeRegistry

end Reads

namespace TypeRegistry

variable {r s : TypeRegistry} {n : String}

def Kept (r s : TypeRegistry) : Prop :=
  ∀ n x, r.entry? n = some x →
    ∃ y, s.entry? n = some y ∧ y.definition.keyword = x.definition.keyword ∧ y.origin = x.origin

theorem Kept.refl (r : TypeRegistry) : r.Kept r := fun _ x hx => ⟨x, hx, rfl, rfl⟩

theorem Kept.trans {q : TypeRegistry} (h : q.Kept r) (h' : r.Kept s) : q.Kept s := by
  intro n x hx
  obtain ⟨y, hy, hkind, horigin⟩ := h n x hx
  obtain ⟨z, hz, hkind', horigin'⟩ := h' n y hy
  exact ⟨z, hz, hkind'.trans hkind, horigin'.trans horigin⟩

/-- A change of tables does what a change of the registry does, which keeps names apart and types
as they are. -/
structure Mirrors (r : TypeRegistry) (x : TableStep) (y : Registration) : Prop where
  same : x = y.tables
  keyed : y.registry.Keyed
  kept : r.Kept y.registry

variable {x : TableStep} {y : Registration} {f : RegistryTables → TableStep}
  {g : TypeRegistry → Registration}

theorem Keyed.mirrors_done (h : r.Keyed) : r.Mirrors (.done r.tables) (.done r) :=
  ⟨rfl, h, .refl r⟩

/-- Roots and sources bear on no name. -/
theorem Keyed.mirrors_aside (h : r.Keyed) (roots : RootTypes) (sources : List String) :
    r.Mirrors (.done { r.tables with roots := roots, sources := sources })
      (.done { r with roots := roots, sources := sources }) :=
  ⟨rfl, ⟨h.types, h.directives⟩, .refl r⟩

theorem Keyed.mirrors_refused (h : r.Keyed) (e : ConfigurationError) :
    r.Mirrors ⟨r.tables, some e⟩ ⟨r, some e⟩ :=
  ⟨rfl, h, .refl r⟩

theorem Mirrors.andThen (h : r.Mirrors x y)
    (hnext : ∀ s : TypeRegistry, s.Keyed → s.Mirrors (f s.tables) (g s)) :
    r.Mirrors (x.andThen f) (y.andThen g) := by
  obtain ⟨s, failure⟩ := y
  obtain ⟨rfl, hkeyed, hkept⟩ := h
  cases failure with
  | some e => exact ⟨rfl, hkeyed, hkept⟩
  | none =>
    obtain ⟨hsame, hkeyed', hkept'⟩ := hnext s hkeyed
    exact ⟨hsame, hkeyed', hkept.trans hkept'⟩

theorem Keyed.mirrors_all {α : Type} {f : RegistryTables → α → TableStep}
    {g : TypeRegistry → α → Registration}
    (hstep : ∀ (s : TypeRegistry) (a : α), s.Keyed → s.Mirrors (f s.tables a) (g s a))
    (xs : List α) (h : r.Keyed) : r.Mirrors (TableStep.all f r.tables xs) (registerAll g r xs) := by
  induction xs generalizing r with
  | nil => exact h.mirrors_done
  | cons a rest ih => exact (hstep r a h).andThen fun s hs => ih hs

theorem kept_declare (r : TypeRegistry) (ts : List Declared) (us : List DirectiveDef) :
    r.Kept (r.declare ts us) := by
  intro n x hx
  refine ⟨x, ?_, rfl, rfl⟩
  unfold entry? at hx ⊢
  rw [declare, List.find?_append, hx, Option.some_or]

theorem nodup_append_of_fresh {old new : List String} (h : old.Nodup) (hnew : Fresh old new) :
    (old ++ new).Nodup := by
  have hfresh : Fresh [] (old ++ new) := fresh_append.mpr ⟨⟨h, by simp⟩, hnew⟩
  exact hfresh.1

theorem Keyed.declare (h : r.Keyed) {ts : List Declared} {us : List DirectiveDef}
    (hnew : r.Accepts ts us) : (r.declare ts us).Keyed where
  types := by
    rw [names_declare]
    exact nodup_append_of_fresh h.types hnew.1
  directives := by
    rw [directiveNames_declare]
    exact nodup_append_of_fresh h.directives hnew.2

theorem Keyed.mirrors_declare (h : r.Keyed) {ts : List Declared} {us : List DirectiveDef}
    (hnew : r.Accepts ts us) :
    r.Mirrors (.done (r.declare ts us).tables) (.done (r.declare ts us)) :=
  ⟨rfl, h.declare hnew, kept_declare r ts us⟩

theorem Keyed.mirrors_addType (h : r.Keyed) (origin : String) (d : TypeDef) :
    r.Mirrors (r.tables.addType origin d) (r.addType origin d) := by
  cases hentry : r.entry? d.name with
  | some first =>
    simpa [RegistryTables.addType, TypeRegistry.addType, origin?, hentry] using h.mirrors_refused _
  | none =>
    have hnew : d.name ∉ r.names := entry?_eq_none_iff.mp hentry
    have htypes : r.tables.types.put d.name d = r.tables.types ++ [(d.name, d)] :=
      Entries.put_of_notMem (keys_types_tables r ▸ hnew)
    have horigins : r.tables.origins.put d.name origin = r.tables.origins ++ [(d.name, origin)] :=
      Entries.put_of_notMem (keys_origins_tables r ▸ hnew)
    have htables : r.tables.addType origin d = .done (r.declare [⟨d, origin⟩] []).tables := by
      simp only [RegistryTables.addType, get?_origins_tables, origin?, hentry, Option.map_none,
        htypes, horigins]
      simp [tables, TypeRegistry.declare, Declared.name]
    rw [htables, addType_eq_done_iff.mpr ⟨hnew, rfl⟩]
    exact h.mirrors_declare ⟨fresh_singleton.mpr hnew, fresh_nil _⟩

theorem Keyed.mirrors_addDirective (h : r.Keyed) (d : DirectiveDef) :
    r.Mirrors (r.tables.addDirective d) (r.addDirective d) := by
  cases hfound : r.directive? d.name with
  | some first =>
    simpa [RegistryTables.addDirective, Entries.contains, TypeRegistry.addDirective, hfound] using
      h.mirrors_refused _
  | none =>
    have hnew : d.name ∉ r.directiveNames := directive?_eq_none_iff.mp hfound
    have hput : r.tables.directives.put d.name d = r.tables.directives ++ [(d.name, d)] :=
      Entries.put_of_notMem (keys_directives_tables r ▸ hnew)
    have htables : r.tables.addDirective d = .done (r.declare [] [d]).tables := by
      simp only [RegistryTables.addDirective, Entries.contains, get?_directives_tables, hfound,
        hput]
      simp [tables, TypeRegistry.declare]
    rw [htables, addDirective_eq_done_iff.mpr ⟨hnew, rfl⟩]
    exact h.mirrors_declare ⟨fresh_nil _, fresh_singleton.mpr hnew⟩

theorem put_types_tables (h : r.names.Nodup) {d : TypeDef} (hd : d.name ∈ r.names) :
    r.tables.types.put d.name d = (r.replace d).tables.types := by
  rw [names_eq] at h hd
  simp only [tables, replace]
  generalize r.declared = ds at h hd
  induction ds with
  | nil => cases hd
  | cons x rest ih =>
    rw [List.map_cons, List.nodup_cons] at h
    by_cases hx : x.name = d.name
    · have hrest : ∀ y ∈ rest, y.definition.name ≠ d.name := by
        intro y hy heq
        exact h.1 (List.mem_map.mpr ⟨y, hy, heq.trans hx.symm⟩)
      have hname : x.definition.name = d.name := hx
      simp only [List.map_cons, Entries.put, hx, hname, if_true, List.cons.injEq, List.map_map]
      refine ⟨rfl, List.map_congr_left fun y hy => ?_⟩
      simp [hrest y hy]
    · rw [List.map_cons, List.mem_cons] at hd
      have hname : ¬ x.definition.name = d.name := hx
      simp only [List.map_cons, Entries.put, hx, hname, if_false]
      rw [ih h.2 (hd.resolve_left (Ne.symm hx))]

theorem tables_replace (h : r.names.Nodup) {d : TypeDef} (hd : d.name ∈ r.names) :
    (r.replace d).tables = { r.tables with types := r.tables.types.put d.name d } := by
  have horigins : (r.replace d).tables.origins = r.tables.origins := by
    simp only [tables, replace, List.map_map]
    refine List.map_congr_left fun x _ => ?_
    by_cases hx : x.definition.name = d.name <;> simp [Declared.name, hx]
  calc (r.replace d).tables
      = { r.tables with
          types := (r.replace d).tables.types, origins := (r.replace d).tables.origins } := rfl
    _ = { r.tables with types := r.tables.types.put d.name d } := by
      rw [horigins, put_types_tables h hd]

theorem Keyed.extended (h : r.Keyed) (e : TypeDef) : (r.extended e).Keyed where
  types := by
    rw [names_extended]
    exact h.types
  directives := by
    rw [extended_eq]
    exact h.directives

theorem kept_extended (r : TypeRegistry) (e : TypeDef) : r.Kept (r.extended e) := by
  intro n x hx
  rw [entry?_extended, hx]
  by_cases hn : e.name = n <;> simp [hn]

theorem Keyed.mirrors_extendType (h : r.Keyed) (origin : String) (e : TypeDef) :
    r.Mirrors (r.tables.extendType origin e) (r.extendType origin e) := by
  cases hget : r.get? e.name with
  | none =>
    simpa [RegistryTables.extendType, TypeRegistry.extendType, hget] using h.mirrors_refused _
  | some base =>
    cases hbody : base.body.extend? e.body with
    | none =>
      simpa [RegistryTables.extendType, TypeRegistry.extendType, hget, hbody] using
        h.mirrors_refused _
    | some body =>
      have hname : (base.extended e).name = e.name := by
        rw [TypeDef.name_extended, name_of_get? hget]
      have hbase : base.extended e = { base with
          directives := base.directives ++ e.directives, body := body } := by
        simp [TypeDef.extended, hbody]
      have hextended : r.extended e = r.replace (base.extended e) := by
        simp [TypeRegistry.extended, hget]
      have hstep : r.extendType origin e = .done (r.extended e) := by
        simp [TypeRegistry.extendType, hget, hbody, hextended, hbase]
      have htables : r.tables.extendType origin e = .done (r.extended e).tables := by
        have hthere : (base.extended e).name ∈ r.names := hname ▸ mem_names_of_get? hget
        rw [hextended, tables_replace h.types hthere, hname, hbase]
        simp [RegistryTables.extendType, hget, hbody]
      rw [htables, hstep]
      exact ⟨rfl, h.extended e, kept_extended r e⟩

/-- Taking over the types of a registry uses up its origins one by one. -/
theorem Keyed.mirrors_takeTypes (h : r.Keyed) (ds : List Declared) :
    r.Mirrors (r.tables.takeTypes (ds.map fun d => (d.name, d.origin))
      (ds.map fun d => (d.name, d.definition))) (registerAll addShared r ds) := by
  induction ds generalizing r with
  | nil => exact h.mirrors_done
  | cons d rest ih =>
    simp only [List.map_cons, RegistryTables.takeTypes, Entries.get?, Entries.erase, if_true,
      Option.getD_some, contains_tables, registerAll, addShared, Declared.name]
    by_cases hshared : d.origin = builtinOrigin ∧ r.contains d.definition.name = true
    · rw [if_pos hshared, if_pos hshared]
      exact ih h
    · rw [if_neg hshared, if_neg hshared]
      exact (h.mirrors_addType d.origin d.definition).andThen fun s hs => ih hs

theorem Keyed.mirrors_merge (h : r.Keyed) (other : TypeRegistry) :
    r.Mirrors (r.tables.merge other.tables) (r.merge other) := by
  have hdirectives : other.tables.directives.values = other.directives := by
    simp [tables, Entries.values, Function.comp_def]
  have hentered : ∀ s : TypeRegistry, s.Keyed →
      s.Mirrors (TableStep.all RegistryTables.addDirective s.tables other.directives)
        (registerAll addDirective s other.directives) := fun s hs =>
    hs.mirrors_all (fun s d hs => hs.mirrors_addDirective d) other.directives
  rw [RegistryTables.merge, hdirectives, TypeRegistry.merge]
  apply Mirrors.andThen
  · apply Mirrors.andThen (h.mirrors_takeTypes other.declared)
    exact hentered
  · exact fun s hs => hs.mirrors_aside _ _

theorem Keyed.mirrors_addBase (h : r.Keyed) (origin : String) (x : Sdl.Definition) :
    r.Mirrors (r.tables.addBase origin x) (r.addBase origin x) := by
  cases x with
  | type d => exact h.mirrors_addType origin d
  | directive d => exact h.mirrors_addDirective d
  | extension d => exact h.mirrors_done
  | roots q => exact h.mirrors_done

theorem Keyed.mirrors_addExtension (h : r.Keyed) (origin : String) (x : Sdl.Definition) :
    r.Mirrors (r.tables.addExtension origin x) (r.addExtension origin x) := by
  cases x with
  | extension d => exact h.mirrors_extendType origin d
  | type d => exact h.mirrors_done
  | directive d => exact h.mirrors_done
  | roots q => exact h.mirrors_done

theorem Keyed.mirrors_addFragment (h : r.Keyed) (f : Fragment) :
    r.Mirrors (r.tables.addFragment f) (r.addFragment f) :=
  (h.mirrors_all (fun _ x hs => hs.mirrors_addBase f.name x) f.definitions).andThen
    fun _ ht => ht.mirrors_aside _ _

theorem Keyed.mirrors_mergeFragments (h : r.Keyed) (fs : List Fragment) :
    r.Mirrors (r.tables.mergeFragments fs) (r.mergeFragments fs) := by
  have hextended : ∀ (s : TypeRegistry), s.Keyed →
      s.Mirrors (TableStep.all RegistryTables.extendByFragment s.tables fs)
        (registerAll extendByFragment s fs) := fun s hs =>
    hs.mirrors_all (fun _ f ht =>
      ht.mirrors_all (fun _ x hu => hu.mirrors_addExtension f.name x) f.definitions) fs
  rw [RegistryTables.mergeFragments, mergeFragments]
  apply Mirrors.andThen
  · apply Mirrors.andThen (h.mirrors_all (fun _ f hs => hs.mirrors_addFragment f) fs)
    exact hextended
  · intro s hs
    have hroots : s.tables.applyRoots (namedRoots fs) = (s.applyRoots (namedRoots fs)).tables := by
      unfold RegistryTables.applyRoots applyRoots
      split <;> rfl
    rw [hroots, applyRoots_eq]
    exact hs.mirrors_aside _ _

theorem Keyed.mirrors_addFederationTypes (h : r.Keyed) (entities : EntityTable) :
    r.Mirrors (r.tables.addFederationTypes entities) (addFederationTypes r entities) := by
  unfold RegistryTables.addFederationTypes SchemaAssembly.addFederationTypes
  rw [registry_tables h.types]
  generalize Fragment.parse federationOrigin (federationSdl r (entityMembers r entities)) = parsed
  cases parsed with
  | error e => exact h.mirrors_refused e
  | ok f => exact h.mirrors_mergeFragments [f]

end TypeRegistry

end SchemaAssembly
