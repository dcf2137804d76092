import SchemaAssembly.Proofs.Schema.RegistryTables

/-!
Registries by the calls that made them, calls that failed halfway among them. Whatever the calls
were, the tables of definitions and of origins have the same names.
-/

set_option autoImplicit false

namespace SchemaAssembly

/-- The calls by which a registry came about. What is merged in has calls of its own. -/
inductive RegistryHistory where
  | new
  | addType (h : RegistryHistory) (origin : String) (definition : TypeDef)
  | addDirective (h : RegistryHistory) (definition : DirectiveDef)
  | extendType (h : RegistryHistory) (origin : String) (extension : TypeDef)
  | merge (h other : RegistryHistory)
  | mergeFragments (h : RegistryHistory) (fragments : List Fragment)
  | addFederationTypes (h : RegistryHistory) (entities : EntityTable)

namespace RegistryHistory

def before : RegistryHistory → RegistryHistory
  | new => new
  | addType h _ _ | addDirective h _ | extendType h _ _ | merge h _ | mergeFragments h _
  | addFederationTypes h _ => h

/-- What the last call gives; the registry that a failing call leaves is used on. -/
def outcome : RegistryHistory → Registration
  | new => .done .initial
  | addType h origin d => h.outcome.registry.addType origin d
  | addDirective h d => h.outcome.registry.addDirective d
  | extendType h origin e => h.outcome.registry.extendType origin e
  | merge h other => h.outcome.registry.merge other.outcome.registry
  | mergeFragments h fs => h.outcome.registry.mergeFragments fs
  | addFederationTypes h entities => SchemaAssembly.addFederationTypes h.outcome.registry entities

def registry (h : RegistryHistory) : TypeRegistry := h.outcome.registry

def tableOutcome : RegistryHistory → TableStep
  | new => .done .initial
  | addType h origin d => h.tableOutcome.tables.addType origin d
  | addDirective h d => h.tableOutcome.tables.addDirective d
  | extendType h origin e => h.tableOutcome.tables.extendType origin e
  | merge h other => h.tableOutcome.tables.merge other.tableOutcome.tables
  | mergeFragments h fs => h.tableOutcome.tables.mergeFragments fs
  | addFederationTypes h entities => h.tableOutcome.tables.addFederationTypes entities

def tables (h : RegistryHistory) : RegistryTables := h.tableOutcome.tables

end RegistryHistory

namespace RegistryTables

variable {t : RegistryTables} {r s : TypeRegistry}

/-- Definitions and origins are there for the same names, each definition is entered under its own
name, and the built-in scalars are there. -/
structure InStep (t : RegistryTables) : Prop where
  types : t.types.keys.Nodup
  directives : t.directives.keys.Nodup
  origins : t.origins.keys.Nodup
  sameNames : ∀ n, n ∈ t.types.keys ↔ n ∈ t.origins.keys
  ownNames : ∀ p ∈ t.types, p.2.name = p.1
  ownDirectiveNames : ∀ p ∈ t.directives, p.2.name = p.1
  builtin : ∀ n ∈ builtinScalars, (∃ d, t.types.get? n = some d ∧ d.body = .scalar) ∧
    t.origins.get? n = some builtinOrigin

/-- All types are still there, of their kinds and with their origins. -/
def Kept (t u : RegistryTables) : Prop :=
  ∀ n d, t.types.get? n = some d →
    (∃ d', u.types.get? n = some d' ∧ d'.keyword = d.keyword) ∧
      u.origins.get? n = t.origins.get? n

theorem kept_tables (h : r.Kept s) : r.tables.Kept s.tables := by
  intro n d hd
  rw [TypeRegistry.get?_types_tables] at hd
  obtain ⟨x, hx, rfl⟩ := Option.map_eq_some_iff.mp hd
  obtain ⟨y, hy, hkind, horigin⟩ := h n x hx
  simp [TypeRegistry.get?, TypeRegistry.origin?, hx, hy, hkind, horigin]

/-- The tables of a registry are in step where names tell apart what is in it. -/
theorem inStep_tables (h : r.Keyed) (hbuiltin : TypeRegistry.initial.Kept r) : r.tables.InStep where
  types := by
    rw [TypeRegistry.keys_types_tables]
    exact h.types
  directives := by
    rw [TypeRegistry.keys_directives_tables]
    exact h.directives
  origins := by
    rw [TypeRegistry.keys_origins_tables]
    exact h.types
  sameNames n := by rw [TypeRegistry.keys_types_tables, TypeRegistry.keys_origins_tables]
  ownNames := by simp [TypeRegistry.tables, Declared.name]
  ownDirectiveNames := by simp [TypeRegistry.tables]
  builtin n hn := by
    have hinitial : TypeRegistry.initial.entry? n = some (builtinScalar n) :=
      TypeRegistry.entry?_of_mem TypeRegistry.nodup_names_initial (List.mem_map_of_mem hn)
    obtain ⟨y, hy, hkind, horigin⟩ := hbuiltin n _ hinitial
    have hbody : y.definition.body = .scalar := TypeRegistry.body_eq_scalar_of_keyword hkind
    simp [TypeRegistry.get?, TypeRegistry.origin?, hy, hbody, horigin, builtinScalar]

theorem InStep.isSome_failure_addType (h : t.InStep) (origin : String) (d : TypeDef) :
    (t.addType origin d).failure.isSome = t.contains d.name := by
  have hsame : t.origins.get? d.name = none ↔ t.types.get? d.name = none := by
    rw [Entries.get?_eq_none_iff, Entries.get?_eq_none_iff, h.sameNames]
  rw [addType, contains, Entries.contains]
  cases horigin : t.origins.get? d.name with
  | none => simp [hsame.mp horigin, TableStep.done]
  | some first =>
    have hthere : t.types.get? d.name ≠ none := fun hnone => by simp [hsame.mpr hnone] at horigin
    simp [Option.isSome_iff_ne_none, hthere]

end RegistryTables

namespace RegistryHistory

open TypeRegistry

theorem keyed_initial : initial.Keyed := ⟨nodup_names_initial, .nil⟩

/-- The last call does the same to the tables and to the registry, from what there was before. -/
theorem mirrors (h : RegistryHistory) :
    h.before.registry.Mirrors h.tableOutcome h.outcome := by
  induction h with
  | new => exact ⟨by rfl, keyed_initial, .refl _⟩
  | addType h origin d ih =>
    rw [tableOutcome, ih.same]
    exact ih.keyed.mirrors_addType origin d
  | addDirective h d ih =>
    rw [tableOutcome, ih.same]
    exact ih.keyed.mirrors_addDirective d
  | extendType h origin e ih =>
    rw [tableOutcome, ih.same]
    exact ih.keyed.mirrors_extendType origin e
  | merge h other ih ih' =>
    rw [tableOutcome, ih.same, ih'.same]
    exact ih.keyed.mirrors_merge other.registry
  | mergeFragments h fs ih =>
    rw [tableOutcome, ih.same]
    exact ih.keyed.mirrors_mergeFragments fs
  | addFederationTypes h entities ih =>
    rw [tableOutcome, ih.same]
    exact ih.keyed.mirrors_addFederationTypes entities

theorem tables_eq (h : RegistryHistory) : h.tables = h.registry.tables :=
  congrArg TableStep.tables h.mirrors.same

theorem kept_initial (h : RegistryHistory) : initial.Kept h.registry := by
  induction h with
  | new => exact .refl _
  | addType h origin d ih => exact ih.trans (mirrors (.addType h origin d)).kept
  | addDirective h d ih => exact ih.trans (mirrors (.addDirective h d)).kept
  | extendType h origin e ih => exact ih.trans (mirrors (.extendType h origin e)).kept
  | merge h other ih _ => exact ih.trans (mirrors (.merge h other)).kept
  | mergeFragments h fs ih => exact ih.trans (mirrors (.mergeFragments h fs)).kept
  | addFederationTypes h entities ih =>
    exact ih.trans (mirrors (.addFederationTypes h entities)).kept

/-- Tables stay in step. Whatever calls made a registry, failing ones among them, the tables kept
apart hold what the registry holds and fail as it does; definitions and origins have the same names,
and no call takes away a type or changes its kind or its origin. So a type is refused just if its
name is known, and possible types are object types that are there. -/
theorem inStep (h : RegistryHistory) :
    h.tableOutcome = h.outcome.tables ∧ h.tables.InStep ∧ h.before.tables.Kept h.tables ∧
    (∀ origin d, (h.tables.addType origin d).failure.isSome = h.tables.contains d.name ∧
      (h.registry.addType origin d).failure.isSome = h.registry.contains d.name) ∧
    ∀ T n, n ∈ h.registry.implementations T ∨ n ∈ h.registry.possibleTypes T →
      ∃ d, h.tables.types.get? n = some d ∧ d.isObject = true := by
  have hkeyed : h.registry.Keyed := h.mirrors.keyed
  have hstep : h.tables.InStep := by
    rw [tables_eq]
    exact RegistryTables.inStep_tables hkeyed h.kept_initial
  have hkept : h.before.tables.Kept h.tables := by
    rw [tables_eq, tables_eq]
    exact RegistryTables.kept_tables h.mirrors.kept
  refine ⟨h.mirrors.same, hstep, hkept, fun origin d => ⟨hstep.isSome_failure_addType origin d, ?_⟩,
    fun T n hn => ?_⟩
  · have hrefused := hstep.isSome_failure_addType origin d
    rw [tables_eq, (hkeyed.mirrors_addType origin d).same, contains_tables] at hrefused
    exact hrefused
  · rw [tables_eq, get?_types_tables]
    rcases hn with hn | hn
    · exact isObject_of_mem_implementations hkeyed.types hn
    · exact isObject_of_mem_possibleTypes hkeyed.types hn

/-- A merge that meets a known name has taken over what came before it, and its origin. -/
example :
    let scalar (n : String) : TypeDef := ⟨n, none, [], .scalar⟩
    let other := ((new.addType "b" (scalar "Book")).addType "b" (scalar "Shelf")).addType "b"
      (scalar "Zine")
    ((new.addType "a" (scalar "Shelf")).merge other).tables.origins =
      builtinScalars.map (fun n => (n, builtinOrigin)) ++ [("Shelf", "a"), ("Book", "b")] := by
  decide +kernel

end RegistryHistory

end SchemaAssembly
