import SchemaAssembly.Proofs.Federation.SdlText
import SchemaAssembly.Proofs.Schema.Merging

/-!
The order of entities. Whether the federation types can be added depends on the entities as a set:
fragments that differ in the parts of their types only can be merged together or not at all.
-/

set_option autoImplicit false

namespace SchemaAssembly

/-- What conflicts and extensions depend on: the name of a type and its kind. -/
def Declared.outline (d : Declared) : String × String := (d.name, d.definition.keyword)

/-- Two fragments that differ in the parts of types only. -/
structure Fragment.SameOutline (f g : Fragment) : Prop where
  types : (baseTypes [f]).map Declared.outline = (baseTypes [g]).map Declared.outline
  directives : directiveDefs [f] = directiveDefs [g]
  extensions : extensions [f] = extensions [g]

namespace TypeRegistry

variable {r s : TypeRegistry} {e : TypeDef} {f g : Fragment}

theorem extends_iff : r.Extends e ↔
    ((r.declared.map Declared.outline).find? fun o => o.1 == e.name).map (·.2) =
      some e.keyword := by
  rw [Extends, get?, entry?, List.find?_map, Option.map_map]
  have hkey : ((fun o : String × String => o.1 == e.name) ∘ Declared.outline) =
      fun d : Declared => d.definition.name == e.name := rfl
  rw [hkey]
  cases r.declared.find? fun d => d.definition.name == e.name with
  | none => simp
  | some d => simp [Declared.outline]

theorem Mergeable.of_sameOutline (h : r.Mergeable [f]) (hs : f.SameOutline g) :
    r.Mergeable [g] := by
  have hnames : (baseTypes [f]).map Declared.name = (baseTypes [g]).map Declared.name := by
    have hfirst := congrArg (List.map Prod.fst) hs.types
    rwa [List.map_map, List.map_map] at hfirst
  have houtlines : (r.withBases [f]).declared.map Declared.outline =
      (r.withBases [g]).declared.map Declared.outline := by
    simp only [withBases, declare, List.map_append, hs.types]
  refine ⟨⟨hnames ▸ h.bases.1, hs.directives ▸ h.bases.2⟩, ?_⟩
  intro e he
  rw [extends_iff, ← houtlines, ← extends_iff]
  exact h.extendable e (hs.extensions ▸ he)

end TypeRegistry

section Entities

variable {r : TypeRegistry} {entities others : EntityTable}

theorem entityMembers_perm (hp : entities.keys.Perm others.keys) :
    (entityMembers r entities).Perm (entityMembers r others) :=
  appendNew_perm (.refl _) (hp.filter _)

theorem mem_names_of_mem_entityMembers {m : String} (h : m ∈ entityMembers r entities) :
    m ∈ r.names := by
  rcases mem_appendNew.mp h with h | h
  · obtain ⟨d, hd, rfl⟩ := List.mem_map.mp h
    exact List.mem_map_of_mem (List.mem_filter.mp hd).1
  · have hobject := (List.mem_filter.mp h).2
    rw [TypeRegistry.isObject] at hobject
    cases hget : r.get? m with
    | none => simp [hget] at hobject
    | some d => exact TypeRegistry.mem_names_of_get? hget

theorem needsFederation_perm (hp : entities.keys.Perm others.keys) :
    needsFederation r entities = needsFederation r others := by
  have hempty := hp.isEmpty_eq
  simp only [Entries.keys, List.isEmpty_map] at hempty
  rw [needsFederation, needsFederation, hempty]

theorem exists_addFederationTypes_iff : (∃ s, addFederationTypes r entities = .done s) ↔
    ∃ f, Fragment.parse federationOrigin (federationSdl r (entityMembers r entities)) = .ok f ∧
      r.Mergeable [f] := by
  unfold addFederationTypes
  generalize Fragment.parse federationOrigin (federationSdl r (entityMembers r entities)) = parsed
  cases parsed with
  | error e => simp [Registration.done]
  | ok f => simp [TypeRegistry.exists_mergeFragments_iff]

theorem sameOutline_of_entityLine {members ms : List String} {f g : Fragment}
    {lines : List (String × Sdl.Definition)} {last : List Sdl.Definition} (hp : members.Perm ms)
    (hname : f.name = g.name) (hf : f.definitions = (lines ++ entityLine members).map (·.2) ++ last)
    (hg : g.definitions = (lines ++ entityLine ms).map (·.2) ++ last) : f.SameOutline g := by
  cases members with
  | nil =>
    rw [← hp.nil_eq, ← hf] at hg
    constructor <;>
      simp only [baseTypes, directiveDefs, extensions, List.flatMap_singleton, hg, hname]
  | cons m members =>
    cases ms with
    | nil => exact absurd hp.eq_nil (List.cons_ne_nil _ _)
    | cons k ms =>
      constructor
      · simp [baseTypes, hf, hg, hname, entityLine, typesOf, Declared.outline, Declared.name,
          TypeDef.keyword, TypeBody.keyword]
      · simp [directiveDefs, hf, hg, entityLine, directivesOf]
      · simp [extensions, hf, hg, entityLine, extensionsOf]

/-- The federation types can be added for all orders of the entity fetchers or for none. -/
theorem exists_addFederationTypes_perm (hn : ∀ n ∈ r.names, Sdl.isName n = true)
    (hp : entities.keys.Perm others.keys)
    (h : ∃ s, addFederationTypes r entities = .done s) :
    ∃ s, addFederationTypes r others = .done s := by
  obtain ⟨f, hparse, hmerge⟩ := exists_addFederationTypes_iff.mp h
  have hmembers := entityMembers_perm (r := r) hp
  obtain ⟨g, hg, last, hfs, hgs⟩ := parse_federationSdl_perm hmembers
    (fun m hm => hn m (mem_names_of_mem_entityMembers hm)) hparse
  have hname : f.name = g.name :=
    (Fragment.parse_eq_ok_iff.mp hparse).1.trans (Fragment.parse_eq_ok_iff.mp hg).1.symm
  exact exists_addFederationTypes_iff.mpr
    ⟨g, hg, hmerge.of_sameOutline (sameOutline_of_entityLine hmembers hname hfs hgs)⟩

end Entities

end SchemaAssembly
