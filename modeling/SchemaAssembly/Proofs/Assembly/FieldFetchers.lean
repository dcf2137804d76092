import SchemaAssembly.Proofs.Assembly.Stages
import SchemaAssembly.Proofs.Federation.Guards
import SchemaAssembly.Proofs.Wiring.Calls

/-!
Which fetcher a field ends up with. The sources of fetchers have a fixed order, and what the first
of them gives is wrapped once by every wiring that applies.
-/

set_option autoImplicit false

namespace SchemaAssembly

theorem Except.exists_ok_of_any {ε α : Type} {x : Except ε α} {p : α → Bool}
    (h : x.toOption.any p = true) : ∃ a, x = .ok a ∧ p a = true := by
  cases x with
  | error e => cases h
  | ok a => exact ⟨a, rfl, h⟩

def Component.wiringCalls (c : Component) : List WiringCall :=
  c.scalars.map .addScalar ++ c.directives.map fun d => .addDirective d.1 d.2

def Component.globals (c : Component) : List DirectiveWiring :=
  (c.directives.filter fun d => isBlankText d.1).map (·.2)

namespace Assembler

variable {a : Assembler}

def registeredCalls (a : Assembler) : List WiringCall :=
  (ScalarType.extended a.settings.extensions.scalars).map .addScalar ++
    (if a.settings.extensions.validation then [.addDirective "" (.validation a.patterns)] else []) ++
    a.activeComponents.flatMap Component.wiringCalls

/-- What contributors do with the wiring. -/
def contributedCalls (a : Assembler) : List WiringCall :=
  callsFrom WiringCall.apply (a.registeredCalls.foldl WiringCall.apply {})
    (a.activeComponents.flatMap (·.wiringContributors))

def wiringCalls (a : Assembler) : List WiringCall := a.registeredCalls ++ a.contributedCalls

theorem wiring_eq (a : Assembler) : a.wiring = a.wiringCalls.foldl WiringCall.apply {} := by
  have hcomponents : ∀ w : RuntimeWiring, a.activeComponents.foldl
      (fun w c => c.directives.foldl (fun (w : RuntimeWiring) d => w.addDirective d.1 d.2)
        (c.scalars.foldl RuntimeWiring.addScalar w)) w =
      (a.activeComponents.flatMap Component.wiringCalls).foldl WiringCall.apply w := by
    intro w
    induction a.activeComponents generalizing w with
    | nil => rfl
    | cons c rest ih =>
      rw [List.foldl_cons, ih, List.flatMap_cons, List.foldl_append, Component.wiringCalls,
        List.foldl_append, List.foldl_map, List.foldl_map]
      rfl
  rw [wiring, wiringCalls, List.foldl_append, contributedCalls, foldl_callsFrom,
    registeredCalls, List.foldl_append, List.foldl_append, List.foldl_map, ← hcomponents]
  cases a.settings.extensions.validation <;> rfl

end Assembler

section Code

variable {types : TypeRegistry} {resolvers : List ArgumentResolver} {bindings : List Binding}
  {components : List Component} {r s : CodeRegistry} {c : Coordinates}

theorem nodup_coordinates (h : bindFetchers types components = .ok bindings) :
    (bindings.map (·.coordinates)).Nodup := by
  have hbindable := bindable_of_ok h
  rw [bindFetchers_of_bindable hbindable] at h
  cases h
  have hkeys : ((spread types (ordered (definitionsOf components))).map (·.2)).map
      (·.coordinates) = (spread types (ordered (definitionsOf components))).map (·.1) := by
    rw [List.map_map]
    exact List.map_congr_left fun p hp => (mem_spread hbindable.2 hp).1
  rw [hkeys, List.nodup_iff_pairwise_ne, List.pairwise_map]
  exact (sorted_spread types _).imp Coordinates.ne_of_before

/-- The fetcher of the handler that is bound at some coordinates. Copies of a handler share the
fetcher of the first one bound. -/
def handlerFetcher? (resolvers : List ArgumentResolver) (bindings : List Binding)
    (c : Coordinates) : Option Fetcher :=
  (bindings.find? fun b => b.coordinates = c).bind fun b =>
    (bindings.find? fun first => first.handler.id = b.handler.id).map fun first =>
      .ofHandler resolvers first.handler

theorem exists_first {b : Binding} (hb : b ∈ bindings) :
    ∃ first, (bindings.find? fun first => first.handler.id = b.handler.id) = some first := by
  rw [← Option.isSome_iff_exists, List.find?_isSome]
  exact ⟨b, hb, decide_eq_true rfl⟩

theorem isSome_handlerFetcher? (resolvers : List ArgumentResolver) {b : Binding}
    (hb : b ∈ bindings) : (handlerFetcher? resolvers bindings b.coordinates).isSome = true := by
  obtain ⟨x, hx⟩ : ∃ x, (bindings.find? fun x => x.coordinates = b.coordinates) = some x := by
    rw [← Option.isSome_iff_exists, List.find?_isSome]
    exact ⟨b, hb, decide_eq_true rfl⟩
  obtain ⟨first, hfirst⟩ := exists_first (List.mem_of_find?_eq_some hx)
  rw [handlerFetcher?, hx, Option.bind_some, hfirst]
  rfl

theorem bound?_bindAll (h : bindFetchers types components = .ok bindings) (c : Coordinates) :
    (bindAll resolvers bindings).bound? c = handlerFetcher? resolvers bindings c := by
  rw [bindAll, CodeRegistry.bound?_foldl_bind (nodup_coordinates h), handlerFetcher?]
  have hnone : CodeRegistry.bound? {} c = none := rfl
  rw [hnone, Option.or_none]
  cases hb : bindings.find? fun b => b.coordinates = c with
  | none => rfl
  | some b =>
    obtain ⟨first, hfirst⟩ := exists_first (List.mem_of_find?_eq_some hb)
    have hshared : (bindings.find? fun a => a.handler.id == b.handler.id) = some first := hfirst
    rw [Option.map_some, Option.bind_some, hfirst, Option.map_some, boundFetcher, hshared]
    rfl

theorem registerResolvers_keeps {α : Type} (look : CodeRegistry → α)
    (hlook : ∀ r name resolver, look (CodeRegistry.setResolver r name resolver) = look r)
    (h : registerResolvers types components r = .ok s) : look s = look r := by
  obtain ⟨step, heq, henters⟩ := registerResolvers_enters types
  rw [heq] at h
  obtain ⟨-, rfl⟩ := henters.foldlM_eq_ok_iff.mp h
  refine foldl_keeps look ?_ _ r
  exact fun r d => hlook r d.2.1 d.2.2

theorem defaultResolvers_keeps {α : Type} (look : CodeRegistry → α)
    (hlook : ∀ r name resolver, look (CodeRegistry.setResolver r name resolver) = look r)
    (types : TypeRegistry) (r : CodeRegistry) : look (defaultResolvers types r) = look r := by
  refine foldl_keeps look ?_ _ r
  intro r d
  split
  · rfl
  · exact hlook r d.name .standard

theorem bound?_start (hbind : bindFetchers types components = .ok bindings)
    (hresolve : registerResolvers types components (bindAll resolvers bindings) = .ok r)
    (c : Coordinates) :
    (defaultResolvers types r).bound? c = handlerFetcher? resolvers bindings c := by
  rw [← bound?_bindAll hbind c]
  have hlook : ∀ (r : CodeRegistry) name resolver,
      (r.setResolver name resolver).bound? c = r.bound? c := fun _ => CodeRegistry.bound?_setResolver
  exact (defaultResolvers_keeps (fun r => r.bound? c) hlook types r).trans
    (registerResolvers_keeps (fun r => r.bound? c) hlook hresolve)

end Code

namespace Assembler

variable {a : Assembler} {files : FileTree} {raw : Option String} {visibility : Visibility}
  {s : Snapshot}

/-- All calls of the contributors to the code, from what they find first. -/
def codeCalls (a : Assembler) (types : TypeRegistry) (start : CodeRegistry) : List CodeCall :=
  callsFrom CodeCall.apply start
    ((a.activeComponents.flatMap (·.codeContributors)).map fun contribute => contribute types)

theorem foldl_codeCalls (a : Assembler) (types : TypeRegistry) (start : CodeRegistry) :
    (a.activeComponents.flatMap (·.codeContributors)).foldl
      (fun r contribute => (contribute types r).foldl CodeCall.apply r) start =
      (a.codeCalls types start).foldl CodeCall.apply start := by
  rw [codeCalls, foldl_callsFrom, List.foldl_map]

theorem bound?_contributedCode (a : Assembler) (types : TypeRegistry) (start : CodeRegistry)
    (c : Coordinates) : (a.contributedCode types a.wiring start).bound? c =
      (lastGiven (WiringCall.bound? c) a.wiringCalls).or
        ((lastGiven (CodeCall.bound? c) (a.codeCalls types start)).or (start.bound? c)) := by
  -- A table entered by calls has distinct coordinates, so entering it again loses no fetcher.
  have hnodup := WiringCall.nodup_fetchers_foldl a.wiringCalls {} List.nodup_nil
  rw [← wiring_eq] at hnodup
  have hresolvers : ∀ r : CodeRegistry, (a.wiring.resolvers.foldl
      (fun (r : CodeRegistry) e => r.setResolver e.1 e.2) r).bound? c = r.bound? c := by
    intro r
    refine foldl_keeps (fun r => CodeRegistry.bound? r c) ?_ _ r
    exact fun _ _ => rfl
  rw [contributedCode, foldl_codeCalls, hresolvers, CodeRegistry.bound?_foldl_bind hnodup,
    ← FetcherTable.get?_eq_find?, wiring_eq, WiringCall.get?_fetchers_foldl,
    CodeCall.bound?_foldl]
  congr 1
  exact Option.or_none

def entitiesFetcher (a : Assembler) (entities : EntityTable) : Fetcher :=
  (a.federation.map (·.entitiesFetcher)).getD (.entities entities a.exceptionHandler)

/-- The fetcher that federation has for some coordinates. With a key or an entity fetcher the query
type gets a field for the text of the schema; with an object type that has one of these, also a
field for the entities. -/
def federationFetcher? (a : Assembler) (merged : MergedTypes) (entities : EntityTable)
    (c : Coordinates) : Option Fetcher :=
  let hasKeys := merged.types.types.any fun d => d.isObject && carries d.directives "key"
  if c.parentType = merged.types.roots.query then
    if c.field = "_service" ∧ (hasKeys ∨ entities.isEmpty = false) then
      some (.ofFunction fun _ => .ok (.object [("sdl", .str merged.sdl)]))
    else if c.field = "_entities" ∧ (hasKeys ∨ entities.keys.any merged.types.isObject) then
      some (a.entitiesFetcher entities)
    else none
  else none

theorem mem_federationFields_iff {types : TypeRegistry} {members : List String} {c : Coordinates} :
    c ∈ federationFields types members ↔ c.parentType = types.roots.query ∧
      (c.field = "_service" ∨ c.field = "_entities" ∧ members ≠ []) := by
  obtain ⟨parent, field⟩ := c
  cases members <;> simp [federationFields, and_or_left]

theorem objectsWithDirective_eq_nil_iff {types : TypeRegistry} {k : String} :
    types.objectsWithDirective k = [] ↔
      (types.types.any fun d => d.isObject && carries d.directives k) = false := by
  rw [TypeRegistry.objectsWithDirective, List.map_eq_nil_iff, List.filter_eq_nil_iff]
  simp

theorem entityMembers_ne_nil_iff {types : TypeRegistry} {entities : EntityTable} :
    entityMembers types entities ≠ [] ↔
      (types.types.any fun d => d.isObject && carries d.directives "key") = true ∨
        entities.keys.any types.isObject = true := by
  have hnil : entityMembers types entities = [] ↔ types.objectsWithDirective "key" = [] ∧
      entities.keys.filter types.isObject = [] := by
    simp only [List.eq_nil_iff_forall_not_mem, entityMembers, mem_appendNew, not_or,
      forall_and]
  rw [ne_eq, hnil, objectsWithDirective_eq_nil_iff, not_and_or, Bool.not_eq_false]
  refine or_congr_right ?_
  rw [List.filter_eq_nil_iff, List.any_eq_true]
  push Not
  rfl

theorem needsFederation_iff {types : TypeRegistry} {entities : EntityTable} :
    needsFederation types entities = true ↔
      (types.types.any fun d => d.isObject && carries d.directives "key") = true ∨
        entities.isEmpty = false := by
  rw [needsFederation, Bool.or_eq_true, or_comm, Bool.not_eq_true', Bool.not_eq_true',
    List.isEmpty_eq_false_iff, ne_eq, objectsWithDirective_eq_nil_iff, Bool.not_eq_false]

theorem needsFederation_of_members {types : TypeRegistry} {entities : EntityTable}
    (h : entityMembers types entities ≠ []) : needsFederation types entities = true := by
  refine needsFederation_iff.mpr ((entityMembers_ne_nil_iff.mp h).imp_right fun hfetched => ?_)
  cases entities with
  | nil => cases hfetched
  | cons e rest => rfl

theorem federationFetcher?_eq (a : Assembler) (merged : MergedTypes) (entities : EntityTable)
    (c : Coordinates) : a.federationFetcher? merged entities c =
      if needsFederation merged.types entities = true ∧
          c ∈ federationFields merged.types (entityMembers merged.types entities) then
        some (if c.field = "_entities" then (a.federationResolver entities).entitiesFetcher
          else .service merged.sdl)
      else none := by
  have hgiven : (a.federationResolver entities).entitiesFetcher = a.entitiesFetcher entities := by
    rw [federationResolver, entitiesFetcher]
    cases a.federation <;> rfl
  have hother : ("_service" : String) ≠ "_entities" := by decide
  simp only [federationFetcher?, ← needsFederation_iff, ← entityMembers_ne_nil_iff,
    mem_federationFields_iff, hgiven]
  by_cases hparent : c.parentType = merged.types.roots.query
  · by_cases hservice : c.field = "_service"
    · by_cases hneeds : needsFederation merged.types entities = true <;>
        simp [hparent, hservice, hneeds, hother, Fetcher.service]
    · by_cases hentities : c.field = "_entities"
      · by_cases hmembers : entityMembers merged.types entities = []
        · simp [hparent, hentities, hmembers, hother.symm]
        · simp [hparent, hentities, hmembers, hother.symm, needsFederation_of_members hmembers]
      · simp [hparent, hservice, hentities]
  · simp [hparent]

theorem fallback_of_assemble (hnone : a.activeComponents.flatMap (·.codeContributors) = [])
    (h : a.assemble files raw visibility = .ok s) : s.schema.code.fallback = .property := by
  obtain ⟨u, hu, rfl⟩ := assemble_eq_ok_iff.mp h
  refine CodeRegistry.fallback_dressed.trans ?_
  obtain ⟨merged, resolved, hstages⟩ := exists_stages hu
  have hset : ∀ (r : CodeRegistry) name resolver,
      (r.setResolver name resolver).fallback = r.fallback := fun _ _ _ => rfl
  have hbound : ∀ resolvers, (bindAll resolvers u.bindings).fallback = .property := by
    intro resolvers
    refine foldl_keeps CodeRegistry.fallback ?_ u.bindings {}
    exact fun _ _ => rfl
  have hcode : (a.contributedCode merged.types a.wiring
      (defaultResolvers merged.types resolved)).fallback = .property := by
    rw [contributedCode, hnone, List.foldl_nil, ← hbound,
      ← registerResolvers_keeps _ hset hstages.resolve,
      ← defaultResolvers_keeps _ hset merged.types resolved]
    refine (foldl_keeps CodeRegistry.fallback ?_ a.wiring.resolvers _).trans
      (foldl_keeps CodeRegistry.fallback ?_ a.wiring.fetchers _)
    · exact fun r e => hset r e.1 e.2
    · exact fun _ _ => rfl
  rcases hstages.finish with ⟨-, -, hlast⟩ | ⟨-, -, hlast⟩
  · rw [hlast, hcode]
  · rw [hlast, CodeRegistry.fallback_withFederation, hcode]

theorem isSome_federationFetcher?_iff {merged : MergedTypes} {entities : EntityTable}
    {c : Coordinates} : (a.federationFetcher? merged entities c).isSome = true ↔
      needsFederation merged.types entities = true ∧
        c ∈ federationFields merged.types (entityMembers merged.types entities) := by
  rw [federationFetcher?_eq]
  split <;> simp [*]

/-- Over types from texts, the fetchers of federation are those of fields of the query type, and all
new fields of it have one. -/
theorem OverTexts.field?_of_federation (ha : a.OverTexts)
    (h : a.unwired files raw visibility = .ok s) {merged : MergedTypes}
    (hmerged : a.mergeTypes files raw = .ok merged) (c : Coordinates) :
    ((a.federationFetcher? merged s.entities c).isSome = true →
      c.parentType = merged.types.roots.query ∧ (s.schema.types.field? c).isSome = true) ∧
    (c.parentType = merged.types.roots.query → merged.types.field? c = none →
      (s.schema.types.field? c).isSome = true →
        (a.federationFetcher? merged s.entities c).isSome = true) := by
  have hsound := (ha.mergeTypes hmerged).sound
  obtain ⟨merged', hmerged', -, hcase⟩ := types_of_unwired h
  cases hmerged.symm.trans hmerged'
  obtain ⟨parent, field⟩ := c
  rw [isSome_federationFetcher?_iff, mem_federationFields_iff]
  rcases hcase with ⟨hnot, htypes⟩ | ⟨hneeds, hadded⟩
  · rw [htypes, hnot]
    refine ⟨fun h => absurd h.1 Bool.false_ne_true, fun _ hold hnew => ?_⟩
    rw [hold] at hnew
    cases hnew
  · obtain ⟨hm, htypes⟩ :=
      (TypeRegistry.addFederationTypes_eq_done_iff_federable hsound).mp hadded
    rw [htypes]
    constructor
    · rintro ⟨-, rfl, rfl | ⟨rfl, hmembers⟩⟩
      · exact ⟨rfl, Option.isSome_iff_exists.mpr
          ⟨_, TypeRegistry.field?_federated_service hsound hm⟩⟩
      · exact ⟨rfl, Option.isSome_iff_exists.mpr
          ⟨_, TypeRegistry.field?_federated_entities hsound hm hmembers⟩⟩
    · rintro rfl hold hnew
      exact ⟨hneeds, rfl, TypeRegistry.eq_of_field?_federated_query hsound hm hold hnew⟩

theorem bound?_of_unwired (h : a.unwired files raw visibility = .ok s) :
    ∃ merged resolved, a.mergeTypes files raw = .ok merged ∧
      bindFetchers merged.types a.activeComponents = .ok s.bindings ∧
      registerResolvers merged.types a.activeComponents
        (bindAll (ArgumentResolver.standard a.argumentResolvers a.mapper) s.bindings) =
          .ok resolved ∧
      registerEntities a.activeComponents = .ok s.entities ∧
      ∀ c, s.schema.code.bound? c = (a.federationFetcher? merged s.entities c).or
        ((lastGiven (WiringCall.bound? c) a.wiringCalls).or
          ((lastGiven (CodeCall.bound? c)
            (a.codeCalls merged.types (defaultResolvers merged.types resolved))).or
            (handlerFetcher? (ArgumentResolver.standard a.argumentResolvers a.mapper)
              s.bindings c))) := by
  obtain ⟨merged, resolved, hstages⟩ := exists_stages h
  have hcontributed := bound?_contributedCode a merged.types
    (defaultResolvers merged.types resolved)
  simp only [bound?_start hstages.bind hstages.resolve] at hcontributed
  refine ⟨merged, resolved, hstages.merge, hstages.bind, hstages.resolve, hstages.own,
    fun c => ?_⟩
  -- Federation enters its fetchers last, so they stand before all that was contributed.
  rcases hstages.finish with ⟨hneeds, -, hcode⟩ | ⟨hneeds, -, hcode⟩
  · rw [hcode, hcontributed, federationFetcher?_eq, hneeds,
      if_neg fun hadded => Bool.false_ne_true hadded.1]
    rfl
  · rw [hcode, CodeRegistry.bound?_withFederation, hcontributed, federationFetcher?_eq]
    simp only [hneeds, true_and]

end Assembler

structure FetcherSources where
  federation? : Coordinates → Option Fetcher
  wiringCalls : List WiringCall
  codeCalls : List CodeCall
  handler? : Coordinates → Option Fetcher

namespace FetcherSources

def named? (x : FetcherSources) (name : String) : Option DirectiveWiring :=
  lastGiven (WiringCall.named? name) x.wiringCalls

def globals (x : FetcherSources) : List DirectiveWiring :=
  x.wiringCalls.filterMap WiringCall.global?

/-- The fetcher that the others are put around. Of the sources that have one for the coordinates the
first counts. -/
def base? (x : FetcherSources) (types : TypeRegistry) (c : Coordinates) : Option Fetcher :=
  (x.federation? c).or <|
  (lastGiven (WiringCall.bound? c) x.wiringCalls).or <|
  (lastGiven (CodeCall.bound? c) x.codeCalls).or <|
  (x.handler? c).or <|
  if types.carriesAt (fun name => (x.named? name).isSome) c then some .property else none

def fetcher? (x : FetcherSources) (types : TypeRegistry) (c : Coordinates) : Option Fetcher :=
  (x.base? types c).map fun f =>
    (fieldLayers x.named? x.globals types c).foldl (fun f layer => layer f) f

end FetcherSources

namespace Assembler

variable {a : Assembler} {files : FileTree} {raw : Option String} {visibility : Visibility}
  {s : Snapshot}

def sources (a : Assembler) (merged : MergedTypes) (resolved : CodeRegistry) (s : Snapshot) :
    FetcherSources where
  federation? := a.federationFetcher? merged s.entities
  wiringCalls := a.wiringCalls
  codeCalls := a.codeCalls merged.types (defaultResolvers merged.types resolved)
  handler? := handlerFetcher? (ArgumentResolver.standard a.argumentResolvers a.mapper) s.bindings

theorem named?_wiring (a : Assembler) :
    a.wiring.named? = fun name => lastGiven (WiringCall.named? name) a.wiringCalls := by
  funext name
  rw [wiring_eq, WiringCall.named?_foldl]
  exact Option.or_none

theorem globals_wiring (a : Assembler) :
    a.wiring.globals = a.wiringCalls.filterMap WiringCall.global? := by
  rw [wiring_eq, WiringCall.globals_foldl]
  rfl

theorem globals_calls (c : Component) :
    c.wiringCalls.filterMap WiringCall.global? = c.globals := by
  have hscalars : (c.scalars.map WiringCall.addScalar).filterMap WiringCall.global? = [] := by
    simp [List.filterMap_map, Function.comp_def, WiringCall.global?]
  have hdirectives : ∀ directives : List (String × DirectiveWiring),
      (directives.map fun d => WiringCall.addDirective d.1 d.2).filterMap WiringCall.global? =
        (directives.filter fun d => isBlankText d.1).map (·.2) := by
    intro directives
    induction directives with
    | nil => rfl
    | cons d rest ih => by_cases hd : isBlankText d.1 = true <;> simp [WiringCall.global?, hd, ih]
  rw [Component.wiringCalls, List.filterMap_append, hscalars, hdirectives]
  rfl

/-- The wirings of all fields: that of the validation before those of components, and these before
those of contributors. -/
theorem globals_wiringCalls (a : Assembler) :
    a.wiringCalls.filterMap WiringCall.global? =
      (if a.settings.extensions.validation then [DirectiveWiring.validation a.patterns] else []) ++
        a.activeComponents.flatMap Component.globals ++
        a.contributedCalls.filterMap WiringCall.global? := by
  have hscalars : ((ScalarType.extended a.settings.extensions.scalars).map
      WiringCall.addScalar).filterMap WiringCall.global? = [] := by
    simp [List.filterMap_map, Function.comp_def, WiringCall.global?]
  have hcomponents : (a.activeComponents.flatMap Component.wiringCalls).filterMap
      WiringCall.global? = a.activeComponents.flatMap Component.globals := by
    rw [List.filterMap_flatMap]
    simp only [globals_calls]
  rw [wiringCalls, registeredCalls, List.filterMap_append, List.filterMap_append,
    List.filterMap_append, hscalars, hcomponents]
  cases a.settings.extensions.validation <;> rfl

/-- Which fetcher a field ends up with. What is bound at some coordinates is the fetcher of the first
source that has one: federation, the last call of a wiring contributor, the last call of a code
contributor, the handler bound there, and the property fetcher where an object type's field carries
a directive with a wiring. If the coordinates name a field, it stands inside the wirings of the
directives that the field carries and those of all fields. Over types from texts, the fetchers of
federation are those of fields of the query type, and all its new fields have one. -/
theorem bound?_of_assemble (a : Assembler) (files : FileTree) (raw : Option String)
    (visibility : Visibility) (s : Snapshot) (h : a.assemble files raw visibility = .ok s) :
    ∃ merged resolved, a.mergeTypes files raw = .ok merged ∧
      bindFetchers merged.types a.activeComponents = .ok s.bindings ∧
      registerResolvers merged.types a.activeComponents
        (bindAll (ArgumentResolver.standard a.argumentResolvers a.mapper) s.bindings) =
          .ok resolved ∧
      registerEntities a.activeComponents = .ok s.entities ∧
      (a.sources merged resolved s).globals =
        (if a.settings.extensions.validation then [DirectiveWiring.validation a.patterns]
          else []) ++ a.activeComponents.flatMap Component.globals ++
          a.contributedCalls.filterMap WiringCall.global? ∧
      (∀ c, s.schema.code.bound? c = (a.sources merged resolved s).fetcher? s.schema.types c) ∧
      (a.OverTexts → ∀ c,
        ((a.federationFetcher? merged s.entities c).isSome = true →
          c.parentType = merged.types.roots.query ∧ (s.schema.types.field? c).isSome = true) ∧
        (c.parentType = merged.types.roots.query → merged.types.field? c = none →
          (s.schema.types.field? c).isSome = true →
            (a.federationFetcher? merged s.entities c).isSome = true)) := by
  obtain ⟨u, hu, rfl⟩ := assemble_eq_ok_iff.mp h
  obtain ⟨merged, resolved, hmerged, hbindings, hresolved, hentities, hbound⟩ :=
    bound?_of_unwired hu
  refine ⟨merged, resolved, hmerged, hbindings, hresolved, hentities, globals_wiringCalls a,
    fun c => ?_, fun ha => ha.field?_of_federation hu hmerged⟩
  have hdressed := CodeRegistry.bound?_dressed u.schema.code a.wiring u.schema.types c
  rw [hbound, funext (a.wiring.wrap_eq_foldl u.schema.types c), named?_wiring,
    globals_wiring] at hdressed
  simp only [Option.or_assoc] at hdressed
  exact hdressed

def marked (text : String) : Fetcher := .ofFunction fun _ => .ok (.str text)

def unsubscribed : DirectiveWiring := fun _ f => { f with subscribe := fun _ => none }

def titlesCode : CodeContributor := fun _ _ =>
  [.bind ⟨"Query", "title"⟩ (marked "code"), .bind ⟨"Query", "shelf"⟩ (marked "code")]

def titlesWiring : WiringContributor := fun _ => [.bind ⟨"Query", "title"⟩ (marked "wiring")]

/-- A handler and contributors for one field, a wiring of a directive and one of all fields. -/
def titles : Assembler where
  settings := { extensions := { validation := false } }
  types := some exampleTypes
  components := [{ exampleComponent "catalogue" "title" "books" "Book" with
    directives := [("upper", unsubscribed), ("", unsubscribed)]
    codeContributors := [titlesCode]
    wiringContributors := [titlesWiring] }]

def titlesText : String := "type Query \x7b title: ID shelf: ID isbn: ID @upper count: ID \x7d"

/-- The contributors have the last say, a field with a wired directive reads a property inside both
wirings, and one without has no fetcher. -/
theorem bound?_of_assemble_titles :
    ∃ s, titles.assemble .empty (some titlesText) .all = .ok s ∧
      let layers (field : String) : List (Fetcher → Fetcher) :=
        fieldLayers (fun name => lastGiven (WiringCall.named? name) titles.wiringCalls)
          (titles.wiringCalls.filterMap WiringCall.global?) s.schema.types ⟨"Query", field⟩
      let inLayers (f : Fetcher) (field : String) : Fetcher :=
        (layers field).foldl (fun f layer => layer f) f
      s.schema.code.bound? ⟨"Query", "title"⟩ = some (inLayers (marked "wiring") "title") ∧
      s.schema.code.bound? ⟨"Query", "shelf"⟩ = some (inLayers (marked "code") "shelf") ∧
      s.schema.code.bound? ⟨"Query", "isbn"⟩ = some (inLayers .property "isbn") ∧
      s.schema.code.bound? ⟨"Query", "count"⟩ = none ∧
      (layers "title").length = 1 ∧ (layers "shelf").length = 1 ∧ (layers "isbn").length = 2 := by
  have hchecked : (titles.assemble .empty (some titlesText) .all).toOption.any (fun s =>
      let named? (name : String) := lastGiven (WiringCall.named? name) titles.wiringCalls
      let layers (field : String) : Nat := (fieldLayers named?
        (titles.wiringCalls.filterMap WiringCall.global?) s.schema.types ⟨"Query", field⟩).length
      let isBare (field : String) : Bool :=
        (handlerFetcher? (ArgumentResolver.standard titles.argumentResolvers titles.mapper)
          s.bindings ⟨"Query", field⟩).isNone
      let isWired (field : String) : Bool :=
        s.schema.types.carriesAt (fun name => (named? name).isSome) ⟨"Query", field⟩
      isBare "isbn" && isWired "isbn" && isBare "count" && !isWired "count" &&
        (layers "title" == 1 && layers "shelf" == 1 && layers "isbn" == 2)) = true := by
    decide +kernel
  obtain ⟨s, hs, hchecked⟩ := Except.exists_ok_of_any hchecked
  simp only [Bool.and_eq_true, beq_iff_eq, Bool.not_eq_true', Option.isNone_iff_eq_none]
    at hchecked
  obtain ⟨⟨⟨⟨hbare, hwired⟩, hbare'⟩, hwired'⟩, ⟨htitle, hshelf⟩, hisbn⟩ := hchecked
  obtain ⟨merged, resolved, -, -, -, -, -, hbound, -⟩ :=
    bound?_of_assemble titles .empty _ .all s hs
  let x := titles.sources merged resolved s
  have hnone : ∀ field, field ≠ "_service" → field ≠ "_entities" →
      x.federation? ⟨"Query", field⟩ = none := by
    intro field hservice hentities
    change titles.federationFetcher? merged s.entities ⟨"Query", field⟩ = none
    simp [federationFetcher?, hservice, hentities]
  refine ⟨s, hs, ?_, ?_, ?_, ?_, htitle, hshelf, hisbn⟩
  · rw [hbound, FetcherSources.fetcher?, FetcherSources.base?,
      hnone "title" (by decide) (by decide)]
    rfl
  · rw [hbound, FetcherSources.fetcher?, FetcherSources.base?,
      hnone "shelf" (by decide) (by decide)]
    rfl
  · rw [hbound, FetcherSources.fetcher?, FetcherSources.base?,
      hnone "isbn" (by decide) (by decide)]
    simp only [sources, FetcherSources.named?, hwired, hbare]
    rfl
  · rw [hbound, FetcherSources.fetcher?, FetcherSources.base?,
      hnone "count" (by decide) (by decide)]
    simp only [sources, FetcherSources.named?, hwired', hbare']
    rfl

end Assembler

end SchemaAssembly
