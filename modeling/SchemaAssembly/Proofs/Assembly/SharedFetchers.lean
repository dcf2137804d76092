import SchemaAssembly.Proofs.Argument.Resolving
import SchemaAssembly.Proofs.Assembly.FieldFetchers

/-!
Fetchers that bindings share. All bindings of copies of a handler have the fetcher of the first of
them, and its owner stands in the message when no resolver supports a parameter. In everything else
copies are alike; so the fetcher of a binding does what one of its own would do, up to the owner
that this message names.
-/

set_option autoImplicit false

namespace SchemaAssembly

namespace ArgumentResolver

variable {resolvers : List ArgumentResolver} {e : FieldEnvironment} {ps : List Parameter}
  {p : Parameter}

/-- The first parameter that is given no value is one that no resolver supports. -/
def StopsAt (resolvers : List ArgumentResolver) (e : FieldEnvironment) (ps : List Parameter)
    (p : Parameter) : Prop :=
  ∃ before after values, ps = before ++ p :: after ∧ GiveAll resolvers e before values ∧
    Unsupported resolvers p

theorem StopsAt.resolveAll_eq (h : StopsAt resolvers e ps p) (owner : String) :
    resolveAll resolvers owner e ps = .error (.noArgumentResolver p.index owner) := by
  obtain ⟨before, after, values, hps, hgiven, hnone⟩ := h
  exact resolved_iff.mp (.unsupported hps hgiven hnone)

/-- Otherwise the owner does not show. -/
theorem resolveAll_owner (h : ∀ p, ¬ StopsAt resolvers e ps p) (owner other : String) :
    resolveAll resolvers owner e ps = resolveAll resolvers other e ps := by
  have hother := resolved_resolveAll resolvers other e ps
  refine resolved_iff.mp ?_
  generalize resolveAll resolvers other e ps = x at hother ⊢
  rcases hother with all | ⟨hps, hgiven, hrefused⟩ | ⟨hps, hgiven, hnone⟩
  · exact .given all
  · exact .refused hps hgiven hrefused
  · exact absurd ⟨_, _, _, hps, hgiven, hnone⟩ (h _)

end ArgumentResolver

theorem message_of_ofResolution {err err' : ResolutionError}
    (h : HandlerError.ofResolution err = .ofResolution err') : err.message = err'.message :=
  congrArg HandlerError.message h

theorem eq_of_noArgumentResolver {i : Nat} {owner other : String}
    (h : (ResolutionError.noArgumentResolver i owner).message =
      (ResolutionError.noArgumentResolver i other).message) : owner = other := by
  unfold ResolutionError.message at h
  rw [String.append_left_inj] at h
  exact (String.append_right_inj _).mp h

/-- Two fetchers do the same in an environment. -/
def Fetcher.AgreeAt (f g : Fetcher) (e : FieldEnvironment) : Prop :=
  f.fetch e = g.fetch e ∧ f.subscribe e = g.subscribe e

namespace Handler

variable {resolvers : List ArgumentResolver} {e : FieldEnvironment} {h k : Handler} {p : Parameter}

theorem CopyOf.eq_of_owner (hcopy : h.CopyOf k) (howner : h.owner = k.owner) : h = k := by
  rw [hcopy, howner]

theorem fetch_of_stopsAt (hstops : ArgumentResolver.StopsAt resolvers e h.parameters p) :
    (Fetcher.ofHandler resolvers h).fetch e =
      .done (.error (.ofResolution (.noArgumentResolver p.index h.qualifiedName))) := by
  have hresolve : h.resolveArguments resolvers e =
      .error (.noArgumentResolver p.index h.qualifiedName) := by
    rw [resolveArguments, hstops.resolveAll_eq]
  simp only [Fetcher.ofHandler, invoke, hresolve, callWith]

theorem CopyOf.invoke_eq (hcopy : h.CopyOf k)
    (hstops : ∀ p, ¬ ArgumentResolver.StopsAt resolvers e k.parameters p) :
    h.invoke resolvers e = k.invoke resolvers e := by
  have hresolve : h.resolveArguments resolvers e = k.resolveArguments resolvers e := by
    rw [resolveArguments, resolveArguments, hcopy.parameters_eq,
      ArgumentResolver.resolveAll_owner hstops h.qualifiedName k.qualifiedName]
  have hcall : h.callWith = k.callWith := by rw [hcopy]; rfl
  rw [invoke, invoke, hresolve, hcall]

theorem CopyOf.agreeAt_iff (hcopy : h.CopyOf k) :
    (Fetcher.ofHandler resolvers h).AgreeAt (Fetcher.ofHandler resolvers k) e ↔
      h.owner = k.owner ∨ ∀ p, ¬ ArgumentResolver.StopsAt resolvers e k.parameters p := by
  constructor
  · rintro ⟨hfetch, -⟩
    refine or_iff_not_imp_right.mpr fun hsome => ?_
    obtain ⟨p, hp⟩ := not_forall_not.mp hsome
    rw [fetch_of_stopsAt hp, fetch_of_stopsAt (hcopy.parameters_eq ▸ hp)] at hfetch
    have hqualified := eq_of_noArgumentResolver
      (message_of_ofResolution (Except.error.inj (Work.done.inj hfetch)))
    have hname : h.name = k.name := by rw [hcopy]
    rw [qualifiedName, qualifiedName, hname, String.append_left_inj, String.append_left_inj]
      at hqualified
    exact hqualified
  · rintro (howner | hnone)
    · rw [hcopy.eq_of_owner howner]
      exact ⟨rfl, rfl⟩
    · have hshape : h.shape = k.shape := by rw [hcopy]
      have hinvoke := hcopy.invoke_eq hnone
      exact ⟨by simp only [Fetcher.ofHandler, hinvoke],
        by simp only [Fetcher.ofHandler, hinvoke, hshape]⟩

end Handler

section Bindings

variable {types : TypeRegistry} {components : List Component} {bindings : List Binding}
  {b : Binding}

theorem handler_of_mem_bindings (h : bindFetchers types components = .ok bindings)
    (hb : b ∈ bindings) : ∃ d ∈ definitionsOf components, b.handler = d.handler := by
  have hbindable := bindable_of_ok h
  rw [bindFetchers_of_bindable hbindable] at h
  cases h
  obtain ⟨p, hp, rfl⟩ := List.mem_map.mp hb
  obtain ⟨-, d, hselected, hsame⟩ := mem_spread hbindable.2 hp
  refine ⟨d, ?_, by rw [hsame]; rfl⟩
  cases hselected with
  | direct hdirect => exact hdirect.1
  | fanned _ hfanned _ => exact hfanned.1

theorem bound?_of_mem_bindings (resolvers : List ArgumentResolver)
    (h : bindFetchers types components = .ok bindings) (hb : b ∈ bindings) : ∃ first ∈ bindings,
      (bindings.find? fun x => x.handler.id == b.handler.id) = some first ∧
        (bindAll resolvers bindings).bound? b.coordinates =
          some (.ofHandler resolvers first.handler) := by
  have hfind : (bindings.find? fun x => x.coordinates = b.coordinates) = some b :=
    find?_key Binding.coordinates (nodup_coordinates h) hb
  obtain ⟨first, hfirst⟩ := exists_first hb
  refine ⟨first, List.mem_of_find?_eq_some hfirst, hfirst, ?_⟩
  rw [bound?_bindAll h, handlerFetcher?, hfind, Option.bind_some, hfirst, Option.map_some]

end Bindings

namespace Assembler

/-- The fetcher of every binding is that of the first binding of its handler. Handlers of one number
being copies, it does what a fetcher of the binding's own would do, unless one parameter stops them
and the owners are different: the messages then name the owners. -/
theorem shared_fetcher_agrees_iff (a : Assembler) (files : FileTree) (raw : Option String)
    (visibility : Visibility) (s : Snapshot)
    (hcopies : ∀ d ∈ definitionsOf a.activeComponents, ∀ d' ∈ definitionsOf a.activeComponents,
      d.handler.id = d'.handler.id → d.handler.CopyOf d'.handler)
    (h : a.assemble files raw visibility = .ok s) (b : Binding) (hb : b ∈ s.bindings) :
    let resolvers := ArgumentResolver.standard a.argumentResolvers a.mapper
    ∃ first f, (s.bindings.find? fun x => x.handler.id == b.handler.id) = some first ∧
      (bindAll resolvers s.bindings).bound? b.coordinates = some f ∧
      ∀ e, (f.AgreeAt (.ofHandler resolvers b.handler) e ↔ first.owner = b.owner ∨
          ∀ p, ¬ ArgumentResolver.StopsAt resolvers e b.handler.parameters p) ∧
        ∀ p, ArgumentResolver.StopsAt resolvers e b.handler.parameters p →
          f.fetch e = .done (.error (.ofResolution
            (.noArgumentResolver p.index first.handler.qualifiedName))) ∧
          (Fetcher.ofHandler resolvers b.handler).fetch e = .done (.error (.ofResolution
            (.noArgumentResolver p.index b.handler.qualifiedName))) := by
  intro resolvers
  obtain ⟨⟨merged, hpasses⟩, -⟩ := passes_of_assemble h
  obtain ⟨first, hmem, hfirst, hbound⟩ := bound?_of_mem_bindings resolvers hpasses.bind hb
  have hcopy : first.handler.CopyOf b.handler := by
    obtain ⟨d, hd, hhandler⟩ := handler_of_mem_bindings hpasses.bind hmem
    obtain ⟨d', hd', hhandler'⟩ := handler_of_mem_bindings hpasses.bind hb
    have hid : first.handler.id = b.handler.id := by simpa using List.find?_some hfirst
    rw [hhandler, hhandler'] at hid ⊢
    exact hcopies d hd d' hd' hid
  refine ⟨first, _, hfirst, hbound, fun e => ⟨hcopy.agreeAt_iff, fun p hp => ⟨?_, ?_⟩⟩⟩
  · exact Handler.fetch_of_stopsAt (hcopy.parameters_eq ▸ hp)
  · exact Handler.fetch_of_stopsAt hp

def paged (owner : String) : Handler where
  id := 1
  owner := owner
  name := "shows"
  parameters := Handler.parametersOf 1 [("page", .custom "page")]
  shape := .sync
  function _ := .ok (.value .null)

def pagedText : String := "type Query \x7b old: Boolean shows: Boolean \x7d"

def pagedTwice : Assembler where
  settings := { extensions := { validation := false } }
  components := [
    ({ name := "catalog" } : Component).addFetcher { parentType := "Query", handler := paged "" },
    ({ name := "archive" } : Component).addFetcher
      { parentType := "Query", field := some "old", handler := paged "" }]

theorem definitions_pagedTwice : definitionsOf pagedTwice.activeComponents =
    [{ parentType := "Query", handler := paged "catalog" },
      { parentType := "Query", field := some "old", handler := paged "archive" }] := rfl

theorem copyOf_pagedTwice : ∀ d ∈ definitionsOf pagedTwice.activeComponents,
    ∀ d' ∈ definitionsOf pagedTwice.activeComponents,
      d.handler.id = d'.handler.id → d.handler.CopyOf d'.handler := by
  simp only [definitions_pagedTwice, List.forall_mem_cons]
  exact ⟨⟨fun _ => rfl, fun _ => rfl, nofun⟩, ⟨fun _ => rfl, fun _ => rfl, nofun⟩, nofun⟩

theorem stopsAt_paged (owner : String) (e : FieldEnvironment) :
    ArgumentResolver.StopsAt (ArgumentResolver.standard [] .standard) e (paged owner).parameters
      ⟨1, 0, "page", .custom "page"⟩ := by
  refine ⟨[], [], [], rfl, .nil, ?_⟩
  simp only [ArgumentResolver.Unsupported, ArgumentResolver.standard, List.nil_append,
    List.forall_mem_cons]
  exact ⟨rfl, rfl, rfl, List.forall_mem_nil _⟩

theorem exists_pagedTwice : ∃ s first b,
    pagedTwice.assemble .empty (some pagedText) .all = .ok s ∧ b ∈ s.bindings ∧
      (s.bindings.find? fun x => x.handler.id == b.handler.id) = some first ∧
      first.handler = paged "archive" ∧ b.handler = paged "catalog" := by
  have hchecked : (pagedTwice.assemble .empty (some pagedText) .all).toOption.any (fun s =>
      decide (s.bindings.map (·.owner) = ["archive", "catalog"])) = true := by decide +kernel
  obtain ⟨s, hs, howners⟩ := Except.exists_ok_of_any hchecked
  obtain ⟨first, others, hfirst, harchive, hrest⟩ :=
    List.map_eq_cons_iff.mp (of_decide_eq_true howners)
  obtain ⟨b, rest, hb, hcatalog, hnil⟩ := List.map_eq_cons_iff.mp hrest
  obtain rfl := List.map_eq_nil_iff.mp hnil
  subst hb
  obtain ⟨⟨merged, hpasses⟩, -⟩ := passes_of_assemble hs
  have hhandler : ∀ x ∈ s.bindings, x.handler = paged x.owner := by
    intro x hx
    obtain ⟨d, hd, hsame⟩ := handler_of_mem_bindings hpasses.bind hx
    rw [Binding.owner, hsame]
    rw [definitions_pagedTwice] at hd
    rcases hd with _ | ⟨_, _ | ⟨_, ⟨⟩⟩⟩ <;> rfl
  have hmem : b ∈ s.bindings := hfirst ▸ List.mem_cons_of_mem _ List.mem_cons_self
  have hold : first.handler = paged "archive" := by
    rw [hhandler first (hfirst ▸ List.mem_cons_self), harchive]
  have hshows : b.handler = paged "catalog" := by rw [hhandler b hmem, hcatalog]
  refine ⟨s, first, b, hs, hmem, ?_, hold, hshows⟩
  simp [hfirst, hold, hshows, paged]

theorem owner_paged_ne : (paged "archive").owner ≠ (paged "catalog").owner := by
  simp [paged]

/-- The field of the catalog fails in the name of the archive. -/
theorem shared_fetcher_agrees_iff_pagedTwice :
    let resolvers := ArgumentResolver.standard [] .standard
    ∃ s b f, pagedTwice.assemble .empty (some pagedText) .all = .ok s ∧ b ∈ s.bindings ∧
      b.owner = "catalog" ∧ (bindAll resolvers s.bindings).bound? b.coordinates = some f ∧
      ∀ e, ¬ f.AgreeAt (.ofHandler resolvers b.handler) e ∧
        f.fetch e = .done (.error (.ofResolution (.noArgumentResolver 0 "archive.shows"))) ∧
        (Fetcher.ofHandler resolvers b.handler).fetch e =
          .done (.error (.ofResolution (.noArgumentResolver 0 "catalog.shows"))) := by
  intro resolvers
  obtain ⟨s, first, b, hs, hmem, hfind, hfirst, hb⟩ := exists_pagedTwice
  obtain ⟨shared, f, hshared, hbound, hfetch⟩ := shared_fetcher_agrees_iff pagedTwice .empty
    (some pagedText) .all s copyOf_pagedTwice hs b hmem
  obtain rfl := Option.some.inj (hfind.symm.trans hshared)
  refine ⟨s, b, f, hs, hmem, by rw [Binding.owner, hb]; rfl, hbound, fun e => ?_⟩
  have hstops := stopsAt_paged "catalog" e
  rw [← hb] at hstops
  obtain ⟨hagree, hmessages⟩ := hfetch e
  obtain ⟨hmessage, hown⟩ := hmessages _ hstops
  refine ⟨fun h => ?_, ?_, ?_⟩
  · rcases hagree.mp h with howner | hnone
    · rw [Binding.owner, Binding.owner, hfirst, hb] at howner
      exact owner_paged_ne howner
    · exact hnone _ hstops
  · rw [hmessage, hfirst]
    rfl
  · refine hown.trans ?_
    rw [hb]
    rfl

/-- A shared fetcher is told from one of the binding's own by the message of a failure. -/
theorem shared_fetcher_names_other_owner :
    ¬ ∀ (a : Assembler) (files : FileTree) (raw : Option String) (visibility : Visibility)
      (s : Snapshot), (∀ d ∈ definitionsOf a.activeComponents,
        ∀ d' ∈ definitionsOf a.activeComponents,
          d.handler.id = d'.handler.id → d.handler.CopyOf d'.handler) →
      a.assemble files raw visibility = .ok s → ∀ b ∈ s.bindings,
      ∃ f, (bindAll (ArgumentResolver.standard a.argumentResolvers a.mapper) s.bindings).bound?
          b.coordinates = some f ∧
        ∀ e, f.AgreeAt
          (.ofHandler (ArgumentResolver.standard a.argumentResolvers a.mapper) b.handler) e := by
  intro hall
  obtain ⟨s, first, b, hs, hmem, hfind, hfirst, hb⟩ := exists_pagedTwice
  obtain ⟨f, hf, hagree⟩ := hall pagedTwice .empty (some pagedText) .all s copyOf_pagedTwice hs b
    hmem
  obtain ⟨⟨merged, hpasses⟩, -⟩ := passes_of_assemble hs
  obtain ⟨shared, -, hshared, hbound⟩ := bound?_of_mem_bindings
    (ArgumentResolver.standard [] .standard) hpasses.bind hmem
  obtain rfl := Option.some.inj (hfind.symm.trans hshared)
  obtain rfl := Option.some.inj (hbound.symm.trans hf)
  have hcopy : (paged "archive").CopyOf (paged "catalog") := rfl
  have hcases := hagree (.of b.coordinates)
  rw [hfirst, hb] at hcases
  rcases hcopy.agreeAt_iff.mp hcases with howner | hnone
  · exact owner_paged_ne howner
  · exact hnone _ (stopsAt_paged "catalog" _)

end Assembler

end SchemaAssembly
