import SchemaAssembly.Proofs.Assembly.FieldFetchers

/-!
Wirings that do nothing. One more of them leaves every fetcher as it is, but for the fields that
had none and carry its directive: these are bound because of it, so the wirings of all fields reach
them as well.
-/

set_option autoImplicit false

namespace SchemaAssembly

/-- A runtime wiring with one more directive wiring: among those of all fields, or under a name that
had none. -/
inductive RuntimeWiring.OneMore (w : RuntimeWiring) (name : String) (d : DirectiveWiring) :
    RuntimeWiring → Prop where
  | global {before after : List DirectiveWiring} (hname : isBlankText name = true)
      (hw : w.globals = before ++ after) :
      OneMore w name d { w with globals := before ++ d :: after }
  | named {directives : Entries DirectiveWiring} (hname : isBlankText name = false)
      (hnew : w.named? name = none)
      (hget : ∀ n, Entries.get? n directives = if n = name then some d else w.named? n) :
      OneMore w name d { w with directives := directives }

def DirectiveWiring.Idle (d : DirectiveWiring) : Prop := ∀ wired f, d wired f = f

/-- The fields of object types that carry the directive of a wiring for one directive. -/
def TypeRegistry.reachedBy (r : TypeRegistry) (name : String) (c : Coordinates) : Bool :=
  !isBlankText name && r.carriesAt (fun n => n = name) c

theorem TypeRegistry.carriesAt_or (r : TypeRegistry) (p q : String → Bool) (c : Coordinates) :
    r.carriesAt (fun n => p n || q n) c = (r.carriesAt p c || r.carriesAt q c) := by
  rw [Bool.eq_iff_iff, Bool.or_eq_true]
  simp only [carriesAt, List.any_eq_true]
  rw [← exists_or]
  refine exists_congr fun d => ?_
  rw [← and_or_left]
  refine and_congr_right fun _ => ?_
  cases d.body with
  | object fields interfaces =>
    simp only [Bool.and_eq_true, List.any_eq_true, Bool.or_eq_true, ← and_or_left, ← exists_or]
  | _ => simp

namespace RuntimeWiring

variable {w w' : RuntimeWiring} {name : String} {d : DirectiveWiring} {types : TypeRegistry}
  {c : Coordinates}

theorem OneMore.same (h : w.OneMore name d w') :
    w'.scalars = w.scalars ∧ w'.fetchers = w.fetchers ∧ w'.resolvers = w.resolvers := by
  cases h <;> exact ⟨rfl, rfl, rfl⟩

theorem OneMore.wrap_eq (h : w.OneMore name d w') (hidle : d.Idle) (types : TypeRegistry)
    (c : Coordinates) : w'.wrap types c = w.wrap types c := by
  funext f
  unfold wrap
  cases types.field? c with
  | none => rfl
  | some field =>
    cases h with
    | global hname hw => simp [hw, hidle _ _]
    | named hname hnew hget =>
      -- Only a use under the name of the new wiring finds another wiring, and that one is idle.
      dsimp only
      congr 2
      funext f use
      rw [hget]
      by_cases hn : use.name = name
      · rw [if_pos hn, hn, ← named?, hnew]
        exact hidle _ f
      · rw [if_neg hn, named?]

theorem OneMore.carriesAt_eq (h : w.OneMore name d w') :
    types.carriesAt (fun n => (w'.named? n).isSome) c =
      (types.carriesAt (fun n => (w.named? n).isSome) c || types.reachedBy name c) := by
  cases h with
  | global hname hw => simp [TypeRegistry.reachedBy, hname, named?]
  | named hname hnew hget =>
    rw [TypeRegistry.reachedBy, hname, Bool.not_false, Bool.true_and, ← TypeRegistry.carriesAt_or]
    congr 1
    funext n
    by_cases hn : n = name <;> simp [named?, hget, hn]

theorem oneMore_addDirective (hnew : w.named? name = none) :
    w.OneMore name d (w.addDirective name d) := by
  unfold addDirective
  split
  · rename_i hname
    exact .global hname (List.append_nil _).symm
  · rename_i hname
    refine .named (Bool.eq_false_iff.mpr hname) hnew fun n => ?_
    by_cases hn : n = name
    · rw [if_pos hn, hn, Entries.get?_put_self]
    · rw [if_neg hn, Entries.get?_put_of_ne _ _ hn, named?]

theorem apply_globals (w : RuntimeWiring) (globals : List DirectiveWiring) (call : WiringCall) :
    WiringCall.apply { w with globals := globals } call =
      { WiringCall.apply w call with globals := globals ++ call.global?.toList } := by
  cases call with
  | addDirective n wiring =>
    by_cases hblank : isBlankText n = true <;>
      simp [WiringCall.apply, addDirective, WiringCall.global?, hblank]
  | _ => simp [WiringCall.apply, addScalar, bind, setResolver, WiringCall.global?]

theorem apply_directives (w : RuntimeWiring) (directives : Entries DirectiveWiring)
    (call : WiringCall) : WiringCall.apply { w with directives := directives } call =
      { WiringCall.apply w call with
        directives := (WiringCall.apply { w with directives := directives } call).directives } := by
  cases call with
  | addDirective n wiring =>
    by_cases hblank : isBlankText n = true <;> simp [WiringCall.apply, addDirective, hblank]
  | _ => rfl

/-- The same call on both sides leaves the one wiring more there, if it does not register another
one in its place. -/
theorem OneMore.apply {call : WiringCall} (h : w.OneMore name d w')
    (hcall : call.named? name = none) :
    (WiringCall.apply w call).OneMore name d (WiringCall.apply w' call) := by
  cases h with
  | @global before after hname hw =>
    rw [apply_globals w (before ++ d :: after), List.append_assoc, List.cons_append]
    refine .global hname ?_
    rw [WiringCall.globals_apply, hw, List.append_assoc]
  | @named directives hname hnew hget =>
    rw [apply_directives w directives]
    refine .named hname ?_ fun n => ?_
    · rw [WiringCall.named?_apply, hcall, Option.none_or, hnew]
    · rw [← named?, WiringCall.named?_apply, WiringCall.named?_apply, named?, hget]
      by_cases hn : n = name
      · rw [hn, hcall, if_pos rfl, if_pos rfl, Option.none_or]
      · rw [if_neg hn, if_neg hn]

theorem OneMore.foldl_apply {calls : List WiringCall} (h : w.OneMore name d w')
    (hcalls : ∀ call ∈ calls, call.named? name = none) :
    (calls.foldl WiringCall.apply w).OneMore name d (calls.foldl WiringCall.apply w') := by
  induction calls generalizing w w' with
  | nil => exact h
  | cons call rest ih =>
    obtain ⟨hcall, hrest⟩ := List.forall_mem_cons.mp hcalls
    exact ih (h.apply hcall) hrest

theorem oneMore_of_calls {before after : List WiringCall}
    (hnew : ∀ call ∈ before ++ after, call.named? name = none) (w : RuntimeWiring)
    (hw : w.named? name = none) : ((before ++ after).foldl WiringCall.apply w).OneMore name d
      ((before ++ .addDirective name d :: after).foldl WiringCall.apply w) := by
  obtain ⟨hbefore, hafter⟩ := List.forall_mem_append.mp hnew
  have hnamed : (before.foldl WiringCall.apply w).named? name = none := by
    rw [WiringCall.named?_foldl, hw, Option.or_none, lastGiven, List.findSome?_eq_none_iff]
    exact fun call hcall => hbefore call (List.mem_reverse.mp hcall)
  rw [List.foldl_append, List.foldl_append, List.foldl_cons]
  exact (oneMore_addDirective hnamed).foldl_apply hafter

end RuntimeWiring

/-- Components that declare the same as others, apart from what they put into the wiring. -/
structure SameDeclared (components others : List Component) : Prop where
  typeContributors : others.flatMap (·.typeContributors) = components.flatMap (·.typeContributors)
  contribute : others.any Component.hasContributors = components.any Component.hasContributors
  fetchers : declaredFetchers others = declaredFetchers components
  loaders : (others.flatMap fun c => c.loaders.map fun l => (c.name, c.decorated, l)) =
    components.flatMap fun c => c.loaders.map fun l => (c.name, c.decorated, l)
  resolvers : (others.flatMap fun c => c.resolvers.map fun d => (c.name, d)) =
    components.flatMap fun c => c.resolvers.map fun d => (c.name, d)
  codeContributors : others.flatMap (·.codeContributors) = components.flatMap (·.codeContributors)
  entities : (others.flatMap fun c => c.entities.map fun d => (c.name, d)) =
    components.flatMap fun c => c.entities.map fun d => (c.name, d)

namespace SameDeclared

variable {components others : List Component}

theorem bindFetchers_eq (h : SameDeclared components others) (types : TypeRegistry) :
    bindFetchers types others = bindFetchers types components := by
  rw [bindFetchers, bindFetchers, h.fetchers]

theorem registerLoaders_eq (h : SameDeclared components others)
    (instrumentation : List LoaderInstrumentation) :
    registerLoaders instrumentation others = registerLoaders instrumentation components := by
  have hnames : ∀ cs : List Component, registerLoaders instrumentation cs =
      (cs.flatMap fun c => c.loaders.map fun l => (c.name, c.decorated, l)).foldlM
        (fun (t : LoaderTable) l => t.registerDeclared l.1 l.2.1 l.2.2.1 l.2.2.2)
        { instrumentation := instrumentation } := by
    intro cs
    have hmap : (cs.flatMap fun c => c.loaders.map fun l => (c.name, c.decorated, l)) =
        (cs.flatMap fun c => c.loaders.map fun l => (c, l)).map fun l =>
          (l.1.name, l.1.decorated, l.2) := by
      simp [List.map_flatMap, Function.comp_def]
    rw [hmap, List.foldlM_map]
    rfl
  rw [hnames, hnames, h.loaders]

theorem registerResolvers_eq (h : SameDeclared components others) (types : TypeRegistry)
    (r : CodeRegistry) :
    registerResolvers types others r = registerResolvers types components r := by
  rw [registerResolvers, registerResolvers, h.resolvers]

theorem registerEntities_eq (h : SameDeclared components others) :
    registerEntities others = registerEntities components := by
  rw [registerEntities, registerEntities, h.entities]

end SameDeclared

namespace Assembler

def withComponents (a : Assembler) (others : List Component) (accepts : Component → Bool) :
    Assembler :=
  { a with components := others, accepts := accepts }

variable {a : Assembler} {others : List Component} {accepts : Component → Bool}
  {files : FileTree} {raw : Option String} {visibility : Visibility} {s t : Snapshot}
  {name : String} {d : DirectiveWiring}

/-- A call that registers a wiring, among the calls that were made without it, gives one more. -/
theorem oneMore_of_wiringCalls {b : Assembler} {before after : List WiringCall}
    (hcalls : a.wiringCalls = before ++ after)
    (hcalls' : b.wiringCalls = before ++ .addDirective name d :: after)
    (hnew : ∀ call ∈ before ++ after, call.named? name = none) :
    a.wiring.OneMore name d b.wiring := by
  rw [wiring_eq, wiring_eq, hcalls, hcalls']
  exact RuntimeWiring.oneMore_of_calls hnew {} rfl

theorem mergeTypes_withComponents
    (h : SameDeclared a.activeComponents (a.withComponents others accepts).activeComponents) :
    (a.withComponents others accepts).mergeTypes files raw = a.mergeTypes files raw := by
  simp only [mergeTypes, h.typeContributors, h.contribute]
  rfl

theorem unwired_withComponents
    (h : SameDeclared a.activeComponents (a.withComponents others accepts).activeComponents)
    (hwiring : a.wiring.OneMore name d (a.withComponents others accepts).wiring) :
    (a.withComponents others accepts).unwired files raw visibility =
      a.unwired files raw visibility := by
  obtain ⟨hscalars, hfetchers, hresolvers⟩ := hwiring.same
  simp only [unwired, mergeTypes_withComponents h, h.bindFetchers_eq, h.registerLoaders_eq,
    h.registerResolvers_eq, h.registerEntities_eq, contributedCode, h.codeContributors, hscalars,
    hfetchers, hresolvers]
  rfl

/-- What is bound with one more wiring: what was bound without it, or else the property fetcher for
a field that carries its directive, inside the wirings that were there. -/
theorem bound?_dressed_oneMore {w w' : RuntimeWiring} (h : w.OneMore name d w') (hidle : d.Idle)
    (r : CodeRegistry) (types : TypeRegistry) (c : Coordinates) :
    (r.dressed w' types).bound? c = ((r.dressed w types).bound? c).or
      (if types.reachedBy name c then some (w.wrap types c .property) else none) := by
  rw [CodeRegistry.bound?_dressed, CodeRegistry.bound?_dressed, h.carriesAt_eq,
    h.wrap_eq hidle]
  cases r.bound? c with
  | some f => rfl
  | none =>
    cases types.carriesAt (fun n => (w.named? n).isSome) c <;>
      cases types.reachedBy name c <;> rfl

/-- One more wiring that does nothing makes no difference to whether an assembly succeeds, and none
to the fetcher of any coordinates but those that had none and are reached by it: fields of object
types that carry its directive. These are bound now, so the wirings that there are reach them; where
the fallback is the property fetcher, each has its old fetcher inside them. -/
theorem assemble_oneMore (a : Assembler) (others : List Component) (accepts : Component → Bool)
    (files : FileTree) (raw : Option String) (visibility : Visibility) (name : String)
    (d : DirectiveWiring)
    (hdeclared : SameDeclared a.activeComponents (a.withComponents others accepts).activeComponents)
    (hwiring : a.wiring.OneMore name d (a.withComponents others accepts).wiring) (hidle : d.Idle) :
    let b := a.withComponents others accepts
    (∀ e, b.assemble files raw visibility = .error e ↔ a.assemble files raw visibility = .error e) ∧
      ∀ s, a.assemble files raw visibility = .ok s →
        ∃ t, b.assemble files raw visibility = .ok t ∧
          (∀ c, (s.schema.code.isBound c = true ∨ s.schema.types.reachedBy name c = false) →
            t.schema.fetcher c = s.schema.fetcher c) ∧
          (∀ c, s.schema.code.isBound c = false → s.schema.types.reachedBy name c = true →
            s.schema.code.fallback = .property →
              t.schema.fetcher c = a.wiring.wrap s.schema.types c (s.schema.fetcher c)) := by
  intro b
  have hunwired : b.unwired files raw visibility = a.unwired files raw visibility :=
    unwired_withComponents hdeclared hwiring
  refine ⟨fun e => ?_, fun s hs => ?_⟩
  · rw [assemble_eq_error_iff_unwired, assemble_eq_error_iff_unwired, hunwired]
  · obtain ⟨u, hu, rfl⟩ := assemble_eq_ok_iff.mp hs
    have hfetcher : ∀ c, (u.dressed b.wiring).schema.fetcher c =
        (((u.dressed a.wiring).schema.code.bound? c).or
          (if u.schema.types.reachedBy name c then some (a.wiring.wrap u.schema.types c .property)
          else none)).getD u.schema.code.fallback := by
      intro c
      rw [Snapshot.fetcher_dressed]
      exact congrArg (fun f : Option Fetcher => f.getD _)
        (bound?_dressed_oneMore hwiring hidle u.schema.code u.schema.types c)
    refine ⟨u.dressed b.wiring, assemble_eq_ok_iff.mpr ⟨u, hunwired.trans hu, rfl⟩, ?_, ?_⟩
    · intro c hc
      rw [hfetcher, Snapshot.fetcher_dressed]
      rcases hc with hbound | hreached
      · obtain ⟨f, hf⟩ := Option.isSome_iff_exists.mp hbound
        rw [hf]
        rfl
      · rw [Snapshot.types_dressed] at hreached
        rw [if_neg (Bool.eq_false_iff.mp hreached), Option.or_none]
    · intro c hfree hreached hfallback
      rw [CodeRegistry.isBound, Option.isSome_eq_false_iff, Option.isNone_iff_eq_none] at hfree
      rw [Snapshot.types_dressed] at hreached ⊢
      have hproperty : u.schema.code.fallback = .property :=
        CodeRegistry.fallback_dressed.symm.trans hfallback
      rw [hfetcher, Snapshot.fetcher_dressed, hfree, if_pos hreached, hproperty]
      rfl

def tagging (directives : List (String × DirectiveWiring)) : Assembler where
  components := [{ name := "catalogue", directives := directives }]
  types := some (TypeRegistry.initial.declare [] (validationDirectives.map fun d =>
    ⟨d.1, none, [], [.argumentDefinition], false⟩))

def taggingText : String :=
  "type Query \x7b title(id: ID @NotBlank): ID @tagged shelf(id: ID @NotBlank): ID \x7d"

def idle : DirectiveWiring := fun _ f => f

theorem sameDeclared_tagging (directives : List (String × DirectiveWiring)) :
    SameDeclared (tagging []).activeComponents (tagging directives).activeComponents :=
  ⟨rfl, rfl, rfl, rfl, rfl, rfl, rfl⟩

theorem oneMore_tagging :
    (tagging []).wiring.OneMore "tagged" idle (tagging [("tagged", idle)]).wiring := by
  refine oneMore_of_wiringCalls (List.append_nil _).symm rfl ?_
  have hnew : ((tagging []).wiringCalls ++ []).all fun call =>
    (call.named? "tagged").isNone := by decide +kernel
  exact fun call hcall => Option.isNone_iff_eq_none.mp (List.all_eq_true.mp hnew call hcall)

def errorCount : FetchWork → Nat
  | .done (.ok r) => r.errors.length
  | _ => 0

/-- Without the wiring nothing is bound for the title; with it, the validation is in front. -/
theorem exists_tagging : ∃ s t, (tagging []).assemble .empty (some taggingText) .all = .ok s ∧
    (tagging [("tagged", idle)]).assemble .empty (some taggingText) .all = .ok t ∧
    s.schema.code.isBound ⟨"Query", "title"⟩ = false ∧
    s.schema.types.reachedBy "tagged" ⟨"Query", "title"⟩ = true ∧
    s.schema.types.reachedBy "tagged" ⟨"Query", "shelf"⟩ = false ∧
    errorCount ((s.schema.fetcher ⟨"Query", "title"⟩).fetch (.of ⟨"Query", "title"⟩)) = 0 ∧
    errorCount ((t.schema.fetcher ⟨"Query", "title"⟩).fetch (.of ⟨"Query", "title"⟩)) = 1 := by
  have hchecked : ((tagging []).assemble .empty (some taggingText) .all).toOption.any (fun s =>
      ((tagging [("tagged", idle)]).assemble .empty (some taggingText) .all).toOption.any fun t =>
        decide (s.schema.code.isBound ⟨"Query", "title"⟩ = false ∧
          s.schema.types.reachedBy "tagged" ⟨"Query", "title"⟩ = true ∧
          s.schema.types.reachedBy "tagged" ⟨"Query", "shelf"⟩ = false ∧
          errorCount ((s.schema.fetcher ⟨"Query", "title"⟩).fetch (.of ⟨"Query", "title"⟩)) = 0 ∧
          errorCount ((t.schema.fetcher ⟨"Query", "title"⟩).fetch (.of ⟨"Query", "title"⟩)) = 1)) =
      true := by decide +kernel
  obtain ⟨s, hs, hchecked⟩ := Except.exists_ok_of_any hchecked
  obtain ⟨t, ht, hchecked⟩ := Except.exists_ok_of_any hchecked
  exact ⟨s, t, hs, ht, of_decide_eq_true hchecked⟩

theorem assemble_oneMore_tagging :
    SameDeclared (tagging []).activeComponents (tagging [("tagged", idle)]).activeComponents ∧
    (tagging []).wiring.OneMore "tagged" idle (tagging [("tagged", idle)]).wiring ∧ idle.Idle ∧
    ∃ s t, (tagging []).assemble .empty (some taggingText) .all = .ok s ∧
    (tagging [("tagged", idle)]).assemble .empty (some taggingText) .all = .ok t ∧
    t.schema.fetcher ⟨"Query", "shelf"⟩ = s.schema.fetcher ⟨"Query", "shelf"⟩ ∧
    t.schema.fetcher ⟨"Query", "title"⟩ = (tagging []).wiring.wrap s.schema.types
      ⟨"Query", "title"⟩ (s.schema.fetcher ⟨"Query", "title"⟩) := by
  obtain ⟨s, t, hs, ht, hfree, hreached, hshelf, -, -⟩ := exists_tagging
  obtain ⟨-, hok⟩ := assemble_oneMore (tagging []) (tagging [("tagged", idle)]).components
    (fun _ => true) .empty (some taggingText) .all "tagged" idle (sameDeclared_tagging _)
    oneMore_tagging fun _ _ => rfl
  obtain ⟨t', ht', hsame, hnew⟩ := hok s hs
  obtain rfl : t = t' := Except.ok.inj (ht.symm.trans ht')
  exact ⟨sameDeclared_tagging _, oneMore_tagging, fun _ _ => rfl, s, t, hs, ht,
    hsame _ (.inr hshelf), hnew _ hfree hreached (fallback_of_assemble rfl hs)⟩

/-- A wiring that does nothing can be seen: the validation reaches a field that had no fetcher. -/
theorem idle_wiring_reaches_validation :
    ¬ ∀ (a : Assembler) (others : List Component) (accepts : Component → Bool) (name : String)
      (d : DirectiveWiring),
      SameDeclared a.activeComponents (a.withComponents others accepts).activeComponents →
      a.wiring.OneMore name d (a.withComponents others accepts).wiring → d.Idle →
      ∀ files raw visibility s t, a.assemble files raw visibility = .ok s →
        (a.withComponents others accepts).assemble files raw visibility = .ok t →
          ∀ c e, (t.schema.fetcher c).fetch e = (s.schema.fetcher c).fetch e := by
  intro h
  obtain ⟨s, t, hs, ht, -, -, -, hbefore, hafter⟩ := exists_tagging
  have hsame := h (tagging []) (tagging [("tagged", idle)]).components (fun _ => true) "tagged" idle
    (sameDeclared_tagging _) oneMore_tagging (fun _ _ => rfl) .empty (some taggingText) .all s t
    hs ht ⟨"Query", "title"⟩ (.of ⟨"Query", "title"⟩)
  rw [hsame, hbefore] at hafter
  cases hafter

end Assembler

end SchemaAssembly
