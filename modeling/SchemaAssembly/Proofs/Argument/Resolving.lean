import Mathlib.Data.List.Forall2
import SchemaAssembly.Fetcher.Basic

/-!
What a shared chain of resolvers gives to handlers. The chain remembers by the number of a handler
and the index of a parameter which resolver it found; as copies of a handler have the same
parameters, and the chain forgets all when it grows, what it remembers is what it would find again.
So every invocation is given what the first resolvers of the chain at that time give.
-/

set_option autoImplicit false

namespace SchemaAssembly

namespace Handler

/-- The same handler, perhaps with another owner. -/
def CopyOf (h k : Handler) : Prop := h = { k with owner := h.owner }

/-- Handlers as they are made: parameters carry the number of their handler and their positions, and
handlers of one number are copies. -/
structure WellNumbered (hs : List Handler) : Prop where
  numbered : ∀ h ∈ hs, ∃ declared, h.parameters = parametersOf h.id declared
  copies : ∀ h ∈ hs, ∀ k ∈ hs, h.id = k.id → h.CopyOf k

variable {h k : Handler} {p q : Parameter} {hs : List Handler}

theorem CopyOf.parameters_eq (hcopy : h.CopyOf k) : h.parameters = k.parameters := by
  rw [hcopy]

theorem getElem?_parametersOf (id : Nat) (declared : List (String × ParameterKind)) (i : Nat) :
    (parametersOf id declared)[i]? = declared[i]?.map fun d => ⟨id, i, d.1, d.2⟩ :=
  List.getElem?_mapIdx

theorem getElem?_index {declared : List (String × ParameterKind)}
    (hp : p ∈ parametersOf h.id declared) :
    p.handler = h.id ∧ (parametersOf h.id declared)[p.index]? = some p := by
  obtain ⟨i, hi⟩ := List.getElem?_of_mem hp
  have hp' := hi
  rw [getElem?_parametersOf] at hp'
  obtain ⟨d, -, rfl⟩ := Option.map_eq_some_iff.mp hp'
  exact ⟨rfl, hi⟩

theorem WellNumbered.parameter_eq (hw : WellNumbered hs) (hh : h ∈ hs) (hk : k ∈ hs)
    (hp : p ∈ h.parameters) (hq : q ∈ k.parameters) (hhandler : p.handler = q.handler)
    (hindex : p.index = q.index) : p = q := by
  obtain ⟨declared, hdeclared⟩ := hw.numbered h hh
  obtain ⟨declared', hdeclared'⟩ := hw.numbered k hk
  obtain ⟨hid, hfound⟩ := getElem?_index (hdeclared ▸ hp)
  obtain ⟨hid', hfound'⟩ := getElem?_index (hdeclared' ▸ hq)
  have hsame := (hw.copies h hh k hk (hid.symm.trans (hhandler.trans hid'))).parameters_eq
  rw [← hdeclared, hsame, hdeclared', hindex, hfound'] at hfound
  exact (Option.some.inj hfound).symm

end Handler

namespace ArgumentResolver

variable {resolvers : List ArgumentResolver} {owner : String} {e : FieldEnvironment}
  {p : Parameter} {ps : List Parameter} {v : ArgumentValue} {err : ResolutionError}
  {x : Except ResolutionError ArgumentValue}

/-- The first resolver that supports a parameter gives `x` for it. -/
def FirstGives (resolvers : List ArgumentResolver) (e : FieldEnvironment) (p : Parameter)
    (x : Except ResolutionError ArgumentValue) : Prop :=
  ∃ before r after, resolvers = before ++ r :: after ∧ (∀ q ∈ before, q.supports p = false) ∧
    r.supports p = true ∧ r.resolve p e = x

def Unsupported (resolvers : List ArgumentResolver) (p : Parameter) : Prop :=
  ∀ r ∈ resolvers, r.supports p = false

def GiveAll (resolvers : List ArgumentResolver) (e : FieldEnvironment) (ps : List Parameter)
    (values : List ArgumentValue) : Prop :=
  List.Forall₂ (fun p v => FirstGives resolvers e p (.ok v)) ps values

/-- What becomes of parameters, from the first to the last: they are all given values, or the first
one that fails decides. -/
inductive Resolved (resolvers : List ArgumentResolver) (owner : String) (e : FieldEnvironment)
    (ps : List Parameter) : Except ResolutionError (List ArgumentValue) → Prop
  | given {values : List ArgumentValue} (all : GiveAll resolvers e ps values) :
      Resolved resolvers owner e ps (.ok values)
  | refused {before after : List Parameter} {p : Parameter} {values : List ArgumentValue}
      {err : ResolutionError} (parameters : ps = before ++ p :: after)
      (earlier : GiveAll resolvers e before values)
      (refusal : FirstGives resolvers e p (.error err)) :
      Resolved resolvers owner e ps (.error err)
  | unsupported {before after : List Parameter} {p : Parameter} {values : List ArgumentValue}
      (parameters : ps = before ++ p :: after) (earlier : GiveAll resolvers e before values)
      (none : Unsupported resolvers p) :
      Resolved resolvers owner e ps (.error (.noArgumentResolver p.index owner))

theorem firstGives_iff : FirstGives resolvers e p x ↔
    ∃ r, (resolvers.find? fun r => r.supports p) = some r ∧ r.resolve p e = x := by
  simp only [FirstGives, List.find?_eq_some_iff_append]
  constructor
  · rintro ⟨before, r, after, hchain, hpassed, hsupports, hx⟩
    exact ⟨r, ⟨hsupports, before, after, hchain, by simpa using hpassed⟩, hx⟩
  · rintro ⟨r, ⟨hsupports, before, after, hchain, hpassed⟩, hx⟩
    exact ⟨before, r, after, hchain, by simpa using hpassed, hsupports, hx⟩

theorem unsupported_iff : Unsupported resolvers p ↔
    (resolvers.find? fun r => r.supports p) = none := by
  simp [Unsupported]

theorem resolveAll_cons_given (h : FirstGives resolvers e p (.ok v)) :
    resolveAll resolvers owner e (p :: ps) =
      (resolveAll resolvers owner e ps).map fun vs => v :: vs := by
  obtain ⟨r, hr, hv⟩ := firstGives_iff.mp h
  rw [resolveAll, hr]
  simp only [hv]
  cases resolveAll resolvers owner e ps <;> rfl

theorem resolveAll_cons_refused (h : FirstGives resolvers e p (.error err)) :
    resolveAll resolvers owner e (p :: ps) = .error err := by
  obtain ⟨r, hr, herr⟩ := firstGives_iff.mp h
  rw [resolveAll, hr]
  simp only [herr]
  rfl

theorem resolveAll_cons_unsupported (h : Unsupported resolvers p) :
    resolveAll resolvers owner e (p :: ps) = .error (.noArgumentResolver p.index owner) := by
  rw [resolveAll, unsupported_iff.mp h]

theorem firstGives_or_unsupported (resolvers : List ArgumentResolver) (e : FieldEnvironment)
    (p : Parameter) : (∃ x, FirstGives resolvers e p x) ∨ Unsupported resolvers p := by
  cases hfind : resolvers.find? fun r => r.supports p with
  | none => exact .inr (unsupported_iff.mpr hfind)
  | some r => exact .inl ⟨r.resolve p e, firstGives_iff.mpr ⟨r, hfind, rfl⟩⟩

theorem Resolved.cons {x : Except ResolutionError (List ArgumentValue)}
    (h : FirstGives resolvers e p (.ok v)) (hx : Resolved resolvers owner e ps x) :
    Resolved resolvers owner e (p :: ps) (x.map fun vs => v :: vs) := by
  cases hx with
  | given all => exact .given (.cons h all)
  | refused parameters earlier refusal =>
    exact .refused (by rw [parameters, List.cons_append]) (.cons h earlier) refusal
  | unsupported parameters earlier none =>
    exact .unsupported (by rw [parameters, List.cons_append]) (.cons h earlier) none

theorem resolved_resolveAll (resolvers : List ArgumentResolver) (owner : String)
    (e : FieldEnvironment) (ps : List Parameter) :
    Resolved resolvers owner e ps (resolveAll resolvers owner e ps) := by
  induction ps with
  | nil => exact .given .nil
  | cons p rest ih =>
    rcases firstGives_or_unsupported resolvers e p with ⟨x, hx⟩ | hnone
    · cases x with
      | ok v =>
        rw [resolveAll_cons_given hx]
        exact ih.cons hx
      | error err =>
        rw [resolveAll_cons_refused hx]
        exact .refused rfl .nil hx
    · rw [resolveAll_cons_unsupported hnone]
      exact .unsupported rfl .nil hnone

theorem resolveAll_append {before : List Parameter} {values : List ArgumentValue}
    (h : GiveAll resolvers e before values) : resolveAll resolvers owner e (before ++ ps) =
      (resolveAll resolvers owner e ps).map fun vs => values ++ vs := by
  induction h with
  | nil =>
    rw [List.nil_append]
    cases resolveAll resolvers owner e ps <;> rfl
  | cons hv _ ih =>
    rw [List.cons_append, resolveAll_cons_given hv, ih]
    cases resolveAll resolvers owner e ps <;> rfl

theorem resolved_iff {x : Except ResolutionError (List ArgumentValue)} :
    Resolved resolvers owner e ps x ↔ resolveAll resolvers owner e ps = x := by
  constructor
  · rintro (all | ⟨rfl, earlier, refusal⟩ | ⟨rfl, earlier, none⟩)
    · have hall : resolveAll resolvers owner e (ps ++ []) = _ := resolveAll_append all
      rwa [List.append_nil, resolveAll, Except.map, List.append_nil] at hall
    · rw [resolveAll_append earlier, resolveAll_cons_refused refusal]
      rfl
    · rw [resolveAll_append earlier, resolveAll_cons_unsupported none]
      rfl
  · rintro rfl
    exact resolved_resolveAll resolvers owner e ps

end ArgumentResolver

namespace Invocation

/-- What becomes of a handler: its function is called once, with one value for each parameter, if
all of them are given values, and is not called otherwise. -/
inductive Plain (resolvers : List ArgumentResolver) (h : Handler) (e : FieldEnvironment) :
    Invocation → Prop
  | called {a : ResolvedArguments} (names : a.names = h.parameters.map (·.name))
      (environment : a.environment = e)
      (values : ArgumentResolver.Resolved resolvers h.qualifiedName e h.parameters (.ok a.values)) :
      Plain resolvers h e ⟨.ok a, [a], h.function a⟩
  | failed {err : ResolutionError}
      (failure : ArgumentResolver.Resolved resolvers h.qualifiedName e h.parameters (.error err)) :
      Plain resolvers h e ⟨.error err, [], .error (.ofResolution err)⟩

variable {resolvers : List ArgumentResolver} {h : Handler} {e : FieldEnvironment} {i : Invocation}

theorem plain_iff : i.Plain resolvers h e ↔ h.invoke resolvers e = i := by
  constructor
  · rintro (⟨hnames, henvironment, hvalues⟩ | failure)
    · rename_i a
      obtain ⟨names, values, environment⟩ := a
      obtain rfl : names = h.parameters.map (·.name) := hnames
      obtain rfl : environment = e := henvironment
      rw [Handler.invoke, Handler.resolveArguments, ArgumentResolver.resolved_iff.mp hvalues]
      rfl
    · rw [Handler.invoke, Handler.resolveArguments, ArgumentResolver.resolved_iff.mp failure]
      rfl
  · rintro rfl
    unfold Handler.invoke Handler.resolveArguments
    have hresolved := ArgumentResolver.resolved_resolveAll resolvers h.qualifiedName e h.parameters
    split
    · rename_i err herr
      exact .failed (herr ▸ hresolved)
    · rename_i values hvalues
      exact .called rfl rfl (hvalues ▸ hresolved)

end Invocation

/-- What happens to a shared chain. -/
inductive ChainUse where
  | add (r : ArgumentResolver)
  | invoke (h : Handler) (e : FieldEnvironment)

def ChainUse.handlers : ChainUse → List Handler
  | add _ => []
  | invoke h _ => [h]

structure PlainUse where
  resolvers : List ArgumentResolver
  handler : Handler
  environment : FieldEnvironment

def plainUses : List ArgumentResolver → List ChainUse → List PlainUse
  | _, [] => []
  | resolvers, .add r :: rest => plainUses (resolvers ++ [r]) rest
  | resolvers, .invoke h e :: rest => ⟨resolvers, h, e⟩ :: plainUses resolvers rest

namespace ResolverChain

def standard (custom : List ArgumentResolver) (mapper : InputMapper) : ResolverChain where
  resolvers := ArgumentResolver.standard custom mapper

def run : ResolverChain → List ChainUse → List Invocation
  | _, [] => []
  | c, .add r :: rest => run (c.add r) rest
  | c, .invoke h e :: rest => (c.invoke h e).2 :: run (c.invoke h e).1 rest

variable {c : ResolverChain} {p q : Parameter} {ps : List Parameter} {hs : List Handler}
  {h : Handler} {e : FieldEnvironment} {i : Nat}

/-- The chain remembers of the parameters of these handlers only what it would find again. -/
def Faithful (hs : List Handler) (c : ResolverChain) : Prop :=
  ∀ h ∈ hs, ∀ p ∈ h.parameters, ∀ i, c.found? p = some i →
    ArgumentResolver.position? c.resolvers p = some i

theorem faithful_of_found_nil (hc : c.found = []) : c.Faithful hs := by
  intro h _ p _ i hi
  rw [found?, hc] at hi
  cases hi

/-- What is remembered for one parameter is found for those of its handler and index only. -/
theorem found?_append {j : Nat}
    (hj : found? ⟨c.resolvers, c.found ++ [((q.handler, q.index), i)]⟩ p = some j) :
    c.found? p = some j ∨ (p.handler = q.handler ∧ p.index = q.index ∧ j = i) := by
  rw [found?, List.find?_append] at hj
  rw [found?]
  cases hfind : c.found.find? fun f => f.1 == (p.handler, p.index) with
  | some f =>
    rw [hfind] at hj
    exact .inl hj
  | none =>
    rw [hfind, Option.none_or, List.find?_singleton] at hj
    split at hj
    · rename_i hkey
      obtain ⟨hhandler, hindex⟩ := Prod.mk.inj (beq_iff_eq.mp hkey)
      exact .inr ⟨hhandler.symm, hindex.symm, (Option.some.inj hj).symm⟩
    · cases hj

/-- A lookup gives the first resolver that supports the parameter, leaves the resolvers as they are
and what is remembered faithful. -/
theorem position_spec (hw : Handler.WellNumbered hs) (hc : c.Faithful hs) (hh : h ∈ hs)
    (hp : p ∈ h.parameters) : (c.position p).2 = ArgumentResolver.position? c.resolvers p ∧
      (c.position p).1.resolvers = c.resolvers ∧ (c.position p).1.Faithful hs := by
  unfold position
  split
  · rename_i i hi
    exact ⟨(hc h hh p hp i hi).symm, rfl, hc⟩
  · split
    · rename_i hnone
      exact ⟨hnone.symm, rfl, hc⟩
    · rename_i i hi
      refine ⟨hi.symm, rfl, ?_⟩
      intro k hk q hq j hj
      rcases found?_append hj with hold | ⟨hhandler, hindex, rfl⟩
      · exact hc k hk q hq j hold
      · -- the entry is for this handler number and index, and so for this very parameter
        rw [hw.parameter_eq hk hh hq hp hhandler hindex]
        exact hi

theorem resolverFor_spec (hw : Handler.WellNumbered hs) (hc : c.Faithful hs) (hh : h ∈ hs)
    (hp : p ∈ h.parameters) :
    (c.resolverFor p).2 = (c.resolvers.find? fun r => r.supports p) ∧
      (c.resolverFor p).1.resolvers = c.resolvers ∧ (c.resolverFor p).1.Faithful hs := by
  obtain ⟨hfound, hstays⟩ := position_spec hw hc hh hp
  refine ⟨?_, hstays⟩
  rw [resolverFor, hfound, ArgumentResolver.position?, List.find?_eq_bind_findIdx?_getElem?]

theorem resolveAll_spec (owner : String) (e : FieldEnvironment) (hw : Handler.WellNumbered hs)
    (hc : c.Faithful hs) (hh : h ∈ hs) (hps : ∀ p ∈ ps, p ∈ h.parameters) :
    (resolveAll owner e c ps).2 = ArgumentResolver.resolveAll c.resolvers owner e ps ∧
      (resolveAll owner e c ps).1.resolvers = c.resolvers ∧
      (resolveAll owner e c ps).1.Faithful hs := by
  induction ps generalizing c with
  | nil => exact ⟨rfl, rfl, hc⟩
  | cons p rest ih =>
    obtain ⟨hfound, hsame, hfaithful⟩ :=
      resolverFor_spec hw hc hh (hps p List.mem_cons_self)
    have hrest := ih hfaithful fun q hq => hps q (List.mem_cons_of_mem p hq)
    rw [hsame] at hrest
    rw [resolveAll, ArgumentResolver.resolveAll, ← hfound]
    generalize c.resolverFor p = l at hsame hfaithful hrest
    obtain ⟨next, _ | r⟩ := l
    · exact ⟨rfl, hsame, hfaithful⟩
    · cases hv : r.resolve p e with
      | error err =>
        simp only [hv]
        exact ⟨rfl, hsame, hfaithful⟩
      | ok v =>
        obtain ⟨hvalues, hstays⟩ := hrest
        simp only [hv, hvalues]
        exact ⟨by cases ArgumentResolver.resolveAll c.resolvers owner e rest <;> rfl, hstays⟩

theorem invoke_spec (hw : Handler.WellNumbered hs) (hc : c.Faithful hs) (hh : h ∈ hs) :
    (c.invoke h e).2 = h.invoke c.resolvers e ∧
      (c.invoke h e).1.resolvers = c.resolvers ∧ (c.invoke h e).1.Faithful hs := by
  obtain ⟨hvalues, hstays⟩ :=
    resolveAll_spec h.qualifiedName e hw hc hh fun _ hp => hp
  refine ⟨?_, hstays⟩
  change h.callWith ((resolveAll h.qualifiedName e c h.parameters).2.map _) = _
  rw [hvalues, Handler.invoke, Handler.resolveArguments]
  cases ArgumentResolver.resolveAll c.resolvers h.qualifiedName e h.parameters <;> rfl

theorem run_eq_map {uses : List ChainUse} (hw : Handler.WellNumbered hs) (hc : c.Faithful hs)
    (huses : ∀ h ∈ uses.flatMap ChainUse.handlers, h ∈ hs) :
    c.run uses = (plainUses c.resolvers uses).map fun x =>
      x.handler.invoke x.resolvers x.environment := by
  induction uses generalizing c with
  | nil => rfl
  | cons u rest ih =>
    rw [List.flatMap_cons] at huses
    have hrest := fun h hh => huses h (List.mem_append_right _ hh)
    cases u with
    | add r => exact ih (faithful_of_found_nil rfl) hrest
    | invoke h e =>
      obtain ⟨hanswer, hsame, hfaithful⟩ :=
        invoke_spec (e := e) hw hc (huses h (List.mem_append_left _ (List.mem_singleton_self h)))
      rw [run, plainUses, List.map_cons, hanswer, ih hfaithful hrest, hsame]

/-- The invocations through a shared chain, resolvers being added in between, are those without
memory: each one is given what the first resolvers of the chain at that time give. -/
theorem run_iff_plain (custom : List ArgumentResolver) (mapper : InputMapper)
    (uses : List ChainUse) (results : List Invocation)
    (hw : Handler.WellNumbered (uses.flatMap ChainUse.handlers)) :
    ((standard custom mapper).run uses = results ↔
      List.Forall₂ (fun x i => Invocation.Plain x.resolvers x.handler x.environment i)
        (plainUses (ArgumentResolver.standard custom mapper) uses) results) ∧
    (standard custom mapper).run uses =
      (plainUses (ArgumentResolver.standard custom mapper) uses).map fun x =>
        x.handler.invoke x.resolvers x.environment := by
  have hrun := run_eq_map (c := standard custom mapper) hw (faithful_of_found_nil rfl)
    fun _ hh => hh
  refine ⟨?_, hrun⟩
  rw [hrun, ← List.forall₂_eq_eq_eq, List.forall₂_map_left_iff]
  simp only [Invocation.plain_iff]
  rfl

def pager (owner : String) : Handler where
  id := 1
  owner := owner
  name := "shows"
  parameters := Handler.parametersOf 1 [("first", .argument), ("page", .custom "page")]
  shape := .sync
  function a := .ok (.value (.list (a.names.map .str)))

def pages : ArgumentResolver where
  supports p := p.kind == .custom "page"
  resolve _ _ := .ok (.custom (.int 1))

theorem run_iff_plain_late_resolver :
    let e : FieldEnvironment := .of ⟨"Query", "shows"⟩
    let uses : List ChainUse := [.invoke (pager "Catalog") e, .add pages,
      .invoke (pager "Catalog") e, .invoke (pager "Archive") e]
    let missing : ResolutionError := .noArgumentResolver 1 "Catalog.shows"
    let given : ResolvedArguments :=
      ⟨["first", "page"], [.value .null, .custom (.int 1)], e⟩
    let answer : Except HandlerError HandlerResult :=
      .ok (.value (.list [.str "first", .str "page"]))
    Handler.WellNumbered (uses.flatMap ChainUse.handlers) ∧
      List.Forall₂ (fun x i => Invocation.Plain x.resolvers x.handler x.environment i)
        (plainUses (ArgumentResolver.standard [] .standard) uses)
        [⟨.error missing, [], .error (.ofResolution missing)⟩, ⟨.ok given, [given], answer⟩,
          ⟨.ok given, [given], answer⟩] := by
  intro e uses missing given answer
  have hw : Handler.WellNumbered (uses.flatMap ChainUse.handlers) := by
    have hpager : ∀ h ∈ uses.flatMap ChainUse.handlers, ∃ owner, h = pager owner := by
      intro h hh
      rcases hh with _ | ⟨_, _ | ⟨_, _ | ⟨_, ⟨⟩⟩⟩⟩ <;> exact ⟨_, rfl⟩
    constructor
    · intro h hh
      obtain ⟨owner, rfl⟩ := hpager h hh
      exact ⟨_, rfl⟩
    · intro h hh k hk _
      obtain ⟨owner, rfl⟩ := hpager h hh
      obtain ⟨other, rfl⟩ := hpager k hk
      rfl
  exact ⟨hw, (run_iff_plain [] .standard uses _ hw).1.mp rfl⟩

end ResolverChain

end SchemaAssembly
