import SchemaAssembly.Proofs.Schema.Extension
import SchemaAssembly.Proofs.Schema.PossibleTypes
import SchemaAssembly.Sdl.Fragment

/-!
Merging as a whole. Fragments can be merged into a registry just if their types and directives are
new and told apart by their names, and every extension finds a type of its kind; the result is then
the registry with all base definitions at the end, and all extensions applied to that.
-/

set_option autoImplicit false

namespace SchemaAssembly

section Steps

variable {α : Type} {step : TypeRegistry → α → Registration} {r s : TypeRegistry} {xs ys : List α}

theorem Registration.andThen_eq_done {x : Registration} {next : TypeRegistry → Registration} :
    x.andThen next = .done s ↔ ∃ m, x = .done m ∧ next m = .done s := by
  obtain ⟨m, failure⟩ := x
  cases failure with
  | none => simp [andThen, done]
  | some e => simp [andThen, done]

theorem Registration.done_inj : Registration.done r = .done s ↔ r = s := by
  simp [done]

theorem Registration.eq_done_of_failure {x : Registration} (h : x.failure = none) :
    x = .done x.registry := by
  rw [done, ← h]

theorem registerAll_nil : registerAll step r [] = .done s ↔ s = r := by
  rw [registerAll, Registration.done_inj, eq_comm]

theorem registerAll_cons {x : α} : registerAll step r (x :: xs) = .done s ↔
    ∃ m, step r x = .done m ∧ registerAll step m xs = .done s :=
  Registration.andThen_eq_done

end Steps

/-- The new names are distinct and none of them is among the old ones. -/
def Fresh (old new : List String) : Prop := new.Nodup ∧ ∀ n ∈ new, n ∉ old

section Names

variable {old xs ys : List String} {n : String}

theorem fresh_nil (old : List String) : Fresh old [] := ⟨.nil, fun _ h => absurd h List.not_mem_nil⟩

theorem fresh_append : Fresh old (xs ++ ys) ↔ Fresh old xs ∧ Fresh (old ++ xs) ys := by
  simp only [Fresh, List.nodup_append, List.mem_append, not_or]
  constructor
  · rintro ⟨⟨hx, hy, hxy⟩, hold⟩
    exact ⟨⟨hx, fun n hn => hold n (.inl hn)⟩, hy,
      fun n hn => ⟨hold n (.inr hn), fun hnx => hxy n hnx n hn rfl⟩⟩
  · rintro ⟨⟨hx, hox⟩, hy, hoy⟩
    refine ⟨⟨hx, hy, ?_⟩, ?_⟩
    · rintro n hnx _ hny rfl
      exact (hoy n hny).2 hnx
    · rintro n (hn | hn)
      · exact hox n hn
      · exact (hoy n hn).1

theorem fresh_singleton : Fresh old [n] ↔ n ∉ old := by simp [Fresh]

theorem fresh_cons : Fresh old (n :: xs) ↔ n ∉ old ∧ Fresh (old ++ [n]) xs := by
  rw [← fresh_singleton, ← fresh_append, List.singleton_append]

theorem Fresh.perm (h : Fresh old xs) (hp : xs.Perm ys) : Fresh old ys :=
  ⟨hp.nodup_iff.mp h.1, fun n hn => h.2 n (hp.mem_iff.mpr hn)⟩

end Names

/-- The types that these definitions define, each with its origin. -/
def typesOf (origin : String) (ds : List Sdl.Definition) : List Declared :=
  ds.filterMap fun
    | .type d => some ⟨d, origin⟩
    | _ => none

def directivesOf (ds : List Sdl.Definition) : List DirectiveDef :=
  ds.filterMap fun
    | .directive d => some d
    | _ => none

def extensionsOf (ds : List Sdl.Definition) : List TypeDef :=
  ds.filterMap fun
    | .extension d => some d
    | _ => none

def baseTypes (fs : List Fragment) : List Declared :=
  fs.flatMap fun f => typesOf f.name f.definitions

def directiveDefs (fs : List Fragment) : List DirectiveDef :=
  fs.flatMap fun f => directivesOf f.definitions

def extensions (fs : List Fragment) : List TypeDef :=
  fs.flatMap fun f => extensionsOf f.definitions

def Declared.name (d : Declared) : String := d.definition.name

namespace TypeRegistry

variable {r s : TypeRegistry} {d e : TypeDef} {es : List TypeDef} {fs gs : List Fragment}
  {n origin : String} {ds : List Sdl.Definition}

def directiveNames (r : TypeRegistry) : List String := r.directives.map (·.name)

theorem names_eq (r : TypeRegistry) : r.names = r.declared.map Declared.name := by
  rw [names, types, List.map_map]
  rfl

theorem isSome_entry?_iff : (r.entry? n).isSome = true ↔ n ∈ r.names := by
  rw [names_eq, entry?, List.find?_isSome, List.mem_map]
  simp [Declared.name]

theorem entry?_eq_none_iff : r.entry? n = none ↔ n ∉ r.names := by
  rw [← isSome_entry?_iff, Bool.not_eq_true, Option.isSome_eq_false_iff, Option.isNone_iff_eq_none]

theorem get?_eq_none_iff : r.get? n = none ↔ n ∉ r.names := by
  rw [get?, Option.map_eq_none_iff, entry?_eq_none_iff]

theorem mem_names_of_get? (h : r.get? n = some d) : n ∈ r.names := by
  by_contra hn
  rw [get?_eq_none_iff.mpr hn] at h
  cases h

def declare (r : TypeRegistry) (types : List Declared) (directives : List DirectiveDef) :
    TypeRegistry :=
  { r with declared := r.declared ++ types, directives := r.directives ++ directives }

theorem names_declare (r : TypeRegistry) (ts : List Declared) (us : List DirectiveDef) :
    (r.declare ts us).names = r.names ++ ts.map Declared.name := by
  simp [names_eq, declare]

theorem directiveNames_declare (r : TypeRegistry) (ts : List Declared) (us : List DirectiveDef) :
    (r.declare ts us).directiveNames = r.directiveNames ++ us.map (·.name) := by
  simp [directiveNames, declare]

theorem declare_nil (r : TypeRegistry) : r.declare [] [] = r := by simp [declare]

theorem declare_declare (r : TypeRegistry) (ts ts' : List Declared) (us us' : List DirectiveDef) :
    (r.declare ts us).declare ts' us' = r.declare (ts ++ ts') (us ++ us') := by
  simp [declare]

theorem addType_eq_done_iff : r.addType origin d = .done s ↔
    d.name ∉ r.names ∧ s = r.declare [⟨d, origin⟩] [] := by
  rw [← entry?_eq_none_iff, addType]
  cases h : r.entry? d.name with
  | none => simp [declare, Registration.done_inj, eq_comm]
  | some first => simp [Registration.done]

theorem directive?_eq_none_iff : r.directive? n = none ↔ n ∉ r.directiveNames := by
  simp [directive?, directiveNames]

theorem addDirective_eq_done_iff {d : DirectiveDef} : r.addDirective d = .done s ↔
    d.name ∉ r.directiveNames ∧ s = r.declare [] [d] := by
  rw [← directive?_eq_none_iff, addDirective]
  cases h : r.directive? d.name with
  | none => simp [declare, Registration.done_inj, eq_comm]
  | some first => simp [Registration.done]

def Accepts (r : TypeRegistry) (ts : List Declared) (us : List DirectiveDef) : Prop :=
  Fresh r.names (ts.map Declared.name) ∧ Fresh r.directiveNames (us.map (·.name))

theorem accepts_nil (r : TypeRegistry) : r.Accepts [] [] := ⟨fresh_nil _, fresh_nil _⟩

theorem accepts_append {ts ts' : List Declared} {us us' : List DirectiveDef} :
    r.Accepts (ts ++ ts') (us ++ us') ↔ r.Accepts ts us ∧ (r.declare ts us).Accepts ts' us' := by
  simp only [Accepts, List.map_append, fresh_append, names_declare, directiveNames_declare]
  tauto

theorem addBase_eq_done_iff {x : Sdl.Definition} : addBase origin r x = .done s ↔
    r.Accepts (typesOf origin [x]) (directivesOf [x]) ∧
      s = r.declare (typesOf origin [x]) (directivesOf [x]) := by
  cases x with
  | type d =>
    rw [addBase, addType_eq_done_iff]
    simp [Accepts, typesOf, directivesOf, fresh_singleton, fresh_nil, Declared.name]
  | directive d =>
    rw [addBase, addDirective_eq_done_iff]
    simp [Accepts, typesOf, directivesOf, fresh_singleton, fresh_nil]
  | extension d =>
    have hsame : addBase origin r (.extension d) = .done r := rfl
    simp [hsame, Registration.done_inj, typesOf, directivesOf, accepts_nil, declare_nil, eq_comm]
  | roots q =>
    have hsame : addBase origin r (.roots q) = .done r := rfl
    simp [hsame, Registration.done_inj, typesOf, directivesOf, accepts_nil, declare_nil, eq_comm]

theorem registerAll_addBase : registerAll (addBase origin) r ds = .done s ↔
    r.Accepts (typesOf origin ds) (directivesOf ds) ∧
      s = r.declare (typesOf origin ds) (directivesOf ds) := by
  induction ds generalizing r with
  | nil =>
    rw [registerAll_nil]
    simp [typesOf, directivesOf, accepts_nil, declare_nil]
  | cons x rest ih =>
    have ht : typesOf origin (x :: rest) = typesOf origin [x] ++ typesOf origin rest :=
      List.filterMap_append (l := [x])
    have hu : directivesOf (x :: rest) = directivesOf [x] ++ directivesOf rest :=
      List.filterMap_append (l := [x])
    simp only [registerAll_cons, addBase_eq_done_iff, ih, ht, hu, accepts_append,
      ← declare_declare]
    constructor
    · rintro ⟨m, ⟨hx, rfl⟩, hrest, rfl⟩
      exact ⟨⟨hx, hrest⟩, rfl⟩
    · rintro ⟨⟨hx, hrest⟩, rfl⟩
      exact ⟨_, ⟨hx, rfl⟩, hrest, rfl⟩

/-- The registry with all base definitions and sources of fragments. -/
def withBases (r : TypeRegistry) (fs : List Fragment) : TypeRegistry :=
  { r.declare (baseTypes fs) (directiveDefs fs) with sources := r.sources ++ fs.map (·.source) }

theorem names_withBases (r : TypeRegistry) (fs : List Fragment) :
    (r.withBases fs).names = r.names ++ (baseTypes fs).map Declared.name :=
  names_declare r (baseTypes fs) (directiveDefs fs)

theorem directiveNames_withBases (r : TypeRegistry) (fs : List Fragment) :
    (r.withBases fs).directiveNames = r.directiveNames ++ (directiveDefs fs).map (·.name) :=
  directiveNames_declare r (baseTypes fs) (directiveDefs fs)

theorem withBases_append (r : TypeRegistry) (fs gs : List Fragment) :
    r.withBases (fs ++ gs) = (r.withBases fs).withBases gs := by
  simp [withBases, declare, baseTypes, directiveDefs]

theorem accepts_bases_append : r.Accepts (baseTypes (fs ++ gs)) (directiveDefs (fs ++ gs)) ↔
    r.Accepts (baseTypes fs) (directiveDefs fs) ∧
      (r.withBases fs).Accepts (baseTypes gs) (directiveDefs gs) := by
  rw [baseTypes, directiveDefs, List.flatMap_append, List.flatMap_append, accepts_append]
  rfl

theorem registerAll_addFragment : registerAll addFragment r fs = .done s ↔
    r.Accepts (baseTypes fs) (directiveDefs fs) ∧ s = r.withBases fs := by
  induction fs generalizing r with
  | nil =>
    rw [registerAll_nil]
    simp [baseTypes, directiveDefs, accepts_nil, withBases, declare_nil]
  | cons f rest ih =>
    have hone : ∀ m, r.addFragment f = .done m ↔
        r.Accepts (baseTypes [f]) (directiveDefs [f]) ∧ m = r.withBases [f] := by
      intro m
      simp only [addFragment, Registration.andThen_eq_done, registerAll_addBase,
        Registration.done_inj, baseTypes, directiveDefs, List.flatMap_singleton]
      constructor
      · rintro ⟨_, ⟨hacc, rfl⟩, rfl⟩
        exact ⟨hacc, by simp [withBases, addSource, baseTypes, directiveDefs, declare]⟩
      · rintro ⟨hacc, rfl⟩
        exact ⟨_, ⟨hacc, rfl⟩, by simp [withBases, addSource, baseTypes, directiveDefs, declare]⟩
    rw [registerAll_cons, ← List.singleton_append, accepts_bases_append, withBases_append]
    simp only [hone, ih]
    constructor
    · rintro ⟨m, ⟨hf, rfl⟩, hrest, rfl⟩
      exact ⟨⟨hf, hrest⟩, rfl⟩
    · rintro ⟨⟨hf, hrest⟩, rfl⟩
      exact ⟨_, ⟨hf, rfl⟩, hrest, rfl⟩

theorem entry?_replace (r : TypeRegistry) (d : TypeDef) (n : String) :
    entry? (r.replace d) n =
      (r.entry? n).map fun x => if d.name = n then { x with definition := d } else x := by
  have hfind : ∀ ds : List Declared,
      (ds.map fun x => if x.definition.name = d.name then { x with definition := d } else x).find?
          (fun x => x.definition.name == n) =
        (ds.find? fun x => x.definition.name == n).map fun x =>
          if d.name = n then { x with definition := d } else x := by
    intro ds
    induction ds with
    | nil => rfl
    | cons x rest ih =>
      by_cases hx : x.definition.name = n
      · by_cases hd : d.name = n
        · simp [hx, hd]
        · simp [hx, Ne.symm hd, hd]
      · by_cases hxd : x.definition.name = d.name
        · have hdn : d.name ≠ n := fun h => hx (hxd.trans h)
          simpa [hxd, hdn] using ih
        · simpa [hx, hxd] using ih
  exact hfind r.declared

/-- An extension applied to the type of its name, if there is one of its kind. -/
def extended (r : TypeRegistry) (e : TypeDef) : TypeRegistry :=
  match r.get? e.name with
  | some d => r.replace (d.extended e)
  | none => r

def Extends (r : TypeRegistry) (e : TypeDef) : Prop :=
  ∃ d, r.get? e.name = some d ∧ d.keyword = e.keyword

theorem extendType_eq_done_iff : r.extendType origin e = .done s ↔
    r.Extends e ∧ s = r.extended e := by
  unfold extendType Extends extended
  cases hget : r.get? e.name with
  | none => simp [Registration.done]
  | some d =>
    cases hbody : d.body.extend? e.body with
    | none =>
      have hkind : ¬ d.body.keyword = e.body.keyword := by
        rw [← TypeBody.isSome_extend?_iff, hbody]
        simp
      simp [hbody, Registration.done, TypeDef.keyword, hkind]
    | some body =>
      have hkind : d.body.keyword = e.body.keyword := by
        rw [← TypeBody.isSome_extend?_iff, hbody]
        rfl
      simp [Registration.done_inj, TypeDef.keyword, hkind, TypeDef.extended, hbody, eq_comm]

theorem entry?_extended (r : TypeRegistry) (e : TypeDef) (n : String) :
    entry? (r.extended e) n = (r.entry? n).map fun x =>
      if e.name = n then { x with definition := x.definition.extended e } else x := by
  unfold extended
  by_cases hn : e.name = n
  · subst hn
    simp only [get?, if_true]
    cases hentry : r.entry? e.name with
    | none => simp [hentry]
    | some x =>
      have hx : x.definition.name = e.name := by simpa using List.find?_some hentry
      simp [entry?_replace, hentry, hx]
  · cases hget : r.get? e.name with
    | none => simp [hn]
    | some d =>
      have hd : d.name = e.name := name_of_get? hget
      simp [entry?_replace, hd, hn]

theorem entry?_foldl_extended (es : List TypeDef) (r : TypeRegistry) (n : String) :
    entry? (es.foldl extended r) n = (r.entry? n).map fun x =>
      { x with definition := (es.filter fun e => e.name = n).foldl TypeDef.extended x.definition } := by
  induction es generalizing r with
  | nil => simp
  | cons e rest ih =>
    rw [List.foldl_cons, ih, entry?_extended, Option.map_map]
    by_cases hn : e.name = n
    · simp [hn, Function.comp_def]
    · simp [hn, Function.comp_def]

theorem get?_foldl_extended (es : List TypeDef) (r : TypeRegistry) (n : String) :
    (es.foldl extended r).get? n =
      (r.get? n).map fun d => (es.filter fun e => e.name = n).foldl TypeDef.extended d := by
  rw [get?, entry?_foldl_extended, get?, Option.map_map, Option.map_map]
  rfl

theorem extends_extended_iff : (r.extended e).Extends d ↔ r.Extends d := by
  have hget : (r.extended e).get? d.name =
      (r.get? d.name).map fun x => if e.name = d.name then x.extended e else x := by
    rw [get?, entry?_extended, get?, Option.map_map, Option.map_map]
    congr 1
    funext x
    by_cases h : e.name = d.name <;> simp [h]
  unfold Extends
  rw [hget]
  cases r.get? d.name with
  | none => simp
  | some x => by_cases h : e.name = d.name <;> simp [h]

theorem extends_foldl_extended_iff : (es.foldl extended r).Extends d ↔ r.Extends d := by
  induction es generalizing r with
  | nil => rfl
  | cons e rest ih => rw [List.foldl_cons, ih, extends_extended_iff]

theorem names_extended (r : TypeRegistry) (e : TypeDef) : (r.extended e).names = r.names := by
  unfold extended
  cases hget : r.get? e.name with
  | none => rfl
  | some d =>
    simp only [names_eq, replace, List.map_map]
    apply List.map_congr_left
    intro x _
    by_cases hx : x.definition.name = d.name <;> simp [Declared.name, hx]

theorem keeps_foldl_extended {β : Type} (f : TypeRegistry → β)
    (h : ∀ r e, f (r.extended e) = f r) (es : List TypeDef) (r : TypeRegistry) :
    f (es.foldl extended r) = f r := by
  induction es generalizing r with
  | nil => rfl
  | cons e rest ih => rw [List.foldl_cons, ih, h]

theorem names_foldl_extended (es : List TypeDef) (r : TypeRegistry) :
    (es.foldl extended r).names = r.names := keeps_foldl_extended _ names_extended es r

theorem extended_eq (r : TypeRegistry) (e : TypeDef) :
    r.extended e = { r with declared := (r.extended e).declared } := by
  unfold extended
  cases r.get? e.name <;> rfl

theorem registerAll_addExtension : registerAll (addExtension origin) r ds = .done s ↔
    (∀ e ∈ extensionsOf ds, r.Extends e) ∧ s = (extensionsOf ds).foldl extended r := by
  induction ds generalizing r with
  | nil => simp [registerAll_nil, extensionsOf]
  | cons x rest ih =>
    rw [registerAll_cons]
    simp only [ih]
    cases x with
    | extension d =>
      have hx : extensionsOf (.extension d :: rest) = d :: extensionsOf rest := rfl
      simp only [addExtension, extendType_eq_done_iff, hx, List.forall_mem_cons, List.foldl_cons]
      constructor
      · rintro ⟨m, ⟨hd, rfl⟩, hrest, rfl⟩
        exact ⟨⟨hd, fun e he => extends_extended_iff.mp (hrest e he)⟩, rfl⟩
      · rintro ⟨⟨hd, hrest⟩, rfl⟩
        exact ⟨_, ⟨hd, rfl⟩, fun e he => extends_extended_iff.mpr (hrest e he), rfl⟩
    | type d =>
      have hx : extensionsOf (.type d :: rest) = extensionsOf rest := rfl
      simp [addExtension, Registration.done_inj, hx]
    | directive d =>
      have hx : extensionsOf (.directive d :: rest) = extensionsOf rest := rfl
      simp [addExtension, Registration.done_inj, hx]
    | roots q =>
      have hx : extensionsOf (.roots q :: rest) = extensionsOf rest := rfl
      simp [addExtension, Registration.done_inj, hx]

theorem registerAll_extendByFragment : registerAll extendByFragment r fs = .done s ↔
    (∀ e ∈ extensions fs, r.Extends e) ∧ s = (extensions fs).foldl extended r := by
  induction fs generalizing r with
  | nil => simp [registerAll_nil, extensions]
  | cons f rest ih =>
    have hx : extensions (f :: rest) = extensionsOf f.definitions ++ extensions rest := rfl
    simp only [registerAll_cons, ih, extendByFragment, registerAll_addExtension, hx,
      List.forall_mem_append, List.foldl_append]
    constructor
    · rintro ⟨m, ⟨hf, rfl⟩, hrest, rfl⟩
      exact ⟨⟨hf, fun e he => extends_foldl_extended_iff.mp (hrest e he)⟩, rfl⟩
    · rintro ⟨⟨hf, hrest⟩, rfl⟩
      exact ⟨_, ⟨hf, rfl⟩, fun e he => extends_foldl_extended_iff.mpr (hrest e he), rfl⟩

/-- Whether fragments can be merged into a registry. -/
structure Mergeable (r : TypeRegistry) (fs : List Fragment) : Prop where
  bases : r.Accepts (baseTypes fs) (directiveDefs fs)
  extendable : ∀ e ∈ extensions fs, (r.withBases fs).Extends e

def mergedTypes (r : TypeRegistry) (fs : List Fragment) : TypeRegistry :=
  (extensions fs).foldl extended (r.withBases fs)

/-- A merge succeeds just for fragments that can be merged: first all base definitions are entered,
then all extensions are applied, and the named roots are set last. -/
theorem mergeFragments_eq_done_iff : r.mergeFragments fs = .done s ↔
    r.Mergeable fs ∧ s = (r.mergedTypes fs).applyRoots (namedRoots fs) := by
  simp only [mergeFragments, Registration.andThen_eq_done, registerAll_addFragment,
    registerAll_extendByFragment, Registration.done_inj]
  constructor
  · rintro ⟨_, ⟨_, ⟨hbases, rfl⟩, hext, rfl⟩, rfl⟩
    exact ⟨⟨hbases, hext⟩, rfl⟩
  · rintro ⟨⟨hbases, hext⟩, rfl⟩
    exact ⟨_, ⟨_, ⟨hbases, rfl⟩, hext, rfl⟩, rfl⟩

theorem exists_mergeFragments_iff : (∃ s, r.mergeFragments fs = .done s) ↔ r.Mergeable fs := by
  simp [mergeFragments_eq_done_iff]

/-- Naming roots changes the roots only. -/
theorem applyRoots_eq (r : TypeRegistry) (q : Sdl.NamedRoots) :
    r.applyRoots q = { r with roots := (r.applyRoots q).roots } := by
  unfold applyRoots setRoots
  split <;> rfl

theorem names_mergedTypes (r : TypeRegistry) (fs : List Fragment) :
    (r.mergedTypes fs).names = r.names ++ (baseTypes fs).map Declared.name := by
  rw [mergedTypes, names_foldl_extended, names_withBases]

theorem directives_mergedTypes (r : TypeRegistry) (fs : List Fragment) :
    (r.mergedTypes fs).directives = r.directives ++ directiveDefs fs :=
  keeps_foldl_extended (·.directives) (fun r e => by rw [extended_eq]) _ _

theorem sources_mergedTypes (r : TypeRegistry) (fs : List Fragment) :
    (r.mergedTypes fs).sources = r.sources ++ fs.map (·.source) :=
  keeps_foldl_extended (·.sources) (fun r e => by rw [extended_eq]) _ _

theorem roots_mergedTypes (r : TypeRegistry) (fs : List Fragment) :
    (r.mergedTypes fs).roots = r.roots :=
  keeps_foldl_extended (·.roots) (fun r e => by rw [extended_eq]) _ _

end TypeRegistry

end SchemaAssembly
