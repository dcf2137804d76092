import SchemaAssembly.Assembly.Assembler
import SchemaAssembly.Proofs.Schema.Merging

/-!
Passes that register what components declare, each under a name of its own. A pass succeeds just
if everything has a name and no name comes twice, so the order of the components does not matter.
-/

set_option autoImplicit false

namespace SchemaAssembly

theorem Except.ok_bind {ε α β : Type} (a : α) (f : α → Except ε β) : (.ok a >>= f) = f a := rfl

theorem Except.bind_eq_ok {ε α β : Type} {x : Except ε α} {f : α → Except ε β} {b : β} :
    (x >>= f) = .ok b ↔ ∃ a, x = .ok a ∧ f a = .ok b := by
  cases x with
  | error e => simp [bind, Except.bind]
  | ok a => simp [bind, Except.bind]

theorem Except.bind_eq_error {ε α β : Type} {x : Except ε α} {f : α → Except ε β} {e : ε} :
    (x >>= f) = .error e ↔ x = .error e ∨ ∃ a, x = .ok a ∧ f a = .error e := by
  cases x with
  | error e' => simp [bind, Except.bind]
  | ok a => simp [bind, Except.bind]

/-- A step that enters an item under its name, if it has a name and the name is new. -/
structure EntersNew {σ α ε : Type} (step : σ → α → Except ε σ) (names : σ → List String)
    (name? : α → Option String) (enter : σ → α → σ) : Prop where
  ok_iff : ∀ s x t, step s x = .ok t ↔ (∃ n, name? x = some n ∧ n ∉ names s) ∧ t = enter s x
  names_enter : ∀ s x n, name? x = some n → n ∉ names s → names (enter s x) = names s ++ [n]

namespace EntersNew

variable {σ α ε : Type} {step : σ → α → Except ε σ} {names : σ → List String}
  {name? : α → Option String} {enter : σ → α → σ} {s t : σ} {xs ys : List α}

/-- All items have names, which are distinct and new. -/
def Enterable (name? : α → Option String) (old : List String) (xs : List α) : Prop :=
  (∀ x ∈ xs, (name? x).isSome = true) ∧ Fresh old (xs.filterMap name?)

theorem Enterable.perm {old : List String} (h : Enterable name? old xs) (hp : xs.Perm ys) :
    Enterable name? old ys :=
  ⟨fun y hy => h.1 y (hp.mem_iff.mpr hy), h.2.perm (hp.filterMap _)⟩

theorem enterable_cons {x : α} {old : List String} : Enterable name? old (x :: xs) ↔
    ∃ n, name? x = some n ∧ n ∉ old ∧ Enterable name? (old ++ [n]) xs := by
  cases hx : name? x with
  | none => simp [Enterable, hx]
  | some n =>
    simp only [Enterable, List.forall_mem_cons, hx, List.filterMap_cons_some hx, fresh_cons,
      Option.isSome_some, true_and, Option.some.injEq]
    constructor
    · rintro ⟨hall, hn, hfresh⟩
      exact ⟨n, rfl, hn, hall, hfresh⟩
    · rintro ⟨_, rfl, hn, hall, hfresh⟩
      exact ⟨hall, hn, hfresh⟩

theorem foldlM_eq_ok_iff (h : EntersNew step names name? enter) :
    xs.foldlM step s = .ok t ↔ Enterable name? (names s) xs ∧ t = xs.foldl enter s := by
  induction xs generalizing s with
  | nil =>
    have hnil : Enterable name? (names s) [] :=
      ⟨fun x hx => absurd hx List.not_mem_nil, fresh_nil _⟩
    simp [hnil, pure, Except.pure, eq_comm]
  | cons x rest ih =>
    rw [List.foldlM_cons, Except.bind_eq_ok, List.foldl_cons, enterable_cons]
    constructor
    · rintro ⟨m, hm, hrest⟩
      obtain ⟨⟨n, hn, hnew⟩, rfl⟩ := (h.ok_iff s x m).mp hm
      obtain ⟨hall, rfl⟩ := ih.mp hrest
      rw [h.names_enter s x n hn hnew] at hall
      exact ⟨⟨n, hn, hnew, hall⟩, rfl⟩
    · rintro ⟨⟨n, hn, hnew, hall⟩, rfl⟩
      refine ⟨enter s x, (h.ok_iff s x _).mpr ⟨⟨n, hn, hnew⟩, rfl⟩, ih.mpr ⟨?_, rfl⟩⟩
      rwa [h.names_enter s x n hn hnew]

theorem names_foldl (h : EntersNew step names name? enter) (hall : Enterable name? (names s) xs) :
    names (xs.foldl enter s) = names s ++ xs.filterMap name? := by
  induction xs generalizing s with
  | nil => simp
  | cons x rest ih =>
    obtain ⟨n, hn, hnew, hrest⟩ := enterable_cons.mp hall
    rw [← h.names_enter s x n hn hnew] at hrest
    rw [List.foldl_cons, ih hrest, h.names_enter s x n hn hnew, List.filterMap_cons_some hn,
      List.append_assoc, List.singleton_append]

theorem exists_foldlM_perm (h : EntersNew step names name? enter) (hp : xs.Perm ys)
    (hs : xs.foldlM step s = .ok t) :
    ∃ t', ys.foldlM step s = .ok t' ∧ (names t).Perm (names t') := by
  obtain ⟨hall, rfl⟩ := h.foldlM_eq_ok_iff.mp hs
  refine ⟨_, h.foldlM_eq_ok_iff.mpr ⟨hall.perm hp, rfl⟩, ?_⟩
  rw [h.names_foldl hall, h.names_foldl (hall.perm hp)]
  exact (hp.filterMap _).append_left _

end EntersNew

namespace Entries

variable {α : Type} {n : String} {v : α} {t : Entries α}

theorem get?_eq_none_iff : get? n t = none ↔ n ∉ t.keys := by
  induction t with
  | nil => simp [get?, keys]
  | cons e rest ih =>
    obtain ⟨k, u⟩ := e
    by_cases hk : k = n
    · simp [get?, keys, hk]
    · rw [get?, if_neg hk, ih]
      simp [keys, Ne.symm hk]

theorem exists_get?_of_mem (h : n ∈ t.keys) : ∃ v, get? n t = some v :=
  Option.ne_none_iff_exists'.mp (mt get?_eq_none_iff.mp (not_not.mpr h))

theorem put_of_notMem (h : n ∉ t.keys) : put n v t = t ++ [(n, v)] := by
  induction t with
  | nil => rfl
  | cons e rest ih =>
    obtain ⟨k, u⟩ := e
    simp only [keys, List.map_cons, List.mem_cons, not_or] at h
    rw [put, if_neg (Ne.symm h.1), ih h.2, List.cons_append]

end Entries

section Passes

variable {components others : List Component} {types : TypeRegistry}

theorem LoaderTable.get?_eq_none_iff {t : LoaderTable} {n : String} :
    t.get? n = none ↔ n ∉ t.names := by
  simp [LoaderTable.get?, LoaderTable.names]

def registeredLoader? (l : Component × LoaderScope × LoaderDefinition) : Option LoaderDefinition :=
  (LoaderTable.declaredName l.1.name l.1.decorated l.2.1 l.2.2.name).toOption.map fun n =>
    { l.2.2 with name := n }

theorem registerLoaders_enters (instrumentation : List LoaderInstrumentation) :
    ∃ step, (∀ components, registerLoaders instrumentation components =
        (components.flatMap fun c => c.loaders.map fun l => (c, l)).foldlM step
          { instrumentation := instrumentation }) ∧
      EntersNew step LoaderTable.names (fun l => (registeredLoader? l).map (·.name))
        fun t l => { t with definitions := t.definitions ++ (registeredLoader? l).toList } := by
  refine ⟨_, fun _ => rfl, ?_, ?_⟩
  · intro t l t'
    unfold LoaderTable.registerDeclared registeredLoader? LoaderTable.register
    cases LoaderTable.declaredName l.1.name l.1.decorated l.2.1 l.2.2.name with
    | error e => simp [Except.toOption]
    | ok n =>
      by_cases hn : n ∈ t.names
      · obtain ⟨first, hfirst⟩ := Option.ne_none_iff_exists'.mp
          (mt LoaderTable.get?_eq_none_iff.mp (not_not.mpr hn))
        simp [hfirst, hn, Except.toOption]
      · simp [LoaderTable.get?_eq_none_iff.mpr hn, hn, Except.toOption, eq_comm]
  · intro t l n hn _
    obtain ⟨d, hd, rfl⟩ := Option.map_eq_some_iff.mp hn
    simp [LoaderTable.names, hd]

def resolvable? (types : TypeRegistry) (d : String × String × TypeResolver) : Option String :=
  if types.isAbstract d.2.1 then some d.2.1 else none

theorem registerResolvers_enters (types : TypeRegistry) :
    ∃ step, (∀ components r, registerResolvers types components r =
        (components.flatMap fun c => c.resolvers.map fun d => (c.name, d)).foldlM step r) ∧
      EntersNew step (fun r => Entries.keys r.resolvers) (resolvable? types)
        fun r d => r.setResolver d.2.1 d.2.2 := by
  refine ⟨_, fun _ _ => rfl, ?_, ?_⟩
  · intro r d r'
    dsimp only
    unfold resolvable? TypeRegistry.isAbstract
    cases types.get? d.2.1 with
    | none => simp
    | some t =>
      by_cases habs : t.isAbstract = true
      · by_cases hn : d.2.1 ∈ Entries.keys r.resolvers
        · obtain ⟨first, hfirst⟩ := Entries.exists_get?_of_mem hn
          simp [habs, CodeRegistry.resolver?, hfirst, hn]
        · simp [habs, CodeRegistry.resolver?, Entries.get?_eq_none_iff.mpr hn, hn, @eq_comm _ r']
      · simp [habs]
  · intro r d n hn hnew
    rw [resolvable?, Option.ite_none_right_eq_some, Option.some.injEq] at hn
    obtain ⟨-, rfl⟩ := hn
    simp [CodeRegistry.setResolver, Entries.keys_put, appendNew, hnew]

theorem registerEntities_enters :
    ∃ step, (∀ components, registerEntities components =
        (components.flatMap fun c => c.entities.map fun d => (c.name, d)).foldlM step []) ∧
      EntersNew step Entries.keys (fun d => some d.2.1)
        fun t d => t ++ [(d.2.1, (⟨d.1, d.2.2⟩ : EntityFetcher))] := by
  refine ⟨_, fun _ => rfl, ?_, ?_⟩
  · intro t d t'
    by_cases hn : d.2.1 ∈ Entries.keys t
    · obtain ⟨first, hfirst⟩ := Entries.exists_get?_of_mem hn
      simp [hfirst, hn]
    · simp [Entries.get?_eq_none_iff.mpr hn, hn, Entries.put_of_notMem hn, eq_comm]
  · intro t d n hn _
    cases hn
    simp [Entries.keys]

theorem registerLoaders_perm {instrumentation : List LoaderInstrumentation} {t : LoaderTable}
    (hp : components.Perm others) (h : registerLoaders instrumentation components = .ok t) :
    ∃ t', registerLoaders instrumentation others = .ok t' ∧ t.names.Perm t'.names := by
  obtain ⟨step, heq, henters⟩ := registerLoaders_enters instrumentation
  rw [heq] at h ⊢
  exact henters.exists_foldlM_perm (hp.flatMap_right _) h

theorem registerResolvers_perm {r s : CodeRegistry} (hp : components.Perm others)
    (h : registerResolvers types components r = .ok s) :
    ∃ s', registerResolvers types others r = .ok s' := by
  obtain ⟨step, heq, henters⟩ := registerResolvers_enters types
  rw [heq] at h ⊢
  obtain ⟨s', hs', -⟩ := henters.exists_foldlM_perm (hp.flatMap_right _) h
  exact ⟨s', hs'⟩

def EntityTable.owners (t : EntityTable) : List (String × String) :=
  t.map fun e => (e.1, e.2.owner)

theorem registerEntities_perm {t : EntityTable} (hp : components.Perm others)
    (h : registerEntities components = .ok t) :
    ∃ t', registerEntities others = .ok t' ∧ t.owners.Perm t'.owners := by
  obtain ⟨step, heq, henters⟩ := registerEntities_enters
  rw [heq] at h ⊢
  have hrows : (components.flatMap fun c => c.entities.map fun d => (c.name, d)).Perm
    (others.flatMap fun c => c.entities.map fun d => (c.name, d)) := hp.flatMap_right _
  obtain ⟨t', ht', -⟩ := henters.exists_foldlM_perm hrows h
  refine ⟨t', ht', ?_⟩
  obtain ⟨-, rfl⟩ := henters.foldlM_eq_ok_iff.mp h
  obtain ⟨-, rfl⟩ := henters.foldlM_eq_ok_iff.mp ht'
  rw [List.foldl_append_eq_append, List.foldl_append_eq_append]
  exact ((hrows.map _).flatten).map _

end Passes

end SchemaAssembly
