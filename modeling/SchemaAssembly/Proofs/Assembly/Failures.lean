import SchemaAssembly.Assembly.Assembler
import SchemaAssembly.Proofs.Assembly.Registering

/-!
Where an assembly fails. A definition on a type that is not there and coordinates that are declared
twice are found by the binding of handlers; all other passes fail for other causes.
-/

set_option autoImplicit false

namespace SchemaAssembly

def ConfigurationError.ofBinding : ConfigurationError → Bool
  | missingParentType .. | duplicateDataFetcher .. => true
  | _ => false

/-- If this fails then not for a cause of the binding of handlers. -/
def FailsElsewhere {α : Type} (x : Except ConfigurationError α) : Prop :=
  ∀ e, x = .error e → e.ofBinding = false

def Registration.FailsElsewhere (x : Registration) : Prop :=
  ∀ e, x.failure = some e → e.ofBinding = false

section Steps

variable {α β : Type} {x : Except ConfigurationError α} {f : α → Except ConfigurationError β}

theorem failsElsewhere_ok (a : α) : FailsElsewhere (.ok a) := fun _ h => by cases h

theorem failsElsewhere_error {e : ConfigurationError} (h : e.ofBinding = false) :
    FailsElsewhere (.error e : Except ConfigurationError α) := fun _ h' => by
  cases h'
  exact h

theorem FailsElsewhere.bind (hx : FailsElsewhere x) (hf : ∀ a, FailsElsewhere (f a)) :
    FailsElsewhere (x >>= f) := by
  intro e h
  rcases Except.bind_eq_error.mp h with h | ⟨a, -, h⟩
  · exact hx e h
  · exact hf a e h

theorem failsElsewhere_foldlM {f : α → β → Except ConfigurationError α} {xs : List β}
    (h : ∀ a b, FailsElsewhere (f a b)) (a : α) : FailsElsewhere (xs.foldlM f a) := by
  induction xs generalizing a with
  | nil => exact failsElsewhere_ok a
  | cons b rest ih =>
    rw [List.foldlM_cons]
    exact (h a b).bind ih

theorem failsElsewhere_mapM {xs : List α} (h : ∀ a, FailsElsewhere (f a)) :
    FailsElsewhere (xs.mapM f) := by
  induction xs with
  | nil => exact failsElsewhere_ok []
  | cons a rest ih =>
    rw [List.mapM_cons]
    exact (h a).bind fun _ => ih.bind fun _ => failsElsewhere_ok _

theorem FailsElsewhere.map {g : α → β} (hx : FailsElsewhere x) : FailsElsewhere (x.map g) := by
  intro e h
  cases x with
  | error e' =>
    cases h
    exact hx e rfl
  | ok a => cases h

end Steps

section Registries

variable {α : Type} {r : TypeRegistry}

theorem Registration.FailsElsewhere.toExcept {x : Registration} (h : x.FailsElsewhere) :
    SchemaAssembly.FailsElsewhere x.toExcept := by
  intro e he
  obtain ⟨s, failure⟩ := x
  cases failure with
  | none => cases he
  | some e' =>
    cases he
    exact h e rfl

theorem Registration.FailsElsewhere.andThen {x : Registration} {next : TypeRegistry → Registration}
    (hx : x.FailsElsewhere) (hnext : ∀ s, (next s).FailsElsewhere) :
    (x.andThen next).FailsElsewhere := by
  intro e he
  obtain ⟨s, failure⟩ := x
  cases failure with
  | none => exact hnext s e he
  | some e' => exact hx e he

theorem failsElsewhere_registerAll {step : TypeRegistry → α → Registration} {xs : List α}
    (h : ∀ s x, (step s x).FailsElsewhere) (r : TypeRegistry) :
    (registerAll step r xs).FailsElsewhere := by
  induction xs generalizing r with
  | nil =>
    intro e he
    cases he
  | cons x rest ih => exact (h r x).andThen ih

theorem failsElsewhere_done (r : TypeRegistry) : (Registration.done r).FailsElsewhere := by
  intro e he
  cases he

theorem failsElsewhere_addBase (origin : String) (r : TypeRegistry) (d : Sdl.Definition) :
    (TypeRegistry.addBase origin r d).FailsElsewhere := by
  intro e he
  cases d with
  | type d =>
    simp only [TypeRegistry.addBase, TypeRegistry.addType] at he
    split at he <;> cases he
    rfl
  | directive d =>
    simp only [TypeRegistry.addBase, TypeRegistry.addDirective] at he
    split at he <;> cases he
    rfl
  | extension d => cases he
  | roots q => cases he

theorem failsElsewhere_addExtension (origin : String) (r : TypeRegistry) (d : Sdl.Definition) :
    (TypeRegistry.addExtension origin r d).FailsElsewhere := by
  intro e he
  cases d with
  | extension d =>
    simp only [TypeRegistry.addExtension, TypeRegistry.extendType] at he
    split at he
    · cases he
      rfl
    · split at he <;> cases he
      rfl
  | type d => cases he
  | directive d => cases he
  | roots q => cases he

theorem failsElsewhere_mergeFragments (r : TypeRegistry) (fs : List Fragment) :
    (r.mergeFragments fs).FailsElsewhere := by
  have hadd : ∀ (s : TypeRegistry) (f : Fragment), (s.addFragment f).FailsElsewhere := fun s f =>
    .andThen (failsElsewhere_registerAll (failsElsewhere_addBase f.name) s) fun _ =>
      failsElsewhere_done _
  have hextend : ∀ (s : TypeRegistry) (f : Fragment), (s.extendByFragment f).FailsElsewhere :=
    fun s f => failsElsewhere_registerAll (failsElsewhere_addExtension f.name) s
  exact .andThen (.andThen (failsElsewhere_registerAll hadd r) fun s =>
    failsElsewhere_registerAll hextend s) fun s => failsElsewhere_done _

end Registries

theorem failsElsewhere_parse (name source : String) :
    FailsElsewhere (Fragment.parse name source) := by
  unfold Fragment.parse
  dsimp only
  split
  · exact failsElsewhere_error rfl
  · split
    · exact failsElsewhere_error rfl
    · exact failsElsewhere_ok _

theorem failsElsewhere_load (files : FileTree) (locations : List String) :
    FailsElsewhere (Fragment.load files locations) := by
  refine .bind (failsElsewhere_foldlM ?_ []) fun paths => failsElsewhere_mapM fun path => ?_
  · intro found pattern
    split
    · exact failsElsewhere_error rfl
    · exact failsElsewhere_ok _
  · unfold Fragment.ofFile
    split
    · exact failsElsewhere_error rfl
    · exact failsElsewhere_parse _ _

theorem failsElsewhere_gatherFragments (a : Assembler) (files : FileTree) (raw : Option String) :
    FailsElsewhere (a.gatherFragments files raw) := by
  refine FailsElsewhere.map ?_
  split
  · exact (failsElsewhere_parse _ _).map
  · exact failsElsewhere_load _ _

theorem failsElsewhere_addValidationDirectives (r : TypeRegistry) :
    FailsElsewhere (addValidationDirectives r) := by
  unfold addValidationDirectives
  split
  · exact failsElsewhere_ok r
  · split
    · rename_i sdl _ e he
      exact failsElsewhere_error (failsElsewhere_parse _ _ e he)
    · exact (failsElsewhere_mergeFragments _ _).toExcept

theorem failsElsewhere_addFederationTypes (r : TypeRegistry) (entities : EntityTable) :
    (addFederationTypes r entities).FailsElsewhere := by
  unfold addFederationTypes
  split
  · rename_i e he
    intro e' he'
    cases he'
    exact failsElsewhere_parse _ _ e he
  · exact failsElsewhere_mergeFragments _ _

theorem failsElsewhere_registerLoaders (instrumentation : List LoaderInstrumentation)
    (components : List Component) :
    FailsElsewhere (registerLoaders instrumentation components) := by
  refine failsElsewhere_foldlM (fun t l => ?_) _
  unfold LoaderTable.registerDeclared LoaderTable.declaredName LoaderTable.register
  split
  · rename_i e he
    split at he
    · cases he
    · split at he
      · cases he
        exact failsElsewhere_error rfl
      · split at he <;> cases he
        exact failsElsewhere_error rfl
  · split
    · exact failsElsewhere_error rfl
    · exact failsElsewhere_ok _

theorem failsElsewhere_registerResolvers (types : TypeRegistry) (components : List Component)
    (r : CodeRegistry) : FailsElsewhere (registerResolvers types components r) := by
  refine failsElsewhere_foldlM (fun r d => ?_) _
  dsimp only
  split
  · exact failsElsewhere_error rfl
  · split
    · exact failsElsewhere_error rfl
    · split
      · exact failsElsewhere_error rfl
      · exact failsElsewhere_ok _

theorem failsElsewhere_registerEntities (components : List Component) :
    FailsElsewhere (registerEntities components) := by
  refine failsElsewhere_foldlM (fun t d => ?_) _
  split
  · exact failsElsewhere_error rfl
  · exact failsElsewhere_ok _

theorem failsElsewhere_addFederation (types : TypeRegistry) (entities : EntityTable)
    (federation : FederationResolver) (sdl : String) (code : CodeRegistry) :
    FailsElsewhere (addFederation types entities federation sdl code) := by
  unfold addFederation
  split
  · rename_i e he
    exact failsElsewhere_error ((failsElsewhere_addFederationTypes types entities).toExcept e he)
  · exact failsElsewhere_ok _

end SchemaAssembly
