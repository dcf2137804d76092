import SchemaAssembly.Proofs.Assembly.DiscoveryOrder
import SchemaAssembly.Proofs.Schema.Roots

/-!
Registries that come from texts. Whatever merges they went through, their types have distinct names,
and these and the names of their roots are names as texts can give them.
-/

set_option autoImplicit false

namespace SchemaAssembly

namespace Sdl

open Reader

def NamedRoots.WellNamed (q : NamedRoots) : Prop := ∀ op n, q.get? op = some n → isName n = true

theorem wellNamed_default : NamedRoots.WellNamed default := by
  intro op n h
  cases op <;> cases h

theorem NamedRoots.WellNamed.set {q : NamedRoots} {n : String} (hq : q.WellNamed) (op : Operation)
    (hn : isName n = true) : (q.set op n).WellNamed := by
  have hsome : ∀ m, some n = some m → isName m = true := by
    rintro m ⟨⟩
    exact hn
  intro p m h
  cases op <;> cases p <;>
    first
    | exact hsome m h
    | exact hq .query m h
    | exact hq .mutation m h
    | exact hq .subscription m h

theorem NamedRoots.WellNamed.later {p q : NamedRoots} (hp : p.WellNamed) (hq : q.WellNamed) :
    (p.later q).WellNamed := by
  have hor : ∀ x y : Option String, (∀ n, x = some n → isName n = true) →
      (∀ n, y = some n → isName n = true) → ∀ n, y.or x = some n → isName n = true := by
    intro x y hx hy n h
    cases y with
    | none => exact hx n h
    | some m => exact hy n h
  intro op
  cases op with
  | query => exact hor _ _ (hp .query) (hq .query)
  | mutation => exact hor _ _ (hp .mutation) (hq .mutation)
  | subscription => exact hor _ _ (hp .subscription) (hq .subscription)

theorem finds_rootDefinition : Finds rootDefinition fun d => isName d.2.2 = true :=
  (finds_true _).bind fun _ _ => (finds_true _).bind fun _ _ => (finds_true _).bind fun _ _ =>
    finds_name.bind fun _ hn => finds_pure hn

theorem finds_collectRoots {defs : List (Nat × Operation × String)} {q : NamedRoots}
    (hq : q.WellNamed) (hdefs : ∀ d ∈ defs, isName d.2.2 = true) :
    Finds (collectRoots q defs) NamedRoots.WellNamed := by
  induction defs generalizing q with
  | nil => exact finds_pure hq
  | cons d rest ih =>
    rw [List.forall_mem_cons] at hdefs
    have hrest := ih (hq.set d.2.1 hdefs.1) hdefs.2
    rw [collectRoots]
    dsimp only
    split
    · exact (finds_true _).bind fun _ _ => hrest
    · exact hrest

theorem finds_braced {α : Type} {p : Reader α} {good : α → Prop} (hp : Finds p good) :
    Finds (braced p) fun as => ∀ a ∈ as, good a :=
  (finds_true _).bind fun _ _ => hp.many1.bind fun _ has => (finds_true _).bind fun _ _ =>
    finds_pure has

theorem finds_schemaDefinition : Finds schemaDefinition NamedRoots.WellNamed := by
  refine (finds_true _).bind fun _ _ => (finds_true _).bind fun _ _ => (finds_true _).bind
    fun _ _ => (finds_braced finds_rootDefinition).bind fun defs hdefs =>
      (finds_collectRoots wellNamed_default hdefs).bind fun q hq => ?_
  split
  · exact (finds_true _).bind fun _ _ => finds_pure hq
  · exact finds_pure hq

theorem finds_someBody {α : Type} {p : Reader α} {good : α → Prop} (hp : Finds p good) :
    Finds (someBody p) fun r => ∀ b, r.2 = some b → good b := by
  refine .or ?_ ?_
  · refine (finds_true _).bind fun _ _ => hp.bind fun b hb => finds_pure ?_
    rintro _ ⟨⟩
    exact hb
  · exact (finds_true _).bind fun _ _ => finds_pure nofun

theorem finds_schemaExtension : Finds schemaExtension NamedRoots.WellNamed := by
  refine (finds_true _).bind fun _ _ => (finds_true _).bind fun _ _ =>
    (finds_someBody (finds_braced finds_rootDefinition)).bind fun r hr =>
      finds_collectRoots wellNamed_default ?_
  cases hdefs : r.2 with
  | none => exact fun d hd => absurd hd List.not_mem_nil
  | some defs => exact hr defs hdefs

def Definition.RootsNamed : Definition → Prop
  | .roots q => q.WellNamed
  | _ => True

theorem finds_rootsNamed : Finds definition Definition.RootsNamed := by
  refine finds_firstOf ?_
  simp only [List.forall_mem_cons, List.not_mem_nil, false_imp_iff, implies_true, and_true]
  refine ⟨?_, ?_, ?_, ?_, ?_⟩
  · exact finds_schemaDefinition.bind fun _ hq => finds_pure hq
  · exact finds_schemaExtension.bind fun _ hq => finds_pure hq
  · exact (finds_true _).bind fun _ _ => finds_pure trivial
  · exact (finds_true _).bind fun _ _ => finds_pure trivial
  · exact (finds_true _).bind fun _ _ => finds_pure trivial

theorem finds_rootsNamed_document : Finds document fun ds => ∀ x ∈ ds, x.RootsNamed :=
  finds_rootsNamed.many1.bind fun _ hds => (finds_true _).bind fun _ _ => finds_pure hds

end Sdl

namespace Fragment

variable {f : Fragment} {fs : List Fragment} {files : FileTree}

/-- The fragment is what its text gives under its name. -/
def IsParsed (f : Fragment) : Prop := parse f.name f.source = .ok f

theorem isParsed_of_parse {name source : String} (h : parse name source = .ok f) : f.IsParsed := by
  obtain ⟨hname, hsource, -⟩ := parse_eq_ok_iff.mp h
  rwa [← hname, ← hsource] at h

theorem IsParsed.wellNamed (h : f.IsParsed) : f.WellNamed := wellNamed_of_parse h

theorem IsParsed.rootsNamed (h : f.IsParsed) : ∀ x ∈ f.definitions, x.RootsNamed := by
  obtain ⟨-, -, c, hread, -⟩ := parse_eq_ok_iff.mp h
  exact Sdl.finds_rootsNamed_document _ _ _ hread

theorem isParsed_of_load {locations : List String} (h : load files locations = .ok fs) :
    ∀ f ∈ fs, f.IsParsed := by
  obtain ⟨paths, -, h⟩ := Except.bind_eq_ok.mp h
  refine forall_of_mapM (fun path f hf => ?_) h
  unfold ofFile at hf
  split at hf
  · cases hf
  · exact isParsed_of_parse hf

end Fragment

theorem ParsedFragment.map_parse (name source : String) :
    (ParsedFragment.parse name source).map (·.fragment) = Fragment.parse name source := by
  unfold ParsedFragment.parse
  split <;> rename_i h <;> exact h.symm

theorem ParsedFragment.isParsed_fragments (ps : List ParsedFragment) :
    ∀ f ∈ ps.map (·.fragment), f.IsParsed := by
  intro f hf
  obtain ⟨p, -, rfl⟩ := List.mem_map.mp hf
  exact Fragment.isParsed_of_parse p.parsed

theorem wellNamed_namedRoots {fs : List Fragment} (h : ∀ f ∈ fs, f.IsParsed) :
    (namedRoots fs).WellNamed := by
  have hfold : ∀ (ds : List Sdl.Definition) (q : Sdl.NamedRoots), (∀ d ∈ ds, d.RootsNamed) →
      q.WellNamed → (ds.foldl nameRoots q).WellNamed := by
    intro ds
    induction ds with
    | nil => exact fun q _ hq => hq
    | cons d rest ih =>
      intro q hds hq
      rw [List.forall_mem_cons] at hds
      refine ih _ hds.2 ?_
      cases d with
      | roots p => exact hq.later hds.1
      | type d => exact hq
      | extension d => exact hq
      | directive d => exact hq
  refine hfold _ _ ?_ Sdl.wellNamed_default
  intro d hd
  obtain ⟨f, hf, hd⟩ := List.mem_flatMap.mp hd
  exact (h f hf).rootsNamed d hd

namespace TypeRegistry

variable {r s other : TypeRegistry} {fs : List Fragment}

/-- The registry was made from parsed fragments, by merges. -/
inductive FromTexts : TypeRegistry → Prop where
  | initial : FromTexts .initial
  | merged {r s : TypeRegistry} {fs : List Fragment} (h : FromTexts r)
      (hfs : ∀ f ∈ fs, f.IsParsed) (hs : r.mergeFragments fs = .done s) : FromTexts s
  | joined {r other s : TypeRegistry} (h : FromTexts r) (hother : FromTexts other)
      (hs : r.merge other = .done s) : FromTexts s

/-- What is found out about registries by their names alone. -/
structure Sound (r : TypeRegistry) : Prop where
  distinct : r.names.Nodup
  named : r.WellNamed
  query : Sdl.isName r.roots.query = true

theorem nodup_declare {ts : List Declared} {us : List DirectiveDef} (h : r.names.Nodup)
    (hts : Fresh r.names (ts.map Declared.name)) : (r.declare ts us).names.Nodup := by
  rw [names_declare, List.nodup_append]
  refine ⟨h, hts.1, ?_⟩
  rintro n hn _ hm rfl
  exact hts.2 n hm hn

theorem sound_initial : initial.Sound :=
  ⟨by decide +kernel, wellNamed_initial, by decide +kernel⟩

theorem nodup_mergedTypes (h : r.names.Nodup) (hfs : r.Mergeable fs) :
    (r.mergedTypes fs).names.Nodup := by
  rw [names_mergedTypes, ← names_declare r _ (directiveDefs fs)]
  exact nodup_declare h hfs.bases.1

theorem Sound.mergeFragments (h : r.Sound) (hfs : ∀ f ∈ fs, f.IsParsed)
    (hs : r.mergeFragments fs = .done s) : s.Sound := by
  refine ⟨?_, h.named.mergeFragments (fun f hf => (hfs f hf).wellNamed) hs, ?_⟩
  · obtain ⟨hm, rfl⟩ := mergeFragments_eq_done_iff.mp hs
    rw [applyRoots_eq]
    exact nodup_mergedTypes h.distinct hm
  · obtain ⟨-, rfl⟩ := mergeFragments_eq_done_iff.mp hs
    unfold applyRoots
    split
    · cases hquery : (namedRoots fs).query with
      | none => exact sound_initial.query
      | some n => exact wellNamed_namedRoots hfs .query n hquery
    · rw [roots_mergedTypes]
      exact h.query

theorem registerAll_invariant {α : Type} {step : TypeRegistry → α → Registration} {xs : List α}
    (good : TypeRegistry → Prop) (h : ∀ x ∈ xs, ∀ r m, good r → step r x = .done m → good m)
    (hr : good r) (hs : registerAll step r xs = .done s) : good s := by
  induction xs generalizing r with
  | nil =>
    rw [registerAll_nil.mp hs]
    exact hr
  | cons x rest ih =>
    obtain ⟨m, hm, hrest⟩ := registerAll_cons.mp hs
    rw [List.forall_mem_cons] at h
    exact ih h.2 (h.1 r m hr hm) hrest

theorem names_addDirectives {ds : List DirectiveDef}
    (h : registerAll addDirective r ds = .done s) : s.names = r.names := by
  refine keeps_registerAll (·.names) (fun r d m hstep => ?_) h
  rw [(addDirective_eq_done_iff.mp hstep).2, names_declare]
  exact List.append_nil _

theorem Sound.merge (h : r.Sound) (hother : other.Sound) (hs : r.merge other = .done s) :
    s.Sound := by
  have hroots := roots_merge hs
  rw [TypeRegistry.merge] at hs
  obtain ⟨m, hm, hs⟩ := Registration.andThen_eq_done.mp hs
  obtain ⟨n, hn, hm⟩ := Registration.andThen_eq_done.mp hm
  have htypes : n.names.Nodup ∧ n.WellNamed := by
    refine registerAll_invariant (fun r => r.names.Nodup ∧ r.WellNamed) ?_
      ⟨h.distinct, h.named⟩ hn
    rintro d hd r m ⟨hdistinct, hnamed⟩ hstep
    split at hstep
    · rw [← Registration.done_inj.mp hstep]
      exact ⟨hdistinct, hnamed⟩
    · obtain ⟨hnew, rfl⟩ := addType_eq_done_iff.mp hstep
      refine ⟨nodup_declare hdistinct (fresh_singleton.mpr hnew), ?_⟩
      intro k hk
      rw [names_declare, List.mem_append] at hk
      rcases hk with hk | hk
      · exact hnamed k hk
      · rw [List.mem_singleton.mp hk]
        exact hother.named _ (List.mem_map_of_mem (List.mem_map_of_mem hd))
  have hnames : s.names = n.names := by
    rw [← names_addDirectives hm, ← Registration.done_inj.mp hs]
    rfl
  refine ⟨hnames ▸ htypes.1, fun k hk => htypes.2 k (hnames ▸ hk), ?_⟩
  rw [hroots]
  split
  · exact h.query
  · exact hother.query

theorem FromTexts.sound (h : r.FromTexts) : r.Sound := by
  induction h with
  | initial => exact sound_initial
  | merged _ hfs hs ih => exact ih.mergeFragments hfs hs
  | joined _ _ hs ih ihother => exact ih.merge ihother hs

end TypeRegistry

/-- The registry that the assembler starts from comes from texts, as all fragments do. -/
def Assembler.OverTexts (a : Assembler) : Prop := ∀ r, a.types = some r → r.FromTexts

namespace Assembler

variable {a : Assembler} {files : FileTree} {raw : Option String} {fs : List Fragment}
  {merged : MergedTypes} {r s : TypeRegistry}

theorem isParsed_of_gatherFragments (h : a.gatherFragments files raw = .ok fs) :
    ∀ f ∈ fs, f.IsParsed := by
  have hmap : ∀ located : Except ConfigurationError (List Fragment),
      (∀ gs, located = .ok gs → ∀ f ∈ gs, f.IsParsed) →
      (located.map fun fragments => fragments ++ a.fragments.map (·.fragment)) = .ok fs →
      ∀ f ∈ fs, f.IsParsed := by
    intro located hlocated h
    cases located with
    | error e => cases h
    | ok gs =>
      cases h
      exact List.forall_mem_append.mpr ⟨hlocated gs rfl, ParsedFragment.isParsed_fragments _⟩
  refine hmap _ ?_ h
  intro gs hgs
  cases raw with
  | none => exact Fragment.isParsed_of_load hgs
  | some sdl =>
    cases hparse : Fragment.parse "<raw>" sdl with
    | error e =>
      simp only [hparse] at hgs
      cases hgs
    | ok f =>
      simp only [hparse] at hgs
      cases hgs
      exact List.forall_mem_singleton.mpr (Fragment.isParsed_of_parse hparse)

theorem fromTexts_addValidationDirectives (hr : r.FromTexts)
    (h : addValidationDirectives r = .ok s) : s.FromTexts := by
  unfold addValidationDirectives at h
  split at h
  · cases h
    exact hr
  · split at h
    · cases h
    · rename_i sdl hsdl f hf
      exact hr.merged (List.forall_mem_singleton.mpr (Fragment.isParsed_of_parse hf))
        (Registration.toExcept_eq_ok_iff.mp h)

theorem fromTexts_contributed {contributors : List TypeContributor} (hr : r.FromTexts)
    (h : contributors.foldlM contributeTypes r = .ok s) : s.FromTexts := by
  induction contributors generalizing r with
  | nil =>
    cases h
    exact hr
  | cons contribute rest ih =>
    rw [List.foldlM_cons] at h
    obtain ⟨m, hm, h⟩ := Except.bind_eq_ok.mp h
    refine ih ?_ h
    unfold contributeTypes at hm
    split at hm
    · cases hm
    · exact hr.merged (ParsedFragment.isParsed_fragments _) (Registration.toExcept_eq_ok_iff.mp hm)

theorem stages_of_mergeTypes (h : a.mergeTypes files raw = .ok merged) :
    ∃ fs r s, a.gatherFragments files raw = .ok fs ∧
      (a.types.getD .initial).mergeFragments fs = .done r ∧
      (a.activeComponents.flatMap (·.typeContributors)).foldlM contributeTypes r = .ok s ∧
      (if a.settings.extensions.validation then addValidationDirectives s else .ok s) =
        .ok merged.types ∧ merged.sdl = merged.types.sdl := by
  unfold Assembler.mergeTypes at h
  obtain ⟨fs, hfs, h⟩ := Except.bind_eq_ok.mp h
  dsimp only at h
  cases hempty : fs.isEmpty && a.types.isNone && !a.activeComponents.any Component.hasContributors with
  | true =>
    rw [hempty] at h
    cases h
  | false =>
    rw [hempty] at h
    obtain ⟨r, hr, h⟩ := Except.bind_eq_ok.mp h
    obtain ⟨s, hs, h⟩ := Except.bind_eq_ok.mp h
    refine ⟨fs, r, s, hfs, Registration.toExcept_eq_ok_iff.mp hr, hs, ?_⟩
    split at h
    · rename_i hvalidation
      obtain ⟨t, ht, h⟩ := Except.bind_eq_ok.mp h
      cases h
      rw [if_pos hvalidation]
      exact ⟨ht, rfl⟩
    · rename_i hvalidation
      cases h
      rw [if_neg hvalidation]
      exact ⟨rfl, rfl⟩

theorem OverTexts.mergeTypes (ha : a.OverTexts) (h : a.mergeTypes files raw = .ok merged) :
    merged.types.FromTexts := by
  obtain ⟨fs, r, s, hfs, hr, hs, ht, -⟩ := stages_of_mergeTypes h
  have hgiven : (a.types.getD .initial).FromTexts := by
    cases htypes : a.types with
    | none => exact .initial
    | some r => exact ha r htypes
  have hcontributed :=
    fromTexts_contributed (hgiven.merged (isParsed_of_gatherFragments hfs) hr) hs
  split at ht
  · exact fromTexts_addValidationDirectives hcontributed ht
  · cases ht
    exact hcontributed

end Assembler

end SchemaAssembly
