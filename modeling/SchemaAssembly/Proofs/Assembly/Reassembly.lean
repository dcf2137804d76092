import SchemaAssembly.Proofs.Assembly.TypeResolution
import SchemaAssembly.Proofs.Schema.SameTypes
import SchemaAssembly.Proofs.Sdl.Joining

/-!
Assembly from the text that a schema was built from. The text joins the sources of all fragments and
the definitions that validation needs, so what it gives when it is read as one fragment is what all
fragments gave, unless one of them leaves a block string open that a later one closes.
-/

set_option autoImplicit false

namespace SchemaAssembly

open Sdl

section Joined

variable {f g : Fragment} {fs : List Fragment} {name : String}

theorem toList_joinedLines (texts : List String) :
    (String.intercalate "\n" texts).toList = lineByLine (texts.map String.toList) := by
  induction texts with
  | nil => rfl
  | cons text texts ih =>
    cases texts with
    | nil => simp [lineByLine]
    | cons other texts =>
      rw [String.intercalate_cons_cons, String.toList_append, String.toList_append, ih]
      rw [List.map_cons, List.map_cons, List.map_cons, lineByLine_cons_cons]
      simp

theorem Fragment.IsParsed.isDocument (h : f.IsParsed) :
    IsDocument f.source.toList f.definitions := (parse_eq_ok_iff.mp h).2.2

/-- The second text does not close what the first one leaves open. -/
def Fragment.Apart (f g : Fragment) : Prop := Sdl.Apart f.source.toList g.source.toList

/-- The text of all fragments is a fragment with all their definitions. -/
theorem parse_joined (name : String) (hne : fs ≠ []) (hfs : ∀ f ∈ fs, f.IsParsed)
    (hapart : fs.Pairwise Fragment.Apart) :
    Fragment.parse name (String.intercalate "\n" (fs.map (·.source))) = .ok
      ⟨name, String.intercalate "\n" (fs.map (·.source)), fs.flatMap (·.definitions)⟩ := by
  let docs := fs.map fun f => (f.source.toList, f.definitions)
  have hdocs : IsDocument (lineByLine (docs.map (·.1))) (docs.flatMap (·.2)) := by
    refine isDocument_lineByLine (by simpa [docs] using hne) ?_ (List.pairwise_map.mpr hapart)
    exact List.forall_mem_map.mpr fun f hf => (hfs f hf).isDocument
  have htext : docs.map (·.1) = (fs.map (·.source)).map String.toList := by
    simp [docs, Function.comp_def]
  have hdefs : docs.flatMap (·.2) = fs.flatMap (·.definitions) := List.flatMap_map ..
  rw [htext, hdefs, ← toList_joinedLines] at hdocs
  exact Fragment.parse_eq_ok_iff.mpr ⟨rfl, rfl, hdocs⟩

end Joined

section Validation

variable {r s : TypeRegistry} {fs : List Fragment} {name : String}

def definesDirective (name : String) (text : List Char) : Bool :=
  match (document ⟨text, 0, []⟩).result with
  | some ([.directive d], c) => d.name == name && c.faults.isEmpty && (readBlock [] text).isNone
  | _ => false

theorem isDocument_of_definesDirective {text : List Char} (h : definesDirective name text = true) :
    (∃ d : DirectiveDef, d.name = name ∧ IsDocument text [.directive d]) ∧
      readBlock [] text = none := by
  unfold definesDirective at h
  split at h
  · rename_i d c hread
    simp only [Bool.and_eq_true, beq_iff_eq, List.isEmpty_iff, Option.isNone_iff_eq_none] at h
    exact ⟨⟨d, h.1.1, c, hread, h.1.2⟩, h.2⟩
  · cases h

theorem definesDirective_validation :
    ∀ d ∈ validationDirectives, definesDirective d.1 d.2.toList = true := by
  decide +kernel

/-- The text of the directives that are missing gives these directives, and closes nothing. -/
theorem parse_missingDirectives {missing : List (String × String)} {f : Fragment}
    (hmissing : ∀ d ∈ missing, d ∈ validationDirectives) (hne : missing ≠ [])
    (h : Fragment.parse name (String.intercalate "\n" (missing.map (·.2))) = .ok f) :
    (∃ ds : List DirectiveDef, f.definitions = ds.map .directive ∧
        ds.map (·.name) = missing.map (·.1)) ∧
      readBlock [] f.source.toList = none := by
  obtain ⟨-, hsource, c, hread, -⟩ := Fragment.parse_eq_ok_iff.mp h
  have htext : f.source.toList = lineByLine (missing.map fun d => d.2.toList) := by
    rw [hsource, toList_joinedLines, List.map_map]
    rfl
  have hlines := fun d hd => isDocument_of_definesDirective
    (definesDirective_validation d (hmissing d hd))
  have hblocks : ∀ d ∈ missing, readBlock [] d.2.toList = none := fun d hd => (hlines d hd).2
  constructor
  · have : Nonempty DirectiveDef := ⟨⟨"", none, [], [], true⟩⟩
    choose! directive hname hdocument using fun d hd => (hlines d hd).1
    let docs := missing.map fun d => (d.2.toList, [Definition.directive (directive d)])
    have hdocs : IsDocument (lineByLine (docs.map (·.1))) (docs.flatMap (·.2)) := by
      refine isDocument_lineByLine (by simpa [docs] using hne) ?_ (List.pairwise_map.mpr ?_)
      · exact List.forall_mem_map.mpr hdocument
      · exact List.pairwise_of_forall_mem_list fun _ _ d hd _ => hblocks d hd
    have htexts : docs.map (·.1) = missing.map fun d => d.2.toList := by
      simp [docs, Function.comp_def]
    obtain ⟨c', hread', -⟩ := hdocs
    rw [htexts, ← htext, hsource, hread] at hread'
    refine ⟨missing.map directive, ?_, ?_⟩
    · rw [(Prod.mk.inj (Option.some.inj hread')).1, List.map_map]
      exact (List.flatMap_map ..).trans List.map_eq_flatMap.symm
    · rw [List.map_map]
      exact List.map_congr_left hname
  · rw [htext]
    exact readBlock_lineByLine (List.forall_mem_map.mpr hblocks)

theorem foldl_nameRoots_of_rootless {ds : List Definition} (hds : ∀ q, .roots q ∉ ds)
    (q : NamedRoots) : ds.foldl nameRoots q = q := by
  induction ds with
  | nil => rfl
  | cons d rest ih =>
    have hd : nameRoots q d = q := by
      cases d with
      | roots p => exact absurd List.mem_cons_self (hds p)
      | _ => rfl
    rw [List.foldl_cons, hd]
    exact ih fun p hp => hds p (List.mem_cons_of_mem _ hp)

theorem Mergeable.of_applyRoots {q : NamedRoots} (h : (r.applyRoots q).Mergeable fs) :
    r.Mergeable fs := by
  unfold TypeRegistry.applyRoots at h
  split at h
  · exact TypeRegistry.mergeable_setRoots_iff.mp h
  · exact h

theorem mergedTypes_applyRoots (r : TypeRegistry) (q : NamedRoots) (fs : List Fragment) :
    (r.applyRoots q).mergedTypes fs = (r.mergedTypes fs).applyRoots q := by
  unfold TypeRegistry.applyRoots
  split
  · exact TypeRegistry.mergedTypes_setRoots ..
  · rfl

/-- A fragment without roots can be merged with the others at once. -/
theorem mergeFragments_append_rootless {f : Fragment} {t : TypeRegistry}
    (hf : ∀ q, .roots q ∉ f.definitions) (hs : r.mergeFragments fs = .done s)
    (ht : s.mergeFragments [f] = .done t) : r.mergeFragments (fs ++ [f]) = .done t := by
  obtain ⟨hfs, rfl⟩ := TypeRegistry.mergeFragments_eq_done_iff.mp hs
  obtain ⟨hlast, rfl⟩ := TypeRegistry.mergeFragments_eq_done_iff.mp ht
  have hlast' := Mergeable.of_applyRoots hlast
  refine TypeRegistry.mergeFragments_eq_done_iff.mpr ⟨hfs.append hlast', ?_⟩
  have hnone : namedRoots [f] = default := by
    rw [namedRoots_eq, List.flatMap_singleton, foldl_nameRoots_of_rootless hf]
  have hroots : namedRoots (fs ++ [f]) = namedRoots fs := by
    rw [namedRoots_eq, List.flatMap_append, List.foldl_append, List.flatMap_singleton,
      foldl_nameRoots_of_rootless hf]
    rfl
  rw [hnone, hroots, mergedTypes_applyRoots, TypeRegistry.mergedTypes_append hfs hlast']
  exact TypeRegistry.applyRoots_of_none fun op => by cases op <;> rfl

/-- The registry is what the fragments give in one merge, and so does their joined text. -/
structure JoinedFrom (fs : List Fragment) (r : TypeRegistry) : Prop where
  nonempty : fs ≠ []
  parsed : ∀ f ∈ fs, f.IsParsed
  apart : fs.Pairwise Fragment.Apart
  merged : TypeRegistry.initial.mergeFragments fs = .done r

theorem JoinedFrom.sources (h : JoinedFrom fs r) : r.sources = fs.map (·.source) := by
  obtain ⟨-, rfl⟩ := TypeRegistry.mergeFragments_eq_done_iff.mp h.merged
  rw [TypeRegistry.applyRoots_eq]
  exact TypeRegistry.sources_mergedTypes _ fs

def lacking (r : TypeRegistry) : List (String × String) :=
  validationDirectives.filter fun d => (r.directive? d.1).isNone

theorem missingDirectives?_cases (r : TypeRegistry) :
    lacking r = [] ∧ missingDirectives? r = none ∨
      lacking r ≠ [] ∧
        missingDirectives? r = some (String.intercalate "\n" ((lacking r).map (·.2))) := by
  unfold missingDirectives?
  split
  · rename_i h
    exact .inl ⟨h, rfl⟩
  · rename_i h
    exact .inr ⟨h, rfl⟩

theorem missingDirectives?_eq_none_iff :
    missingDirectives? r = none ↔ ∀ d ∈ validationDirectives, d.1 ∈ r.directiveNames := by
  have hempty : missingDirectives? r = none ↔ lacking r = [] := by
    rcases missingDirectives?_cases r with ⟨hlacking, hnone⟩ | ⟨hlacking, hsome⟩
    · exact iff_of_true hnone hlacking
    · exact iff_of_false (hsome ▸ Option.some_ne_none _) hlacking
  rw [hempty, lacking, List.filter_eq_nil_iff]
  refine forall₂_congr fun d _ => ?_
  rw [Option.isNone_iff_eq_none, TypeRegistry.directive?_eq_none_iff, Classical.not_not]

theorem missingDirectives?_mergedTypes {f : Fragment} {ds : List DirectiveDef}
    (hds : f.definitions = ds.map .directive)
    (hnames : ds.map (·.name) = (lacking r).map (·.1)) :
    missingDirectives? (r.mergedTypes [f]) = none := by
  refine missingDirectives?_eq_none_iff.mpr fun d hd => ?_
  have hnew : directiveDefs [f] = ds := by
    rw [directiveDefs, List.flatMap_singleton, hds, directivesOf, List.filterMap_map]
    exact List.filterMap_some
  change d.1 ∈ (r.mergedTypes [f]).directives.map (·.name)
  rw [TypeRegistry.directives_mergedTypes, List.map_append, List.mem_append, hnew, hnames]
  by_cases hold : d.1 ∈ r.directiveNames
  · exact .inl hold
  · have hlacking : d ∈ lacking r := List.mem_filter.mpr ⟨hd, by
      rw [TypeRegistry.directive?_eq_none_iff.mpr hold]
      rfl⟩
    exact .inr (List.mem_map_of_mem hlacking)

/-- What validation adds is joined like one more fragment. -/
theorem JoinedFrom.addValidationDirectives (h : JoinedFrom fs r)
    (hs : addValidationDirectives r = .ok s) :
    ∃ gs, JoinedFrom gs s ∧ missingDirectives? s = none := by
  unfold SchemaAssembly.addValidationDirectives at hs
  rcases missingDirectives?_cases r with ⟨-, hnone⟩ | ⟨hlacking, hsome⟩
  · rw [hnone] at hs
    cases hs
    exact ⟨fs, h, hnone⟩
  · rw [hsome] at hs
    dsimp only at hs
    split at hs
    · cases hs
    rename_i f hparse
    have hmerge := Registration.toExcept_eq_ok_iff.mp hs
    obtain ⟨⟨ds, hds, hnames⟩, hcloses⟩ := parse_missingDirectives
      (fun d hd => (List.mem_filter.mp hd).1) hlacking hparse
    refine ⟨fs ++ [f], ⟨List.append_ne_nil_of_left_ne_nil h.nonempty _, ?_, ?_, ?_⟩, ?_⟩
    · exact List.forall_mem_append.mpr
        ⟨h.parsed, List.forall_mem_singleton.mpr (Fragment.isParsed_of_parse hparse)⟩
    · rw [List.pairwise_append]
      refine ⟨h.apart, List.pairwise_singleton _ _, fun g _ f' hf' _ => ?_⟩
      rw [List.mem_singleton.mp hf']
      exact hcloses
    · refine mergeFragments_append_rootless (fun q hq => ?_) h.merged hmerge
      rw [hds] at hq
      simp at hq
    · obtain ⟨-, rfl⟩ := TypeRegistry.mergeFragments_eq_done_iff.mp hmerge
      rw [TypeRegistry.applyRoots_eq]
      exact missingDirectives?_mergedTypes hds hnames

theorem JoinedFrom.again (h : JoinedFrom fs r) (name : String) :
    ∃ f s, Fragment.parse name r.sdl = .ok f ∧
      TypeRegistry.initial.mergeFragments [f] = .done s ∧ r.SameTypes s ∧ s.sdl = r.sdl := by
  have hparse := parse_joined name h.nonempty h.parsed h.apart
  have hsame : fs.flatMap (·.definitions) = [(⟨name, r.sdl, fs.flatMap (·.definitions)⟩ :
      Fragment)].flatMap (·.definitions) := (List.flatMap_singleton ..).symm
  obtain ⟨s, hs, htypes, hsources⟩ := (TypeRegistry.SameTypes.refl .initial).mergeFragments hsame
    h.merged
  refine ⟨_, s, ?_, hs, htypes, ?_⟩
  · rw [TypeRegistry.sdl, h.sources]
    exact hparse
  · rw [TypeRegistry.sdl, hsources]
    simp [TypeRegistry.initial]

end Validation

namespace Assembler

variable {a : Assembler} {files files' : FileTree} {raw : Option String} {merged : MergedTypes}
  {visibility : Visibility} {s : Snapshot} {fs : List Fragment}

def withoutFragments (a : Assembler) : Assembler := { a with fragments := [] }

theorem joinedFrom_of_mergeTypes (htypes : a.types = none)
    (hcontributors : ∀ c ∈ a.components, c.hasContributors = false)
    (hfs : a.gatherFragments files raw = .ok fs)
    (hapart : fs.Pairwise Fragment.Apart) (h : a.mergeTypes files raw = .ok merged) :
    merged.sdl = merged.types.sdl ∧ ∃ gs, JoinedFrom gs merged.types ∧
      (a.settings.extensions.validation = true → missingDirectives? merged.types = none) := by
  rw [mergeTypes_eq hcontributors, hfs, Except.ok_bind, htypes] at h
  split at h
  · cases h
  rename_i hempty
  obtain ⟨r, hr, h⟩ := Except.bind_eq_ok.mp h
  have hjoined : JoinedFrom fs r := by
    refine ⟨?_, isParsed_of_gatherFragments hfs, hapart,
      Registration.toExcept_eq_ok_iff.mp hr⟩
    rintro rfl
    exact hempty rfl
  split at h
  · cases hs : addValidationDirectives r with
    | error e =>
      rw [hs] at h
      cases h
    | ok s =>
      rw [hs] at h
      cases h
      obtain ⟨gs, hgs, hnone⟩ := hjoined.addValidationDirectives hs
      exact ⟨rfl, gs, hgs, fun _ => hnone⟩
  · rename_i hvalidation
    cases h
    exact ⟨rfl, fs, hjoined, fun hon => absurd hon hvalidation⟩

theorem mergeTypes_again (htypes : a.types = none)
    (hcontributors : ∀ c ∈ a.components, c.hasContributors = false)
    (hfs : a.gatherFragments files raw = .ok fs)
    (hapart : fs.Pairwise Fragment.Apart) (h : a.mergeTypes files raw = .ok merged)
    (files' : FileTree) :
    ∃ again, a.withoutFragments.mergeTypes files' (some merged.sdl) = .ok again ∧
      merged.types.SameTypes again.types ∧ again.sdl = merged.sdl := by
  obtain ⟨hsdl, gs, hgs, hnone⟩ :=
    joinedFrom_of_mergeTypes htypes hcontributors hfs hapart h
  obtain ⟨f, s, hf, hs, hsame, hsdl'⟩ := hgs.again "<raw>"
  have hgather : a.withoutFragments.gatherFragments files' (some merged.sdl) = .ok [f] := by
    rw [hsdl]
    simp only [gatherFragments, hf]
    rfl
  refine ⟨⟨s, s.sdl⟩, ?_, hsame, hsdl'.trans hsdl.symm⟩
  have hcontributors' : ∀ c ∈ a.withoutFragments.components, c.hasContributors = false :=
    hcontributors
  have htypes' : a.withoutFragments.types = none := htypes
  have hempty : ¬ ([f].isEmpty && (none : Option TypeRegistry).isNone) = true := Bool.false_ne_true
  have hvalidated : (if a.settings.extensions.validation then addValidationDirectives s
      else .ok s) = .ok s := by
    split
    · rename_i hon
      rw [addValidationDirectives, ← hsame.missingDirectives?, hnone hon]
    · rfl
  rw [mergeTypes_eq hcontributors', hgather, Except.ok_bind, htypes', if_neg hempty,
    Option.getD_none, Registration.toExcept_eq_ok_iff.mpr hs, Except.ok_bind]
  change Except.map _ (if a.settings.extensions.validation then addValidationDirectives s
    else .ok s) = _
  rw [hvalidated]
  rfl

theorem Passes.again {again : MergedTypes} {bindings : List Binding} {loaders : LoaderTable}
    {entities : EntityTable} (h : a.Passes files raw merged bindings loaders entities)
    (hagain : a.withoutFragments.mergeTypes files' (some merged.sdl) = .ok again)
    (hsame : merged.types.SameTypes again.types) :
    a.withoutFragments.Passes files' (some merged.sdl) again bindings loaders entities where
  merge := hagain
  bind := hsame.bindFetchers _ ▸ h.bind
  load := h.load
  resolve := by
    obtain ⟨r, hr⟩ := h.resolve
    exact ⟨r, hsame.registerResolvers _ _ ▸ hr⟩
  own := h.own
  federate hneeds := by
    rw [← hsame.needsFederation] at hneeds
    obtain ⟨r, hr⟩ := h.federate hneeds
    obtain ⟨s, hs, -⟩ := hsame.addFederationTypes hr
    exact ⟨s, hs⟩

theorem sameTypes_of_assemble {b : Assembler} {again : MergedTypes} {raw' : Option String}
    {visibility' : Visibility} {t : Snapshot} (hs : a.assemble files raw visibility = .ok s)
    (ht : b.assemble files' raw' visibility' = .ok t)
    (hmerged : a.mergeTypes files raw = .ok merged)
    (hagain : b.mergeTypes files' raw' = .ok again) (hsame : merged.types.SameTypes again.types)
    (hentities : s.entities = t.entities) : s.schema.types.SameTypes t.schema.types := by
  obtain ⟨u, hu, rfl⟩ := assemble_eq_ok_iff.mp hs
  obtain ⟨v, hv, rfl⟩ := assemble_eq_ok_iff.mp ht
  obtain ⟨m, hm, -, hcase⟩ := types_of_unwired hu
  obtain ⟨n, hn, -, hcase'⟩ := types_of_unwired hv
  cases hmerged.symm.trans hm
  cases hagain.symm.trans hn
  rw [Snapshot.types_dressed, Snapshot.types_dressed]
  change u.entities = v.entities at hentities
  rw [← hentities, ← hsame.needsFederation] at hcase'
  rcases hcase with ⟨hneeds, htypes⟩ | ⟨hneeds, hadded⟩
  · rcases hcase' with ⟨-, htypes'⟩ | ⟨hneeds', -⟩
    · rw [htypes, htypes']
      exact hsame
    · cases hneeds.symm.trans hneeds'
  · rcases hcase' with ⟨hneeds', -⟩ | ⟨-, hadded'⟩
    · cases hneeds.symm.trans hneeds'
    · obtain ⟨w, hw, hgrown⟩ := hsame.addFederationTypes hadded
      rw [hw] at hadded'
      cases hadded'
      exact hgrown

/-- The text that a schema was built from gives the schema again. If an assembler over texts and
fragments, without types and contributors from elsewhere, succeeds, and none of its fragments leaves
a block string open that a later one closes, then assembling the same components from the
text of the schema alone succeeds, with the same types in the same order, directives and roots, the
same bindings and the same text. -/
theorem assemble_sdl (a : Assembler) (files : FileTree) (raw : Option String)
    (visibility : Visibility) (fs : List Fragment) (s : Snapshot) (htypes : a.types = none)
    (hcontributors : ∀ c ∈ a.components, c.hasContributors = false)
    (hfs : a.gatherFragments files raw = .ok fs)
    (hapart : fs.Pairwise Fragment.Apart) (hs : a.assemble files raw visibility = .ok s)
    (files' : FileTree) (visibility' : Visibility) :
    ∃ t, a.withoutFragments.assemble files' (some s.schema.sdl) visibility' = .ok t ∧
      t.schema.types.types = s.schema.types.types ∧
      t.schema.types.directives = s.schema.types.directives ∧
      t.schema.types.roots = s.schema.types.roots ∧
      t.bindings = s.bindings ∧ t.schema.sdl = s.schema.sdl := by
  obtain ⟨⟨merged, hpasses⟩, -⟩ := passes_of_assemble hs
  obtain ⟨again, hagain, hsame, hsdl⟩ :=
    mergeTypes_again htypes hcontributors hfs hapart hpasses.merge files'
  rw [sdl_of_assemble hs hpasses.merge]
  have hpasses' := hpasses.again hagain hsame
  obtain ⟨t, ht⟩ := hpasses'.exists_assemble visibility'
  obtain ⟨⟨again', hagain'⟩, -⟩ := passes_of_assemble ht
  obtain ⟨hbindings, -, hentities⟩ := hpasses'.unique hagain'
  have htypes := sameTypes_of_assemble hs ht hpasses.merge hagain hsame hentities
  refine ⟨t, ht, htypes.types.symm, htypes.directives.symm, htypes.roots.symm, hbindings.symm, ?_⟩
  rw [sdl_of_assemble ht hagain, hsdl]

def catalogueText : String :=
  "\"\"\"All books\"\"\" type Query \x7b title: ID \x7d # more may come"

def booksText : String := "extend type Query \x7b book: Book \x7d type Book \x7b id: ID \x7d"

def catalogue : Assembler where
  settings := { extensions := { validation := false } }
  components := [{ exampleComponent "catalogue" "title" "books" "Book" with entities := [] }]
  fragments := (ParsedFragment.parse "<books>" booksText).toOption.toList

theorem assemble_sdl_catalogue :
    ∃ s t, catalogue.assemble .empty (some catalogueText) .all = .ok s ∧
      catalogue.withoutFragments.assemble .empty (some s.schema.sdl) .noIntrospection = .ok t ∧
      t.schema.types.types = s.schema.types.types ∧ t.bindings = s.bindings ∧
      t.schema.sdl = s.schema.sdl ∧ s.bindings.length = 1 ∧
      (s.schema.types.field? ⟨"Query", "book"⟩).isSome = true := by
  have hfirst : (Fragment.parse "<raw>" catalogueText).toOption.any (fun _ => true) = true := by
    decide +kernel
  have hsecond : (ParsedFragment.parse "<books>" booksText).toOption.any (fun _ => true) =
      true := by decide +kernel
  have hassembles : (catalogue.assemble .empty (some catalogueText) .all).toOption.any (fun s =>
      s.bindings.length == 1 && (s.schema.types.field? ⟨"Query", "book"⟩).isSome) = true := by
    decide +kernel
  obtain ⟨f, hf, -⟩ := Except.exists_ok_of_any hfirst
  obtain ⟨p, hp, -⟩ := Except.exists_ok_of_any hsecond
  obtain ⟨s, hs, hs'⟩ := Except.exists_ok_of_any hassembles
  rw [Bool.and_eq_true, beq_iff_eq] at hs'
  have hg : Fragment.parse "<books>" booksText = .ok p.fragment := by
    rw [← ParsedFragment.map_parse, hp]
    rfl
  have hfragments : catalogue.fragments = [p] := by
    simp only [catalogue, hp]
    rfl
  have hgather : catalogue.gatherFragments .empty (some catalogueText) = .ok [f, p.fragment] := by
    simp only [gatherFragments, hf, hfragments]
    rfl
  have hapart : [f, p.fragment].Pairwise Fragment.Apart := by
    refine List.pairwise_pair.mpr fun _ => ?_
    rw [(Fragment.parse_eq_ok_iff.mp hg).2.1]
    decide +kernel
  obtain ⟨t, ht, htypes, -, -, hbindings, hsdl⟩ := assemble_sdl catalogue .empty
    (some catalogueText) .all [f, p.fragment] s rfl (by decide) hgather hapart hs .empty
    .noIntrospection
  exact ⟨s, t, hs, ht, htypes, hbindings, hsdl, hs'⟩

def tagText : String :=
  "type Query \x7b ok: Boolean \x7d scalar Tag @tag(words: [\"\"\"a\"])"

def extraText : String := "\"\"\"Doc\"\"\" type Extra \x7b x: Int \x7d"

def tagged : Assembler where
  settings := { extensions := { validation := false } }
  fragments := (ParsedFragment.parse "<extra>" extraText).toOption.toList

/-- A block string that one fragment leaves open is closed by the next one in the joined text, which
is no schema then. -/
theorem sdl_not_assembled :
    ¬ ∀ (a : Assembler) (files : FileTree) (raw : Option String) (visibility : Visibility)
      (s : Snapshot), a.types = none → (∀ c ∈ a.components, c.hasContributors = false) →
        a.assemble files raw visibility = .ok s →
          ∃ t, a.withoutFragments.assemble files (some s.schema.sdl) visibility = .ok t := by
  intro h
  have hassembles : (tagged.assemble .empty (some tagText) .all).toOption.any (fun s =>
      (tagged.withoutFragments.assemble .empty (some s.schema.sdl) .all).toOption.isNone) =
        true := by
    decide +kernel
  obtain ⟨s, hs, hnone⟩ := Except.exists_ok_of_any hassembles
  obtain ⟨t, ht⟩ := h tagged .empty (some tagText) .all s rfl (fun _ hc => nomatch hc) hs
  rw [ht] at hnone
  cases hnone

end Assembler

end SchemaAssembly
