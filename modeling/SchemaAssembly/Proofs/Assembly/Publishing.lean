import Mathlib.Data.List.Induction
import SchemaAssembly.Proofs.Assembly.FieldFetchers
import SchemaAssembly.Assembly.Host

/-!
What a host serves over a run of calls. The schema files may be different at every call, and any
pass may fail; what is published is always the result of one whole pass.
-/

set_option autoImplicit false

namespace SchemaAssembly

inductive HostCall where
  | reload (files : FileTree)
  /-- A request; `wanted` is the answer of whoever is asked for reloads. -/
  | request (files : FileTree) (wanted : Bool)
  | assemble (files : FileTree) (raw : Option String) (visibility : Visibility)
  | read

/-- The files of the pass whose result the call is going to publish. -/
def HostCall.attempt? (reloadable : Bool) : HostCall → Option FileTree
  | reload files => some files
  | request files wanted => if reloadable && wanted then some files else none
  | assemble _ _ _ => none
  | read => none

structure HostRun where
  host : SchemaHost
  answers : List (Except ConfigurationError Snapshot) := []

namespace SchemaHost

def answer (h : SchemaHost) : HostCall → SchemaHost × Except ConfigurationError Snapshot
  | .reload files => h.reload files
  | .request files wanted => h.snapshotForRequest files wanted
  | .assemble files raw visibility => (h, h.assemble files raw visibility)
  | .read => (h, .ok h.published)

def run (h : SchemaHost) (calls : List HostCall) : HostRun :=
  calls.foldl
    (fun r call => ⟨(r.host.answer call).1, r.answers ++ [(r.host.answer call).2]⟩) ⟨h, []⟩

/-- All that one call to the host of an assembler does: the next host and the answer. -/
structure Answers (a : Assembler) (reloadable : Bool) (h : SchemaHost) (call : HostCall)
    (next : SchemaHost) (answer : Except ConfigurationError Snapshot) : Prop where
  /-- A pass that succeeds is published as it is, and handed out. -/
  succeeded : ∀ files s, call.attempt? reloadable = some files → a.assembleOwn files = .ok s →
    next = { h with published := s, generation := h.generation + 1 } ∧ answer = .ok s
  /-- A pass that fails is answered by its error and changes nothing. -/
  failed : ∀ files e, call.attempt? reloadable = some files → a.assembleOwn files = .error e →
    next = h ∧ answer = .error e
  /-- Calls that are no attempt change nothing. -/
  kept : call.attempt? reloadable = none → next = h
  /-- A pass over other texts is handed out only. -/
  assembled : ∀ files raw visibility, call = .assemble files raw visibility →
    answer = a.assemble files raw visibility
  /-- Reads and requests without a reload are served what is published. -/
  served : call.attempt? reloadable = none →
    (∀ files raw visibility, call ≠ .assemble files raw visibility) → answer = .ok h.published

variable {h : SchemaHost} {call : HostCall} {calls : List HostCall}

theorem answers_reload (files : FileTree) :
    Answers h.assembler h.reloadable h (.reload files) (h.reload files).1 (h.reload files).2 where
  succeeded := by
    rintro _ s ⟨⟩ hs
    simp only [reload, hs, and_self]
  failed := by
    rintro _ e ⟨⟩ he
    simp only [reload, he, and_self]
  kept := nofun
  assembled := nofun
  served := nofun

theorem answers_answer (h : SchemaHost) (call : HostCall) :
    Answers h.assembler h.reloadable h call (h.answer call).1 (h.answer call).2 := by
  cases call with
  | reload files => exact answers_reload files
  | request files wanted =>
    by_cases hwanted : (h.reloadable && wanted) = true
    · -- A request that wants a reload is answered as the reload is.
      have hreload := answers_reload (h := h) files
      have hattempt : (HostCall.request files wanted).attempt? h.reloadable = some files :=
        if_pos hwanted
      simp only [answer, snapshotForRequest, if_pos hwanted]
      exact {
        succeeded := fun f s hf => hreload.succeeded f s (hattempt.symm.trans hf)
        failed := fun f e hf => hreload.failed f e (hattempt.symm.trans hf)
        kept := fun hf => nomatch hattempt.symm.trans hf
        assembled := nofun
        served := fun hf => nomatch hattempt.symm.trans hf }
    · have hattempt : (HostCall.request files wanted).attempt? h.reloadable = none :=
        if_neg hwanted
      simp only [answer, snapshotForRequest, if_neg hwanted]
      exact {
        succeeded := fun f s hf => nomatch hattempt.symm.trans hf
        failed := fun f e hf => nomatch hattempt.symm.trans hf
        kept := fun _ => rfl
        assembled := nofun
        served := fun _ _ => rfl }
  | assemble files raw visibility =>
    exact {
      succeeded := nofun
      failed := nofun
      kept := fun _ => rfl
      assembled := by rintro _ _ _ ⟨⟩; rfl
      served := fun _ hother => absurd rfl (hother files raw visibility) }
  | read =>
    exact {
      succeeded := nofun
      failed := nofun
      kept := fun _ => rfl
      assembled := nofun
      served := fun _ _ => rfl }

def attempts (h : SchemaHost) (calls : List HostCall) : List FileTree :=
  calls.filterMap (HostCall.attempt? h.reloadable)

/-- `s` is the result of the last of the passes that succeeded, or `first` if none did. -/
def LastPublished (a : Assembler) (first : Snapshot) (attempts : List FileTree) (s : Snapshot) :
    Prop :=
  (∃ earlier files later, attempts = earlier ++ files :: later ∧ a.assembleOwn files = .ok s ∧
    ∀ other ∈ later, ∃ e, a.assembleOwn other = .error e) ∨
  (s = first ∧ ∀ files ∈ attempts, ∃ e, a.assembleOwn files = .error e)

variable {a : Assembler} {first s : Snapshot} {files : FileTree} {attempted : List FileTree}

theorem LastPublished.failing {e : ConfigurationError} (h : LastPublished a first attempted s)
    (he : a.assembleOwn files = .error e) : LastPublished a first (attempted ++ [files]) s := by
  have hlater : ∀ later : List FileTree, (∀ other ∈ later, ∃ e, a.assembleOwn other = .error e) →
      ∀ other ∈ later ++ [files], ∃ e, a.assembleOwn other = .error e := by
    intro later hfail other hother
    rcases List.mem_append.mp hother with hother | hother
    · exact hfail other hother
    · rw [List.mem_singleton.mp hother]
      exact ⟨e, he⟩
  rcases h with ⟨earlier, found, later, rfl, hs, hfail⟩ | ⟨rfl, hfail⟩
  · exact .inl ⟨earlier, found, later ++ [files], by simp, hs, hlater later hfail⟩
  · exact .inr ⟨rfl, hlater attempted hfail⟩

theorem LastPublished.unique {t : Snapshot} (hs : LastPublished a first attempted s)
    (ht : LastPublished a first attempted t) : s = t := by
  have hfails : ∀ {files : FileTree} {s : Snapshot}, a.assembleOwn files = .ok s →
      ¬ ∃ e, a.assembleOwn files = .error e := fun hok ⟨e, he⟩ => nomatch hok.symm.trans he
  rcases hs with ⟨earlier, files, later, rfl, hok, hlater⟩ | ⟨rfl, hnone⟩ <;>
    rcases ht with ⟨earlier', files', later', heq, hok', hlater'⟩ | ⟨rfl, hnone'⟩
  · rcases List.append_eq_append_iff.mp heq with ⟨skipped, rfl, hrest⟩ | ⟨skipped, rfl, hrest⟩ <;>
      cases skipped with
      | nil => cases hrest; exact Except.ok.inj (hok.symm.trans hok')
      | cons _ skipped =>
        cases hrest
        first
        | exact absurd (hlater _ (by simp)) (hfails hok')
        | exact absurd (hlater' _ (by simp)) (hfails hok)
  · exact absurd (hnone' files (by simp)) (hfails hok)
  · exact absurd (hnone files' (heq ▸ by simp)) (hfails hok')
  · rfl

theorem run_append_singleton (h : SchemaHost) (calls : List HostCall) (call : HostCall) :
    h.run (calls ++ [call]) = ⟨((h.run calls).host.answer call).1,
      (h.run calls).answers ++ [((h.run calls).host.answer call).2]⟩ := by
  rw [run, List.foldl_append]
  rfl

theorem attempts_append_singleton (h : SchemaHost) (calls : List HostCall) (call : HostCall) :
    h.attempts (calls ++ [call]) =
      h.attempts calls ++ (call.attempt? h.reloadable).toList := by
  rw [attempts, List.filterMap_append]
  cases hcall : call.attempt? h.reloadable <;> simp [attempts, hcall]

theorem Answers.keeps {a : Assembler} {reloadable : Bool} {next : SchemaHost}
    {answer : Except ConfigurationError Snapshot}
    (hanswer : Answers a reloadable h call next answer) :
    next.assembler = h.assembler ∧ next.reloadable = h.reloadable := by
  cases hcall : call.attempt? reloadable with
  | none => rw [hanswer.kept hcall]; exact ⟨rfl, rfl⟩
  | some files =>
    cases hpass : a.assembleOwn files with
    | error e => rw [(hanswer.failed files e hcall hpass).1]; exact ⟨rfl, rfl⟩
    | ok s => rw [(hanswer.succeeded files s hcall hpass).1]; exact ⟨rfl, rfl⟩

theorem run_keeps (h : SchemaHost) (calls : List HostCall) :
    (h.run calls).host.assembler = h.assembler ∧ (h.run calls).host.reloadable = h.reloadable := by
  induction calls using List.reverseRecOn with
  | nil => exact ⟨rfl, rfl⟩
  | append_singleton calls call ih =>
    have hkeeps := (answers_answer (h.run calls).host call).keeps
    rw [run_append_singleton]
    exact ⟨hkeeps.1.trans ih.1, hkeeps.2.trans ih.2⟩

theorem answers_run (h : SchemaHost) (calls : List HostCall) (call : HostCall) :
    Answers h.assembler h.reloadable (h.run calls).host call ((h.run calls).host.answer call).1
      ((h.run calls).host.answer call).2 := by
  have hanswer := answers_answer (h.run calls).host call
  rwa [(run_keeps h calls).1, (run_keeps h calls).2] at hanswer

theorem lastPublished_run (h : SchemaHost) (calls : List HostCall) :
    LastPublished h.assembler h.published (h.attempts calls) (h.run calls).host.published := by
  induction calls using List.reverseRecOn with
  | nil => exact .inr ⟨rfl, nofun⟩
  | append_singleton calls call ih =>
    have hanswer := answers_run h calls call
    rw [run_append_singleton, attempts_append_singleton]
    cases hcall : call.attempt? h.reloadable with
    | none =>
      rw [hanswer.kept hcall]
      simpa using ih
    | some files =>
      cases hpass : h.assembler.assembleOwn files with
      | error e =>
        rw [(hanswer.failed files e hcall hpass).1]
        exact ih.failing hpass
      | ok s =>
        rw [(hanswer.succeeded files s hcall hpass).1]
        exact .inl ⟨h.attempts calls, files, [], rfl, hpass, nofun⟩

theorem run_append (h : SchemaHost) (before after : List HostCall) :
    h.run (before ++ after) = ⟨((h.run before).host.run after).host,
      (h.run before).answers ++ ((h.run before).host.run after).answers⟩ := by
  induction after using List.reverseRecOn with
  | nil => simp [run]
  | append_singleton after call ih =>
    rw [← List.append_assoc, run_append_singleton, run_append_singleton, ih, List.append_assoc]

theorem length_answers_run (h : SchemaHost) (calls : List HostCall) :
    (h.run calls).answers.length = calls.length := by
  induction calls using List.reverseRecOn with
  | nil => rfl
  | append_singleton calls call ih => simp [run_append_singleton, ih]

/-- The snapshot is what one pass gave, from its files and nothing else. -/
def IsPass (a : Assembler) (s : Snapshot) : Prop :=
  ∃ files raw visibility, a.assemble files raw visibility = .ok s

theorem LastPublished.isPass (h : LastPublished a first attempted s) (hfirst : IsPass a first) :
    IsPass a s := by
  rcases h with ⟨-, files, -, -, hs, -⟩ | ⟨rfl, -⟩
  · exact ⟨files, a.rawSchema, a.standardVisibility, hs⟩
  · exact hfirst

theorem Answers.isPass {reloadable : Bool} {next : SchemaHost}
    {answer : Except ConfigurationError Snapshot}
    (hanswer : Answers a reloadable h call next answer) (hpublished : IsPass a h.published)
    (hs : answer = .ok s) : IsPass a s := by
  cases hcall : call.attempt? reloadable with
  | some files =>
    cases hpass : a.assembleOwn files with
    | error e => cases (hanswer.failed files e hcall hpass).2.symm.trans hs
    | ok t =>
      cases (hanswer.succeeded files t hcall hpass).2.symm.trans hs
      exact ⟨files, _, _, hpass⟩
  | none =>
    by_cases hother : ∃ files raw visibility, call = .assemble files raw visibility
    · obtain ⟨files, raw, visibility, rfl⟩ := hother
      exact ⟨files, raw, visibility, (hanswer.assembled _ _ _ rfl).symm.trans hs⟩
    · cases (hanswer.served hcall fun _ _ _ heq => hother ⟨_, _, _, heq⟩).symm.trans hs
      exact hpublished

theorem isPass_of_mem_answers (hfirst : IsPass h.assembler h.published)
    (hs : .ok s ∈ (h.run calls).answers) : IsPass h.assembler s := by
  induction calls using List.reverseRecOn with
  | nil => cases hs
  | append_singleton calls call ih =>
    rw [run_append_singleton] at hs
    rcases List.mem_append.mp hs with hs | hs
    · exact ih hs
    · have hpublished := (lastPublished_run h calls).isPass hfirst
      exact (answers_run h calls call).isPass hpublished (List.mem_singleton.mp hs).symm

/-- Reloads publish all or nothing. After any calls to a host that was built, with any files at each
of them, the published snapshot is the whole result of the last reload that succeeded, or of the
first pass if none did; a reload that fails is answered by its error and leaves the host as it is;
passes that are not to be published leave it as it is too; and what was handed out before a call is
the same after it and after all calls that follow. -/
theorem lastPublished_of_build (a : Assembler) (files : FileTree) (reloadable : Bool)
    (h : SchemaHost) (calls : List HostCall)
    (hbuild : SchemaHost.build a files reloadable = .ok h) :
    a.assembleOwn files = .ok h.published ∧
    LastPublished a h.published (calls.filterMap (HostCall.attempt? reloadable))
      (h.run calls).host.published ∧
    (∀ s, .ok s ∈ (h.run calls).answers → IsPass a s) ∧
    ∀ before call after, calls = before ++ call :: after →
      let earlier := h.run before
      let next := earlier.host.answer call
      Answers a reloadable earlier.host call next.1 next.2 ∧
      earlier.answers.length = before.length ∧
      (h.run calls).answers = earlier.answers ++ next.2 :: (next.1.run after).answers := by
  rw [build] at hbuild
  cases hfirst : a.assembleOwn files with
  | error e => rw [hfirst] at hbuild; cases hbuild
  | ok first =>
    rw [hfirst] at hbuild
    cases hbuild
    let h : SchemaHost := ⟨a, reloadable, first, 0⟩
    refine ⟨rfl, lastPublished_run h calls, ?_, ?_⟩
    · exact fun s hs => isPass_of_mem_answers (h := h) ⟨files, _, _, hfirst⟩ hs
    · rintro before call after rfl
      refine ⟨answers_run h before call, length_answers_run h before, ?_⟩
      change (h.run (before ++ call :: after)).answers = _
      rw [List.append_cons, run_append, run_append_singleton]
      exact List.append_assoc ..

def shelfText : String := "extend type Query \x7b shelf: ID \x7d"

def onDisk (text : String) : FileTree := ⟨[], [(["more.graphqls"], .file text.toUTF8)]⟩

def shelves : Assembler where
  settings := { schemaLocations := ["/more.graphqls"], extensions := { validation := false } }
  components := [{ exampleComponent "catalogue" "title" "books" "Book" with entities := [] }]
  fragments := (ParsedFragment.parse "<given>" "type Query \x7b title: ID \x7d").toOption.toList

theorem gatherFragments_onDisk (a : Assembler) (text : String)
    (h : a.settings.resolvedLocations = ["/more.graphqls"]) :
    a.gatherFragments (onDisk text) none =
      (Fragment.parse "/more.graphqls" text).map fun f =>
        f :: a.fragments.map (·.fragment) := by
  have hpaths : Fragment.filesAt (onDisk text) ["/more.graphqls"] = .ok ["/more.graphqls"] := rfl
  have hlookup : (onDisk text).lookup "/more.graphqls" = .ok (.file text.toUTF8) := rfl
  have htext : String.fromUTF8? text.toUTF8 = some text := dif_pos text.isValidUTF8
  have hread : (onDisk text).readText "/more.graphqls" = .ok text := by
    rw [FileTree.readText, hlookup]
    simp only [bind, Except.bind, htext]
    rfl
  rw [Assembler.gatherFragments, Fragment.load, h, hpaths]
  simp only [bind, Except.bind, List.mapM_cons, List.mapM_nil, Fragment.ofFile, hread]
  cases Fragment.parse "/more.graphqls" text <;> rfl

/-- Files and given fragments count by the fragments that they give together. -/
theorem assemble_eq_of_gatherFragments {fragments fragments' : List ParsedFragment}
    {files files' : FileTree} {raw : Option String} {visibility : Visibility}
    (h : { a with fragments := fragments }.gatherFragments files raw =
      { a with fragments := fragments' }.gatherFragments files' raw) :
    { a with fragments := fragments }.assemble files raw visibility =
      { a with fragments := fragments' }.assemble files' raw visibility := by
  simp only [Assembler.assemble, Assembler.mergeTypes, h]
  rfl

theorem assemble_onDisk {text : String} {p : ParsedFragment}
    (hlocations : a.settings.resolvedLocations = ["/more.graphqls"])
    (hparse : ParsedFragment.parse "/more.graphqls" text = .ok p) (visibility : Visibility) :
    a.assemble (onDisk text) none visibility =
      { a with fragments := p :: a.fragments }.assemble .empty none visibility := by
  have hnone : Fragment.load .empty ["/more.graphqls"] = .ok [] := rfl
  have hgather : { a with fragments := p :: a.fragments }.gatherFragments .empty none =
      .ok ((p :: a.fragments).map (·.fragment)) := by
    simp only [Assembler.gatherFragments, hlocations, hnone]
    rfl
  have hsame : { a with fragments := a.fragments }.gatherFragments (onDisk text) none =
      { a with fragments := p :: a.fragments }.gatherFragments .empty none := by
    rw [hgather, gatherFragments_onDisk a text hlocations, ← ParsedFragment.map_parse, hparse]
    rfl
  exact assemble_eq_of_gatherFragments hsame

theorem assemble_onDisk_error {text : String} {e : ConfigurationError}
    (hlocations : a.settings.resolvedLocations = ["/more.graphqls"])
    (hparse : Fragment.parse "/more.graphqls" text = .error e) (visibility : Visibility) :
    a.assemble (onDisk text) none visibility = .error e := by
  simp only [Assembler.assemble, Assembler.mergeTypes, gatherFragments_onDisk a text hlocations,
    hparse]
  rfl

/-- A broken file is refused, a good one is served from then on, whatever else is asked for. -/
theorem lastPublished_of_build_shelves :
    ∃ h s e, SchemaHost.build shelves .empty true = .ok h ∧
      shelves.assembleOwn (onDisk shelfText) = .ok s ∧
      shelves.assembleOwn (onDisk "type") = .error e ∧
      (h.published.schema.types.field? ⟨"Query", "shelf"⟩).isNone ∧
      (s.schema.types.field? ⟨"Query", "shelf"⟩).isSome ∧
      let calls : List HostCall := [.request (onDisk "type") true, .reload (onDisk shelfText),
        .reload (onDisk "type"), .assemble .empty none .all, .request (onDisk "type") false]
      (h.run calls).host.published = s ∧
        ∃ other, (h.run calls).answers = [.error e, .ok s, .error e, other, .ok s] := by
  have hlocations : shelves.settings.resolvedLocations = ["/more.graphqls"] := rfl
  have hfirst : (shelves.assembleOwn .empty).toOption.any (fun s =>
      (s.schema.types.field? ⟨"Query", "shelf"⟩).isNone) = true := by decide +kernel
  have hmore : (ParsedFragment.parse "/more.graphqls" shelfText).toOption.any (fun p =>
      ({ shelves with fragments := p :: shelves.fragments }.assemble .empty none
        shelves.standardVisibility).toOption.any
          fun (s : Snapshot) => (s.schema.types.field? ⟨"Query", "shelf"⟩).isSome) = true := by
    decide +kernel
  have hbroken : (Fragment.parse "/more.graphqls" "type").toOption.isNone = true := by
    decide +kernel
  obtain ⟨first, hfirst, htitle⟩ := Except.exists_ok_of_any hfirst
  obtain ⟨p, hp, hmore⟩ := Except.exists_ok_of_any hmore
  obtain ⟨s, hs, hshelf⟩ := Except.exists_ok_of_any hmore
  rw [← assemble_onDisk hlocations hp] at hs
  obtain ⟨e, he⟩ : ∃ e, shelves.assemble (onDisk "type") none shelves.standardVisibility =
      .error e := by
    cases hparse : Fragment.parse "/more.graphqls" "type" with
    | ok f => rw [hparse] at hbroken; cases hbroken
    | error e => exact ⟨e, assemble_onDisk_error hlocations hparse _⟩
  have hbuild : SchemaHost.build shelves .empty true = .ok ⟨shelves, true, first, 0⟩ := by
    rw [build, hfirst]
    rfl
  change shelves.assembleOwn (onDisk shelfText) = .ok s at hs
  change shelves.assembleOwn (onDisk "type") = .error e at he
  refine ⟨_, s, e, hbuild, hs, he, htitle, hshelf, ?_⟩
  intro calls
  obtain ⟨-, hlast, -, -⟩ := lastPublished_of_build shelves .empty true _ calls hbuild
  have hlast' : LastPublished shelves first
      [onDisk "type", onDisk shelfText, onDisk "type"] s :=
    .inl ⟨[onDisk "type"], onDisk shelfText, [onDisk "type"], rfl, hs, fun other hother =>
      ⟨e, (List.mem_singleton.mp hother).symm ▸ he⟩⟩
  refine ⟨hlast.unique hlast', shelves.assemble .empty none .all, ?_⟩
  simp only [calls, run, List.foldl_cons, List.foldl_nil, answer, reload, snapshotForRequest,
    assemble, hs, he, Bool.and_true, Bool.and_false, if_true, Bool.false_eq_true, if_false,
    List.nil_append, List.cons_append]

end SchemaHost

end SchemaAssembly
