import SchemaAssembly.Federation.Types
import SchemaAssembly.Proofs.Sdl.Lines

/-!
The text of the federation definitions, read back. Each of its lines gives the definition that it
states, whatever the registry lacks; so of the entities only the members of their union can differ,
and the rest of the text is read in the same way for all orders of them.
-/

set_option autoImplicit false

namespace SchemaAssembly

open Sdl Sdl.Reader

variable {rest : List Char} {members others : List String} {r : TypeRegistry}

def fieldSetArgument : Entries InputField :=
  [("fields", ⟨"fields", none, .named "_FieldSet", none, []⟩)]

def fieldSetText : List Char :=
  "(".toList ++ ("fields".toList ++ (":".toList ++ ([' '] ++ "_FieldSet!".toList)) ++ ")".toList)

theorem reads_fieldSet (rest : List Char) :
    Reads optionalArguments fieldSetText fieldSetArgument rest := by
  let typed := ":".toList ++ ([' '] ++ "_FieldSet!".toList)
  let close := ")".toList ++ rest
  have hnone : Refuses (lexeme readString) ("fields".toList ++ typed ++ close) := fun _ _ => rfl
  have hname : Reads name "fields".toList "fields" (typed ++ close) :=
    reads_name_here (by decide +kernel) rfl
  have hcolon : Reads (word ":") ":".toList () ([' '] ++ "_FieldSet!".toList ++ close) :=
    reads_word_here rfl
  have htype : Reads (lexeme readTypeRef) ([' '] ++ "_FieldSet!".toList) (.named "_FieldSet")
      close := reads_lexeme [' '] ignored_blank rfl rfl
  have hdefault : Refuses (do word "="; constant) close := fun _ _ => rfl
  have huses : Refuses directives close := fun _ _ => rfl
  have hfield : Reads inputField ("fields".toList ++ typed)
      ⟨"fields", none, .named "_FieldSet", none, []⟩ close :=
    hnone.optional.nil_bind (hname.bind (hcolon.bind (htype.bind_nil (hdefault.optional.bind_nil
      huses.optional.pure_bind.pure_bind))))
  have hlast : Refuses inputField close := fun _ _ => rfl
  have hfields : Reads (many1 inputField) ("fields".toList ++ typed)
      [⟨"fields", none, .named "_FieldSet", none, []⟩] close :=
    hfield.bind_nil (ReadsEach.nil.many hlast).pure_bind
  have hopen : Reads (word "(") "(".toList () ("fields".toList ++ typed ++ ")".toList ++ rest) :=
    reads_word_here rfl
  have hclose : Reads (word ")") ")".toList () rest := reads_word_here rfl
  have hargs : Reads arguments fieldSetText fieldSetArgument rest :=
    hopen.bind (hfields.bind hclose.pure_bind)
  exact hargs.optional.pure_bind

theorem reads_location {w : String} {l : DirectiveLocation}
    (hskip : skipIgnored (w.toList ++ rest) = w.toList ++ rest)
    (hchosen : ∀ offset faults, (location ⟨[' '] ++ w.toList ++ rest, offset, faults⟩).result =
      ((do word w; return l : Reader DirectiveLocation)
        ⟨[' '] ++ w.toList ++ rest, offset, faults⟩).result) :
    Reads location ([' '] ++ w.toList) l rest := by
  intro offset faults
  rw [hchosen]
  exact (reads_word [' '] ignored_blank hskip).bind_nil (reads_pure l rest) offset faults

theorem reads_objectOrInterface (hrest : EndsLine rest) :
    Reads locations ([' '] ++ "OBJECT".toList ++ ([' '] ++ "|".toList ++
      ([' '] ++ "INTERFACE".toList))) [.object, .interface] rest :=
  reads_places hrest (fun _ _ => rfl) (reads_location rfl fun _ _ => rfl)
    (reads_location rfl fun _ _ => rfl)

theorem reads_fieldDefinition (hrest : EndsLine rest) :
    Reads locations ([' '] ++ "FIELD_DEFINITION".toList) [.fieldDefinition] rest :=
  reads_place hrest (fun _ _ => rfl) (reads_location rfl fun _ _ => rfl)

/-- What the lines of `federationDirectives` define. -/
def federationDirectiveDefs : List DirectiveDef := [
  ⟨"key", none, fieldSetArgument, [.object, .interface], true⟩,
  ⟨"extends", none, [], [.object, .interface], true⟩,
  ⟨"external", none, [], [.fieldDefinition], true⟩,
  ⟨"requires", none, fieldSetArgument, [.fieldDefinition], true⟩,
  ⟨"provides", none, fieldSetArgument, [.fieldDefinition], true⟩]

theorem reads_noArguments (h : Refuses arguments rest) : Reads optionalArguments [] [] rest :=
  h.optional.pure_bind

theorem line_onFields {line n : String} (arguments : List Char) {args : Entries InputField}
    (htext : line.toList = "directive".toList ++ ([' '] ++ "@".toList ++ (n.toList ++ (arguments ++
      ([] ++ ([' '] ++ "on".toList ++ ([' '] ++ "FIELD_DEFINITION".toList)))))))
    (hn : isName n = true)
    (hends : ∀ rest, EndsName (arguments ++
      ([] ++ ([' '] ++ "on".toList ++ ([' '] ++ "FIELD_DEFINITION".toList))) ++ rest))
    (hargs : ∀ rest, Reads optionalArguments arguments args
      ([] ++ ([' '] ++ "on".toList ++ ([' '] ++ "FIELD_DEFINITION".toList)) ++ rest)) :
    Line line (.directive ⟨n, none, args, [.fieldDefinition], true⟩) :=
  line_directive arguments [] htext hn hends hargs (fun _ => Refuses.optional fun _ _ => rfl)
    (fun _ => reads_fieldDefinition)

theorem line_federationDirective :
    ∀ d ∈ federationDirectives.zip federationDirectiveDefs, Line d.1.2 (.directive d.2) := by
  simp only [federationDirectives, federationDirectiveDefs, List.zip_cons_cons, List.zip_nil_right,
    List.forall_mem_cons, List.not_mem_nil, false_imp_iff, implies_true, and_true]
  refine ⟨?key, ?extended, ?external, ?requires, ?provides⟩
  case key =>
    exact line_directive fieldSetText ([' '] ++ "repeatable".toList) (by simp [fieldSetText])
      (by decide +kernel) (fun _ => rfl) (fun _ => reads_fieldSet _)
      (fun _ => (reads_word [' '] ignored_blank rfl).optional) (fun _ => reads_objectOrInterface)
  case extended =>
    exact line_directive [] [] (by simp) (by decide +kernel) (fun _ => rfl)
      (fun _ => reads_noArguments fun _ _ => rfl) (fun _ => Refuses.optional fun _ _ => rfl)
      (fun _ => reads_objectOrInterface)
  case external =>
    exact line_onFields [] (by simp) (by decide +kernel) (fun _ => rfl)
      fun _ => reads_noArguments fun _ _ => rfl
  case requires =>
    exact line_onFields fieldSetText (by simp [fieldSetText]) (by decide +kernel) (fun _ => rfl)
      fun _ => reads_fieldSet _
  case provides =>
    exact line_onFields fieldSetText (by simp [fieldSetText]) (by decide +kernel) (fun _ => rfl)
      fun _ => reads_fieldSet _

def serviceFields : Entries FieldDef :=
  [("sdl", ⟨"sdl", none, .option (.named "String"), [], [], none⟩)]

def serviceText : List Char :=
  [' '] ++ "\x7b".toList ++ (([' '] ++ "sdl".toList ++ (":".toList ++ ([' '] ++ "String".toList))) ++
    ([' '] ++ "\x7d".toList))

theorem reads_serviceFields (rest : List Char) :
    Reads (openBody fields) serviceText ([], some serviceFields) rest := by
  let typed := ":".toList ++ ([' '] ++ "String".toList)
  let close := [' '] ++ "\x7d".toList ++ rest
  have hnone : Refuses (lexeme readString) ([' '] ++ "sdl".toList ++ typed ++ close) :=
    fun _ _ => rfl
  have hname : Reads name ([' '] ++ "sdl".toList) "sdl" (typed ++ close) :=
    reads_name [' '] ignored_blank (by decide +kernel) rfl
  have hargs : Refuses arguments (typed ++ close) := fun _ _ => rfl
  have hcolon : Reads (word ":") ":".toList () ([' '] ++ "String".toList ++ close) :=
    reads_word_here rfl
  have htype : Reads (lexeme readTypeRef) ([' '] ++ "String".toList) (.option (.named "String"))
      close := reads_lexeme [' '] ignored_blank rfl rfl
  have huses : Refuses directives close := fun _ _ => rfl
  have hfield : Reads field ([' '] ++ "sdl".toList ++ typed)
      ⟨"sdl", none, .option (.named "String"), [], [], none⟩ close :=
    hnone.optional.nil_bind (hname.bind ((reads_noArguments hargs).nil_bind
      (hcolon.bind (htype.bind_nil huses.optional.pure_bind.pure_bind))))
  have hlast : Refuses field close := fun _ _ => rfl
  have hfields : Reads (many1 field) ([' '] ++ "sdl".toList ++ typed)
      [⟨"sdl", none, .option (.named "String"), [], [], none⟩] close :=
    hfield.bind_nil (ReadsEach.nil.many hlast).pure_bind
  have hopen : Reads (word "\x7b") ([' '] ++ "\x7b".toList) ()
      ([' '] ++ "sdl".toList ++ typed ++ ([' '] ++ "\x7d".toList) ++ rest) :=
    reads_word [' '] ignored_blank rfl
  have hclose : Reads (word "\x7d") ([' '] ++ "\x7d".toList) () rest :=
    reads_word [' '] ignored_blank rfl
  have hbraced : Reads (braced field) serviceText
      [⟨"sdl", none, .option (.named "String"), [], [], none⟩] rest :=
    hopen.bind (hfields.bind hclose.pure_bind)
  have hall : Reads fields serviceText serviceFields rest := hbraced.pure_bind
  have hno : Refuses directives (serviceText ++ rest) := fun _ _ => rfl
  exact hno.optional.pure_bind.nil_bind hall.optional.pure_bind

theorem line_service : Line "type _Service \x7b sdl: String \x7d"
    (.type ⟨"_Service", none, [], .object serviceFields []⟩) := by
  have htext : "type _Service \x7b sdl: String \x7d".toList = "type".toList ++
      ([' '] ++ "_Service".toList ++ serviceText) := by simp [serviceText]
  refine line_type (.inr (.inl rfl)) htext ?_
  intro gap rest hgap hrest
  have hname : Reads name ([' '] ++ "_Service".toList) "_Service" (serviceText ++ rest) :=
    reads_name [' '] ignored_blank (by decide +kernel) rfl
  have hinterfaces : Refuses interfaces (serviceText ++ rest) := fun _ _ => rfl
  have htype : Reads (objectType none) _ ⟨"_Service", none, [], .object serviceFields []⟩ rest :=
    (reads_word gap hgap.ignored rfl).bind (hname.bind
      (hinterfaces.optional.nil_bind (reads_serviceFields rest).pure_bind))
  refine .or_right ?_ (.or_left htype)
  rcases hgap with rfl | rfl <;> exact fun _ _ => rfl

/-- A line with its definition, unless what it defines is there. -/
def lineUnless (present : Bool) (line : String) (x : Definition) : List (String × Definition) :=
  if present then [] else [(line, x)]

def federationLines (r : TypeRegistry) : List (String × Definition) :=
  lineUnless (r.contains "_FieldSet") "scalar _FieldSet"
      (.type ⟨"_FieldSet", none, [], .scalar⟩) ++
    ((federationDirectives.zip federationDirectiveDefs).flatMap fun d =>
      lineUnless (r.directive? d.1.1).isSome d.1.2 (.directive d.2)) ++
    lineUnless (r.contains "_Any") "scalar _Any" (.type ⟨"_Any", none, [], .scalar⟩) ++
    lineUnless (r.contains "_Service") "type _Service \x7b sdl: String \x7d"
      (.type ⟨"_Service", none, [], .object serviceFields []⟩)

def entityLine : List String → List (String × Definition)
  | [] => []
  | m :: ms => [("union _Entity = " ++ String.intercalate " | " (m :: ms),
      .type ⟨"_Entity", none, [], .union (m :: ms)⟩)]

def queryText (r : TypeRegistry) (noMembers : Bool) : List Char :=
  ((if r.contains r.roots.query then "extend type " else "type ") ++ r.roots.query ++ " \x7b\n" ++
    "  _service: _Service!\n" ++
    (if noMembers then "" else "  _entities(representations: [_Any!]!): [_Entity]!" ++ "\n") ++
    "\x7d\n").toList

theorem toList_lineUnless (present : Bool) (line : String) (x : Definition) :
    (if present then "" else line ++ "\n").toList = written (lineUnless present line x) := by
  cases present <;> simp [lineUnless, written]

theorem toList_join_lines (p : String × String → Bool) {ds : List (String × String)}
    {xs : List DirectiveDef} (h : ds.length = xs.length) :
    (String.join (ds.map fun d => if p d then "" else d.2 ++ "\n")).toList =
      written ((ds.zip xs).flatMap fun d => lineUnless (p d.1) d.1.2 (.directive d.2)) := by
  induction ds generalizing xs with
  | nil => rfl
  | cons d ds ih =>
    cases xs with
    | nil => cases h
    | cons x xs =>
      rw [List.map_cons, String.join_cons, String.toList_append, ih (Nat.succ.inj h),
        toList_lineUnless (p d) d.2 (.directive x), List.zip_cons_cons, List.flatMap_cons,
        written_append]

theorem toList_entityLine (members : List String) :
    (if members.isEmpty then "" else
      ("union _Entity = " ++ String.intercalate " | " members) ++ "\n").toList =
      written (entityLine members) := by
  cases members with
  | nil => rfl
  | cons m ms => simp [entityLine, written]

theorem toList_federationSdl (r : TypeRegistry) (members : List String) :
    (federationSdl r members).toList =
      written (federationLines r ++ entityLine members) ++ queryText r members.isEmpty := by
  have hlength : federationDirectives.length = federationDirectiveDefs.length := rfl
  have hdirectives := toList_join_lines (fun d => (r.directive? d.1).isSome) hlength
  simp only [federationSdl, federationLines, queryText, String.toList_append, hdirectives,
    written_append, toList_entityLine, ← toList_lineUnless, List.append_assoc]

theorem begins_queryText (r : TypeRegistry) (noMembers : Bool) :
    ∃ c cs, queryText r noMembers = c :: cs ∧ isNameStart c = true := by
  unfold queryText
  split <;> simp only [String.toList_append] <;> exact ⟨_, _, rfl, rfl⟩

theorem line_of_mem_lineUnless {present : Bool} {line : String} {x : Definition}
    {l : String × Definition} (h : Line line x) (hl : l ∈ lineUnless present line x) :
    Line l.1 l.2 := by
  cases present with
  | true => exact absurd hl List.not_mem_nil
  | false =>
    rw [List.mem_singleton.mp hl]
    exact h

theorem line_federationLines (r : TypeRegistry) : ∀ l ∈ federationLines r, Line l.1 l.2 := by
  intro l hl
  have hfieldSet : Line ("scalar " ++ "_FieldSet") _ := line_scalar (by decide +kernel)
  have hany : Line ("scalar " ++ "_Any") _ := line_scalar (by decide +kernel)
  simp only [federationLines, List.mem_append, List.mem_flatMap] at hl
  rcases hl with ((hl | ⟨d, hd, hl⟩) | hl) | hl
  · exact line_of_mem_lineUnless hfieldSet hl
  · exact line_of_mem_lineUnless (line_federationDirective d hd) hl
  · exact line_of_mem_lineUnless hany hl
  · exact line_of_mem_lineUnless line_service hl

theorem line_entityLine (h : ∀ m ∈ members, isName m = true) :
    ∀ l ∈ entityLine members, Line l.1 l.2 := by
  cases members with
  | nil => exact fun l hl => absurd hl List.not_mem_nil
  | cons m ms =>
    rw [List.forall_mem_cons] at h
    intro l hl
    have hunion : Line ("union " ++ "_Entity" ++ " = " ++ String.intercalate " | " (m :: ms)) _ :=
      line_union (by decide +kernel) h.1 h.2
    have hkeyword : "union " ++ "_Entity" ++ " = " = "union _Entity = " := by decide +kernel
    rw [List.mem_singleton.mp hl]
    rwa [hkeyword] at hunion

theorem length_members (m : String) (ms : List String) :
    (String.intercalate " | " (m :: ms)).toList.length + 3 =
      ((m :: ms).map fun n => n.toList.length + 3).sum := by
  have hitem : ∀ n : String,
      ([' '] ++ "|".toList ++ ([' '] ++ n.toList)).length = n.toList.length + 3 := by simp
  rw [toList_members, joined, memberItems, List.length_append, List.flatMap_map,
    List.length_flatMap, List.map_cons, List.sum_cons]
  simp only [hitem]
  omega

theorem lengths_entityLine (hp : members.Perm others) :
    ((entityLine members).map fun l => l.1.toList.length) =
      (entityLine others).map fun l => l.1.toList.length := by
  cases members with
  | nil => rw [hp.nil_eq]
  | cons m ms =>
    cases others with
    | nil => exact absurd hp.eq_nil (List.cons_ne_nil m ms)
    | cons k ks =>
      have hm := length_members m ms
      have hk := length_members k ks
      have hsum := (hp.map fun n : String => n.toList.length + 3).sum_nat
      simp only [entityLine, List.map_cons, List.map_nil, String.toList_append, List.length_append]
      rw [show (String.intercalate " | " (m :: ms)).toList.length =
        (String.intercalate " | " (k :: ks)).toList.length by omega]

/-- The text is accepted for all orders of the entities or for none, and only the union of the
entities differs. -/
theorem parse_federationSdl_perm {f : Fragment} (hp : members.Perm others)
    (hn : ∀ m ∈ members, isName m = true)
    (h : Fragment.parse federationOrigin (federationSdl r members) = .ok f) :
    ∃ g, Fragment.parse federationOrigin (federationSdl r others) = .ok g ∧
      ∃ last, f.definitions = (federationLines r ++ entityLine members).map (·.2) ++ last ∧
        g.definitions = (federationLines r ++ entityLine others).map (·.2) ++ last := by
  have hlengths : ((federationLines r ++ entityLine members).map fun l => l.1.toList.length) =
      (federationLines r ++ entityLine others).map fun l => l.1.toList.length := by
    rw [List.map_append, List.map_append, lengths_entityLine hp]
  have hlines : ∀ ms : List String, (∀ m ∈ ms, isName m = true) →
      ∀ l ∈ federationLines r ++ entityLine ms, Line l.1 l.2 := fun ms hms =>
    List.forall_mem_append.mpr ⟨line_federationLines r, line_entityLine hms⟩
  by_cases hempty : federationLines r ++ entityLine members = []
  · have hsame : members = others := by
      cases members with
      | nil => exact hp.nil_eq
      | cons m ms => exact absurd (List.append_eq_nil_iff.mp hempty).2 (List.cons_ne_nil _ _)
    exact ⟨f, hsame ▸ h, f.definitions, by rw [hempty]; rfl, by rw [← hsame, hempty]; rfl⟩
  · have hothers : federationLines r ++ entityLine others ≠ [] := by
      intro hnil
      rw [hnil, List.map_nil, List.map_eq_nil_iff] at hlengths
      exact hempty hlengths
    obtain ⟨last, hlast⟩ := exists_document_written _ (begins_queryText r members.isEmpty)
    have hread := hlast _ hempty (hlines members hn) rfl
    have hread' := hlast _ hothers (hlines others fun m hm => hn m (hp.mem_iff.mpr hm))
      hlengths.symm
    rw [← toList_federationSdl] at hread
    rw [hp.isEmpty_eq, ← toList_federationSdl] at hread'
    obtain ⟨-, -, c, hf, hfaults⟩ := Fragment.parse_eq_ok_iff.mp h
    rw [hread, Option.map_eq_some_iff] at hf
    obtain ⟨⟨ds, e⟩, rfl, heq⟩ := hf
    rw [Prod.mk.injEq] at heq
    obtain ⟨hf, rfl⟩ := heq
    rw [Option.map_some] at hread'
    let g : Fragment := ⟨federationOrigin, federationSdl r others,
      (federationLines r ++ entityLine others).map (·.2) ++ ds⟩
    have hg : Fragment.parse federationOrigin (federationSdl r others) = .ok g :=
      Fragment.parse_eq_ok_iff.mpr ⟨rfl, rfl, e, hread', hfaults⟩
    exact ⟨g, hg, ds, hf.symm, rfl⟩

end SchemaAssembly
