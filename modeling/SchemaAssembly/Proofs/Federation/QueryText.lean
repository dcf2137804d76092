import SchemaAssembly.Proofs.Federation.SdlText

/-!
The whole text of the federation definitions, read back. Its last definition, of the query type or
of new fields of it, follows the lines; so the definitions that federation adds are known.
-/

set_option autoImplicit false

namespace SchemaAssembly

open Sdl Sdl.Reader

variable {rest : List Char} {r : TypeRegistry} {members : List String}

theorem reads_bareField {nameText argsText typeText : List Char} {n : String} {t : TypeRef}
    {args : Entries InputField}
    (hnone : Refuses (lexeme readString) (nameText ++ (argsText ++ (":".toList ++ typeText)) ++ rest))
    (hname : Reads name nameText n (argsText ++ (":".toList ++ typeText) ++ rest))
    (hargs : Reads optionalArguments argsText args (":".toList ++ typeText ++ rest))
    (hcolon : skipIgnored (":".toList ++ (typeText ++ rest)) = ":".toList ++ (typeText ++ rest))
    (htype : Reads (lexeme readTypeRef) typeText t rest) (huses : Refuses directives rest) :
    Reads field (nameText ++ (argsText ++ (":".toList ++ typeText))) ⟨n, none, t, args, [], none⟩
      rest :=
  hnone.optional.nil_bind (hname.bind (hargs.bind ((reads_word_here hcolon).bind
    (htype.bind_nil huses.optional.pure_bind.pure_bind))))

def queryServiceField : FieldDef := ⟨"_service", none, .named "_Service", [], [], none⟩

def queryEntitiesField : FieldDef :=
  ⟨"_entities", none, .list (.option (.named "_Entity")),
    [("representations", ⟨"representations", none, .list (.named "_Any"), none, []⟩)], [], none⟩

def newLine : List Char := ['\n', ' ', ' ']

theorem ignored_newLine : ∀ b ∈ newLine, isIgnored b = true := List.all_eq_true.mp rfl

def queryServiceText : List Char :=
  newLine ++ "_service".toList ++ ([] ++ (":".toList ++ ([' '] ++ "_Service!".toList)))

theorem reads_queryServiceField (hrest : rest = "\n\x7d\n".toList ∨
    ∃ more, rest = newLine ++ ('_' :: more)) :
    Reads field queryServiceText queryServiceField rest := by
  refine reads_bareField ?_ ?_ ?_ rfl ?_ ?_
  · exact fun _ _ => rfl
  · exact reads_name newLine ignored_newLine (by decide +kernel) rfl
  · exact reads_noArguments fun _ _ => rfl
  · refine reads_lexeme [' '] ignored_blank rfl ?_
    rcases hrest with rfl | ⟨more, rfl⟩ <;> rfl
  · rcases hrest with rfl | ⟨more, rfl⟩ <;> exact fun _ _ => rfl

def representationsText : List Char :=
  "(".toList ++ ("representations".toList ++ (":".toList ++ ([' '] ++ "[_Any!]!".toList)) ++
    ")".toList)

theorem reads_representations (rest : List Char) :
    Reads optionalArguments representationsText queryEntitiesField.arguments rest := by
  let typed := ":".toList ++ ([' '] ++ "[_Any!]!".toList)
  let close := ")".toList ++ rest
  have hnone : Refuses (lexeme readString) ("representations".toList ++ typed ++ close) :=
    fun _ _ => rfl
  have hname : Reads name "representations".toList "representations" (typed ++ close) :=
    reads_name_here (by decide +kernel) rfl
  have hcolon : Reads (word ":") ":".toList () ([' '] ++ "[_Any!]!".toList ++ close) :=
    reads_word_here rfl
  have htype : Reads (lexeme readTypeRef) ([' '] ++ "[_Any!]!".toList) (.list (.named "_Any"))
      close := reads_lexeme [' '] ignored_blank rfl rfl
  have hdefault : Refuses (do word "="; constant) close := fun _ _ => rfl
  have huses : Refuses directives close := fun _ _ => rfl
  have hfield : Reads inputField ("representations".toList ++ typed)
      ⟨"representations", none, .list (.named "_Any"), none, []⟩ close :=
    hnone.optional.nil_bind (hname.bind (hcolon.bind (htype.bind_nil (hdefault.optional.bind_nil
      huses.optional.pure_bind.pure_bind))))
  have hlast : Refuses inputField close := fun _ _ => rfl
  have hfields : Reads (many1 inputField) ("representations".toList ++ typed)
      [⟨"representations", none, .list (.named "_Any"), none, []⟩] close :=
    hfield.bind_nil (ReadsEach.nil.many hlast).pure_bind
  have hopen : Reads (word "(") "(".toList ()
      ("representations".toList ++ typed ++ ")".toList ++ rest) := reads_word_here rfl
  have hclose : Reads (word ")") ")".toList () rest := reads_word_here rfl
  have hargs : Reads arguments representationsText queryEntitiesField.arguments rest :=
    hopen.bind (hfields.bind hclose.pure_bind)
  exact hargs.optional.pure_bind

def queryEntitiesText : List Char :=
  newLine ++ "_entities".toList ++
    (representationsText ++ (":".toList ++ ([' '] ++ "[_Entity]!".toList)))

theorem reads_queryEntitiesField :
    Reads field queryEntitiesText queryEntitiesField "\n\x7d\n".toList := by
  refine reads_bareField ?_ ?_ (reads_representations _) rfl ?_ ?_
  · exact fun _ _ => rfl
  · exact reads_name newLine ignored_newLine (by decide +kernel) rfl
  · exact reads_lexeme [' '] ignored_blank rfl rfl
  · exact fun _ _ => rfl

def queryFields (noMembers : Bool) : List FieldDef :=
  queryServiceField :: if noMembers then [] else [queryEntitiesField]

def queryFieldsText (noMembers : Bool) : List Char :=
  [' '] ++ "\x7b".toList ++ ((queryServiceText ++ if noMembers then [] else queryEntitiesText) ++
    (['\n'] ++ "\x7d".toList))

theorem reads_queryFields (noMembers : Bool) :
    Reads fields (queryFieldsText noMembers) (byName FieldDef.name (queryFields noMembers))
      ['\n'] := by
  have hlast : Refuses field "\n\x7d\n".toList := fun _ _ => rfl
  have hclose : Reads (word "\x7d") (['\n'] ++ "\x7d".toList) () ['\n'] :=
    reads_word ['\n'] (List.forall_mem_singleton.mpr rfl) rfl
  have hopen : ∀ more, Reads (word "\x7b") ([' '] ++ "\x7b".toList) () more := fun more =>
    reads_word [' '] ignored_blank rfl
  have hfields : Reads (many1 field)
      (queryServiceText ++ if noMembers then [] else queryEntitiesText) (queryFields noMembers)
      "\n\x7d\n".toList := by
    cases noMembers with
    | true =>
      have hfirst : Reads field queryServiceText queryServiceField "\n\x7d\n".toList :=
        reads_queryServiceField (.inl rfl)
      exact hfirst.bind (ReadsEach.nil.many hlast).pure_bind
    | false =>
      have hfirst : Reads field queryServiceText queryServiceField
          (queryEntitiesText ++ "\n\x7d\n".toList) := by
        refine reads_queryServiceField (.inr ⟨"entities".toList ++
          (representationsText ++ (":".toList ++ ([' '] ++ "[_Entity]!".toList))) ++
            "\n\x7d\n".toList, ?_⟩)
        simp [queryEntitiesText]
      have hmore : ReadsEach field "\n\x7d\n".toList [(queryEntitiesText, queryEntitiesField)] :=
        ReadsEach.nil.cons (by simp [queryEntitiesText]) reads_queryEntitiesField
      have hmany := hmore.many hlast
      rw [joined, List.flatMap_singleton] at hmany
      exact hfirst.bind hmany.pure_bind
  have hbraced : Reads (braced field) (queryFieldsText noMembers) (queryFields noMembers) ['\n'] :=
    (hopen _).bind (hfields.bind hclose.pure_bind)
  exact hbraced.pure_bind

/-- The query type with the fields that federation adds. -/
def queryType (n : String) (noMembers : Bool) : TypeDef :=
  ⟨n, none, [], .object (byName FieldDef.name (queryFields noMembers)) []⟩

def queryDefinition (r : TypeRegistry) (noMembers : Bool) : Definition :=
  if r.contains r.roots.query then .extension (queryType r.roots.query noMembers)
  else .type (queryType r.roots.query noMembers)

def namedFields (n : String) (noMembers : Bool) : List Char :=
  [' '] ++ n.toList ++ queryFieldsText noMembers

variable {n : String} {gap : List Char} {noMembers : Bool}

theorem reads_queryName (hn : isName n = true) (noMembers : Bool) :
    Reads name ([' '] ++ n.toList) n (queryFieldsText noMembers ++ ['\n']) :=
  reads_name [' '] ignored_blank hn rfl

theorem refuses_interfaces (noMembers : Bool) :
    Refuses interfaces (queryFieldsText noMembers ++ ['\n']) := fun _ _ => rfl

theorem refuses_directives (noMembers : Bool) :
    Refuses directives (queryFieldsText noMembers ++ ['\n']) := fun _ _ => rfl

theorem reads_newQuery (hn : isName n = true) (hgap : IsGap gap) :
    Reads definition (gap ++ "type".toList ++ namedFields n noMembers)
      (.type (queryType n noMembers)) ['\n'] := by
  have hbody : Reads (openBody fields) (queryFieldsText noMembers)
      ([], some (byName FieldDef.name (queryFields noMembers))) ['\n'] :=
    (refuses_directives noMembers).optional.pure_bind.nil_bind
      (reads_queryFields noMembers).optional.pure_bind
  have htype : Reads (objectType none) (gap ++ "type".toList ++ namedFields n noMembers)
      (queryType n noMembers) ['\n'] :=
    (reads_word gap hgap.ignored rfl).bind ((reads_queryName hn noMembers).bind
      ((refuses_interfaces noMembers).optional.nil_bind hbody.pure_bind))
  have hkeyword : Reads keyworded (gap ++ "type".toList ++ namedFields n noMembers)
      (queryType n noMembers) ['\n'] := by
    refine .or_right ?_ (.or_left htype)
    rcases hgap with rfl | rfl <;> exact fun _ _ => rfl
  have hdescription : Refuses (lexeme readString)
      (gap ++ "type".toList ++ namedFields n noMembers ++ ['\n']) := by
    rcases hgap with rfl | rfl <;> exact fun _ _ => rfl
  have hdefinition : Reads typeDefinition (gap ++ "type".toList ++ namedFields n noMembers)
      (queryType n noMembers) ['\n'] := hdescription.optional.nil_bind hkeyword
  refine .or_right ?_ (.or_right ?_ (.or_left hdefinition.pure_bind))
  all_goals rcases hgap with rfl | rfl <;> exact fun _ _ => rfl

theorem reads_moreQuery (hn : isName n = true) (hgap : IsGap gap) :
    Reads definition (gap ++ "extend".toList ++ ([' '] ++ "type".toList ++ namedFields n noMembers))
      (.extension (queryType n noMembers)) ['\n'] := by
  have hbody : Reads (someBody fields) (queryFieldsText noMembers)
      ([], some (byName FieldDef.name (queryFields noMembers))) ['\n'] :=
    .or_left ((refuses_directives noMembers).optional.pure_bind.nil_bind
      (reads_queryFields noMembers).pure_bind)
  have htype : Reads objectExtension ([' '] ++ "type".toList ++ namedFields n noMembers)
      (queryType n noMembers) ['\n'] :=
    (reads_word [' '] ignored_blank rfl).bind ((reads_queryName hn noMembers).bind
      (.or_left ((refuses_interfaces noMembers).optional.nil_bind hbody.pure_bind)))
  have hextension : Reads typeExtension
      (gap ++ "extend".toList ++ ([' '] ++ "type".toList ++ namedFields n noMembers))
      (queryType n noMembers) ['\n'] :=
    (reads_word gap hgap.ignored rfl).bind (.or_right (fun _ _ => rfl) (.or_left htype))
  refine .or_right ?_ (.or_right ?_ (.or_right ?_ (.or_left hextension.pure_bind)))
  all_goals rcases hgap with rfl | rfl <;> exact fun _ _ => rfl

def queryBody (r : TypeRegistry) (noMembers : Bool) : List Char :=
  (if r.contains r.roots.query then "extend".toList ++ ([' '] ++ "type".toList) else "type".toList) ++
    namedFields r.roots.query noMembers

theorem queryText_eq (r : TypeRegistry) (noMembers : Bool) :
    queryText r noMembers = queryBody r noMembers ++ ['\n'] := by
  unfold queryText queryBody
  cases r.contains r.roots.query <;> cases noMembers <;>
    simp [namedFields, queryFieldsText, queryServiceText, queryEntitiesText, newLine,
      representationsText]

theorem reads_queryBody (hq : isName r.roots.query = true) (hgap : IsGap gap) :
    Reads definition (gap ++ queryBody r noMembers) (queryDefinition r noMembers) ['\n'] := by
  unfold queryBody queryDefinition
  cases r.contains r.roots.query with
  | true =>
    have h : Reads definition _ (.extension (queryType r.roots.query noMembers)) ['\n'] :=
      reads_moreQuery hq hgap
    simpa only [if_true, List.append_assoc] using h
  | false =>
    have h : Reads definition _ (.type (queryType r.roots.query noMembers)) ['\n'] :=
      reads_newQuery hq hgap
    simpa only [Bool.false_eq_true, if_false, List.append_assoc] using h

/-- The definitions that federation adds to a registry. -/
def federationDefinitions (r : TypeRegistry) (members : List String) : List Definition :=
  (federationLines r ++ entityLine members).map (·.2) ++ [queryDefinition r members.isEmpty]

theorem document_written {lines : List (String × Definition)} {body : List Char} {x : Definition}
    (hlines : ∀ l ∈ lines, Line l.1 l.2) (hbegins : ∃ c cs, body = c :: cs ∧ isNameStart c = true)
    (hbody : ∀ gap, IsGap gap → Reads definition (gap ++ body) x ['\n']) :
    ∃ c : Cursor, (document ⟨written lines ++ (body ++ ['\n']), 0, []⟩).result =
      some (lines.map (·.2) ++ [x], c) ∧ c.faults = [] := by
  have hend : Refuses definition ['\n'] := fun _ _ => rfl
  cases lines with
  | nil =>
    have hone : ReadsEach definition ['\n'] [(body, x)] := by
      refine .cons ?_ (hbody [] (.inl rfl)) .nil
      obtain ⟨c, cs, rfl, -⟩ := hbegins
      exact List.cons_ne_nil c cs
    have hdocument := document_of_readsEach hone (List.cons_ne_nil _ _) rfl hend
    rwa [joined, List.flatMap_singleton] at hdocument
  | cons l ls =>
    have htail : ∃ c cs, body ++ ['\n'] = c :: cs ∧ isNameStart c = true := by
      obtain ⟨c, cs, rfl, hc⟩ := hbegins
      exact ⟨c, cs ++ ['\n'], rfl, hc⟩
    have hlast : ReadsEach definition ['\n'] [('\n' :: body, x)] :=
      .cons (List.cons_ne_nil _ _) (hbody ['\n'] (.inr rfl)) .nil
    have hfirst : ReadsEach definition _ (lineItems [] (l :: ls)) :=
      readsEach_lineItems hlines htail (.inl rfl)
    have hjoined : joined [('\n' :: body, x)] ++ ['\n'] = '\n' :: (body ++ ['\n']) := by
      simp [joined]
    rw [← hjoined] at hfirst
    have hitems : lineItems [] (l :: ls) ≠ [] := List.cons_ne_nil _ _
    obtain ⟨c, hread, hfaults⟩ := document_of_readsEach (hfirst.append hlast)
      (List.append_ne_nil_of_left_ne_nil hitems _) rfl hend
    have htext : joined (lineItems [] (l :: ls) ++ [('\n' :: body, x)]) ++ ['\n'] =
        written (l :: ls) ++ (body ++ ['\n']) := by
      have hitem : joined (lineItems [] (l :: ls)) =
          l.1.toList ++ joined (lineItems ['\n'] ls) := rfl
      rw [joined_append, List.append_assoc, hjoined, hitem, List.append_assoc, joined_lineItems]
      simp [written]
    rw [htext, List.map_append, values_lineItems] at hread
    exact ⟨c, hread, hfaults⟩

/-- The text gives its lines' definitions and that of the query type. -/
theorem parse_federationSdl (hq : isName r.roots.query = true)
    (hmembers : ∀ m ∈ members, isName m = true) :
    Fragment.parse federationOrigin (federationSdl r members) =
      .ok ⟨federationOrigin, federationSdl r members, federationDefinitions r members⟩ := by
  have hlines : ∀ l ∈ federationLines r ++ entityLine members, Line l.1 l.2 :=
    List.forall_mem_append.mpr ⟨line_federationLines r, line_entityLine hmembers⟩
  have hbegins : ∃ c cs, queryBody r members.isEmpty = c :: cs ∧ isNameStart c = true := by
    unfold queryBody
    split <;> exact ⟨_, _, rfl, rfl⟩
  obtain ⟨c, hread, hfaults⟩ := document_written hlines hbegins fun _ hgap =>
    reads_queryBody hq hgap
  rw [← queryText_eq, ← toList_federationSdl] at hread
  exact Fragment.parse_eq_ok_iff.mpr ⟨rfl, rfl, c, hread, hfaults⟩

end SchemaAssembly
