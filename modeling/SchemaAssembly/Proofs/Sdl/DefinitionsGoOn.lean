import SchemaAssembly.Proofs.Sdl.PartsGoOn

/-!
Definitions and further lines. A definition whose last parts may be absent is taken again when the
next text begins with none of them, and so it is when another definition is next.
-/

set_option autoImplicit false

namespace SchemaAssembly

namespace Sdl

open Reader

variable {α β : Type} {next text : List Char} {after before stop : List Char → Prop} {c : Char}

def readOneOf : List (String × α) → List Char → Option (α × List Char)
  | [], _ => none
  | (w, a) :: rest, cs =>
    match readWord w.toList cs with
    | some (_, tail) => some (a, tail)
    | none => readOneOf rest cs

theorem result_words (ws : List (String × α)) (c : Cursor) :
    (firstOf (ws.map fun x => (do word x.1; return x.2 : Reader α)) c).result =
      (lexeme (readOneOf ws) c).result := by
  induction ws with
  | nil =>
    rw [result_lexeme]
    rfl
  | cons x rest ih =>
    rw [List.map_cons, firstOf, result_or, ih, result_bind, word, result_lexeme, result_lexeme,
      result_lexeme]
    cases hread : readWord x.1.toList (skipIgnored c.rest) with
    | none => simp [readOneOf, hread]
    | some r =>
      simp only [readOneOf, hread]
      rfl

theorem settled_readOneOf {ws : List (String × α)}
    (hws : ∀ x ∈ ws, x.1.toList ≠ [] ∧ IsPlain x.1.toList ∧ '\n' ∉ x.1.toList) :
    Settled (readOneOf ws) := by
  refine settled_of_plain fun {text a rest next} h hnext => ?_
  induction ws with
  | nil => cases h
  | cons x more ih =>
    obtain ⟨⟨hne, hplain, hline⟩, hmore⟩ := List.forall_mem_cons.mp hws
    rw [readOneOf] at h ⊢
    cases hread : readWord x.1.toList text with
    | none =>
      rw [hread] at h
      rw [readWord_next_eq_none hline hnext hread]
      exact ih hmore h
    | some r =>
      rw [hread] at h
      cases h
      have htext := readWord_eq_some_iff.mp hread
      have hsame : readWord x.1.toList (text ++ next) = some ((), r.2 ++ next) := by
        rw [readWord_eq_some_iff, htext, List.append_assoc]
      rw [hsame]
      exact ⟨⟨_, htext, hne, hplain⟩, rfl⟩

theorem takesOn_words {p : Reader α} (ws : List (String × α)) (hnext : IsNext next)
    (hp : p = firstOf (ws.map fun x => (do word x.1; return x.2 : Reader α)))
    (hws : ∀ x ∈ ws, x.1.toList ≠ [] ∧ IsPlain x.1.toList ∧ '\n' ∉ x.1.toList) :
    TakesOn next p p (fun _ => True) (Begins (readOneOf ws)) := by
  have hlexeme := takesOn_lexeme (settled_readOneOf hws) hnext
  have hresult : ∀ c, (p c).result = (lexeme (readOneOf ws) c).result := by
    intro c
    rw [hp, result_words]
  refine ⟨hlexeme.toGoesOn.congr (fun c a d h => ?_) (fun h _ => ?_) (fun h offset faults => ?_),
    fun c a d h => ?_⟩
  · exact hlexeme.advances (hresult c ▸ h)
  · exact hresult _ ▸ h
  · rw [hresult]
    exact h offset faults
  · exact hlexeme.takes (hresult c ▸ h)

theorem takesOn_location (hnext : IsNext next) :
    TakesOn next location location (fun _ => True) (Begins (readOneOf locationWords)) :=
  takesOn_words locationWords hnext rfl (by decide)

def operationWords : List (String × Operation) :=
  [("query", .query), ("mutation", .mutation), ("subscription", .subscription)]

theorem takesOn_operation (hnext : IsNext next) :
    TakesOn next operation operation (fun _ => True) (Begins (readOneOf operationWords)) :=
  takesOn_words operationWords hnext rfl (by decide)

theorem exists_at_of_oneOf {ws : List (String × α)} (h : Begins (readOneOf ws) text) :
    ∃ x ∈ ws, At x.1 text := by
  induction ws with
  | nil => exact absurd rfl h
  | cons x more ih =>
    by_cases hx : At x.1 text
    · exact ⟨x, List.mem_cons_self, hx⟩
    · obtain ⟨y, hy, hat⟩ := ih fun hnone => h (by
        rw [readOneOf, Decidable.not_not.mp hx]
        exact hnone)
      exact ⟨y, List.mem_cons_of_mem _ hy, hat⟩

theorem goesOn_locations (hnext : IsNext next) :
    GoesOn next locations locations (fun t => ¬ At "|" t) (fun _ => True) := by
  have hsign : ∀ x ∈ locationWords, x.1.toList.isPrefixOf "|".toList = false ∧
      "|".toList.isPrefixOf x.1.toList = false := by decide
  refine (goesOn_separatedBy hnext (by decide) (takesOn_location hnext) fun t h => ?_).mono
    (fun _ h => h) fun _ _ => trivial
  obtain ⟨x, hx, hat⟩ := exists_at_of_oneOf h
  exact hat.not_at (hsign x hx).1 (hsign x hx).2

/-- The text begins with a description, or with what may follow one. -/
def Described (start : List Char → Prop) (text : List Char) : Prop :=
  (headOf text = some '"' ∨ start text) ∧ Splits description start text

theorem takesOn_directiveDefinition (hnext : IsNext next) :
    TakesOn next directiveDefinition directiveDefinition (fun t => ¬ At "|" t)
      (Described (At "directive")) := by
  have hon : ∀ f : List DirectiveLocation → DirectiveDef, TakesOn next
      (do word "on"; let ls ← locations; return f ls)
      (do word "on"; let ls ← locations; return f ls)
      (fun t => ¬ At "|" t) (At "on") := fun f =>
    takesOn_word_bind (by decide) hnext fun _ =>
      (goesOn_locations hnext).map fun ls => f ls
  have hrepeatable := (takesOn_lexeme (settled_readWord (w := "repeatable".toList) (by decide)
    (by decide)) hnext).optional (fun _ _ => trivial) fun t (h : At "on" t) =>
      refuses_word (w := "repeatable") (h.not_at rfl rfl)
  have hargs := goesOn_optionalArguments hnext
    fun t (h : At "repeatable" t ∨ At "on" t) => h.elim (·.not_at rfl rfl) (·.not_at rfl rfl)
  exact takesOn_described_splits hnext (fun d => takesOn_word_bind (by decide) hnext fun _ =>
    (takesOn_word_bind (by decide) hnext fun _ => (takesOn_lexeme_bind settled_readName hnext
      fun n => hargs.then fun args =>
        hrepeatable.then fun _ => (hon _).toGoesOn).toGoesOn).toGoesOn) fun t h => by
          rw [h.headOf rfl]
          decide

def EndsDefinition (text : List Char) : Prop := Avoids openers text ∧ ¬ At "implements" text

theorem EndsDefinition.not_at {sign : String} (h : EndsDefinition text)
    (hsign : sign.toList.head? = some c) (hc : c ∈ openers) : ¬ At sign text :=
  not_at_of_avoids h.1 hsign hc

/-- A part that comes last in a definition if it is there, told apart by its sign. -/
structure IsBody (next : List Char) (body : Reader α) (sign : String) : Prop where
  takesOn : TakesOn next body body EndsDefinition (At sign)
  refuses : ∀ {t}, ¬ At sign t → Refuses body t
  head : sign.toList.head? = some '\x7b' ∨ sign.toList.head? = some '='

variable {body : Reader α} {sign : String}

theorem IsBody.avoids (h : IsBody next body sign) (hat : At sign text) :
    Avoids ['(', '@', '&'] text ∧ ¬ At "implements" text := by
  rcases h.head with hhead | hhead
  all_goals
    refine ⟨avoids_of_headOf (hat.headOf hhead) (by decide), fun himplements => ?_⟩
    cases (hat.headOf hhead).symm.trans (himplements.headOf rfl)

theorem IsBody.refuses_end (h : IsBody next body sign) (hend : EndsDefinition text) :
    Refuses body text := by
  refine h.refuses ?_
  rcases h.head with hhead | hhead <;> exact hend.not_at hhead (by decide)

theorem goesOn_openBody (hnext : IsNext next) (h : IsBody next body sign) :
    GoesOn next (openBody body) (openBody body) EndsDefinition
      (fun t => At "@" t ∨ At sign t ∨ EndsDefinition t) := by
  have hbody := h.takesOn.optional (fun _ h => h) fun t hend => h.refuses_end hend
  have hdirectives := goesOn_optionalDirectives hnext fun t (ht : At sign t ∨ EndsDefinition t) =>
    ht.elim (fun hat => (h.avoids hat).1.subset (by decide)) fun hend => hend.1.subset (by decide)
  exact hdirectives.then fun uses => hbody.map fun b => (uses, b)

theorem IsBody.refuses_someBody (h : IsBody next body sign) (hend : EndsDefinition text) :
    Refuses (someBody body) text := by
  have hno : Refuses directives text := (refuses_word (hend.not_at rfl (by decide))).bind.bind
  intro offset faults
  have hnone := (hno.optional.pure_bind (g := fun uses => uses.getD [])) offset faults
  rw [List.nil_append] at hnone
  rw [someBody, result_or, result_bind, optionalDirectives, hnone, Option.bind_some, result_bind,
    h.refuses_end hend, Option.bind_none, Option.none_or]
  exact hno.bind offset faults

/-- What is read before a value is put together. -/
theorem reads_of_pure {p : Reader α} {f : α → β} {b : β} {rest : List Char}
    (h : Reads (do return f (← p)) text b rest) (offset : Nat) (faults : List (Nat × FragmentFault)) :
    ∃ a, (p ⟨text ++ rest, offset, faults⟩).result =
      some (a, ⟨rest, offset + text.length, faults⟩) := by
  have hr := h offset faults
  rw [result_bind, Option.bind_eq_some_iff] at hr
  obtain ⟨⟨a, m⟩, ha, heq⟩ := hr
  cases heq
  exact ⟨a, ha⟩

theorem goesOn_someBody (hnext : IsNext next) (h : IsBody next body sign) :
    GoesOn next (someBody body) (someBody body) EndsDefinition
      (fun t => At "@" t ∨ At sign t) := by
  have hdirectives := goesOn_optionalDirectives hnext fun t (hat : At sign t) =>
    (h.avoids hat).1.subset (by decide)
  have hwith := hdirectives.then fun uses => (h.takesOn.map fun b => (uses, some b)).toGoesOn
  have hwithout := (takesOn_directives hnext fun t (hend : EndsDefinition t) =>
    hend.1.subset (by decide)).map fun uses => (uses, (none : Option α))
  refine (hwith.or hwithout.toGoesOn ?_).mono (fun _ h => h) fun t h => h.elim id .inl
  intro text r rest hreads hend _ offset faults
  -- Without a body, the directives are the same, and no body is there.
  obtain ⟨uses, huses⟩ := reads_of_pure hreads offset faults
  rw [result_bind, optionalDirectives, result_bind, result_optional, huses]
  simp only [Option.bind_some, result_pure, result_bind, h.refuses_end hend _ _, Option.bind_none]

theorem isBody_fields (hnext : IsNext next) : IsBody next fields "\x7b" where
  takesOn := (takesOn_fields hnext).mono (fun _ _ => trivial) fun _ h => h
  refuses h := (refuses_word h).bind.bind
  head := .inl rfl

theorem isBody_inputFields (hnext : IsNext next) : IsBody next inputFields "\x7b" where
  takesOn := (takesOn_inputFields hnext).mono (fun _ _ => trivial) fun _ h => h
  refuses h := (refuses_word h).bind.bind
  head := .inl rfl

theorem isBody_enumValues (hnext : IsNext next) : IsBody next enumValues "\x7b" where
  takesOn := (takesOn_enumValues hnext).mono (fun _ _ => trivial) fun _ h => h
  refuses h := (refuses_word h).bind
  head := .inl rfl

theorem goesOn_joinedNames (hnext : IsNext next)
    (hsign : sign.toList ≠ [] ∧ IsPlain sign.toList) (hhead : sign.toList.head? = some c)
    (hc : isNameStart c = false) :
    GoesOn next (joinedNames sign) (joinedNames sign) (fun t => ¬ At sign t) (fun _ => True) := by
  refine (goesOn_separatedBy hnext hsign (takesOn_lexeme settled_readName hnext)
    fun t h hat => ?_).mono (fun _ h => h) fun _ _ => trivial
  exact not_begins_name (hat.headOf hhead) hc h

theorem isBody_members (hnext : IsNext next) : IsBody next members "=" where
  takesOn := takesOn_word_bind (by decide) hnext fun _ =>
    (goesOn_joinedNames hnext (by decide) rfl rfl).mono
      (fun t (h : EndsDefinition t) => h.not_at rfl (by decide)) fun _ h => h
  refuses h := (refuses_word h).bind
  head := .inr rfl

theorem takesOn_interfaces (hnext : IsNext next) :
    TakesOn next interfaces interfaces (Avoids ['&']) (At "implements") :=
  takesOn_word_bind (by decide) hnext fun _ => (goesOn_joinedNames hnext (by decide) rfl rfl).mono
    (fun _ h => not_at_of_avoids h rfl (by decide)) fun _ h => h

theorem goesOn_optionalInterfaces (hnext : IsNext next)
    (hstop : ∀ t, stop t → Avoids ['&'] t ∧ ¬ At "implements" t) :
    GoesOn next (optional interfaces) (optional interfaces) stop
      (fun t => At "implements" t ∨ stop t) :=
  (takesOn_interfaces hnext).optional (fun t h => (hstop t h).1)
    fun t h => (refuses_word (hstop t h).2).bind

theorem takesOn_keyworded {w : String} {f : String → Reader α} (hnext : IsNext next)
    (hw : w.toList ≠ [] ∧ IsPlain w.toList)
    (hf : ∀ n, GoesOn next (f n) (f n) EndsDefinition before) :
    TakesOn next (do word w; let n ← name; f n) (do word w; let n ← name; f n) EndsDefinition
      (At w) :=
  takesOn_word_bind hw hnext fun _ => (takesOn_lexeme_bind settled_readName hnext hf).toGoesOn

theorem IsBody.not_joined (h : IsBody next body sign)
    (hstart : At "@" text ∨ At sign text ∨ EndsDefinition text) :
    Avoids ['&'] text ∧ ¬ At "implements" text := by
  rcases hstart with hat | hat | hend
  · exact ⟨avoids_of_headOf (hat.headOf rfl) (by decide), hat.not_at rfl rfl⟩
  · exact ⟨(h.avoids hat).1.subset (by decide), (h.avoids hat).2⟩
  · exact ⟨hend.1.subset (by decide), hend.2⟩

theorem takesOn_scalarType (hnext : IsNext next) (d : Option String) :
    TakesOn next (scalarType d) (scalarType d) EndsDefinition (At "scalar") :=
  takesOn_keyworded hnext (by decide) fun n => (goesOn_optionalDirectives hnext
    fun t (h : EndsDefinition t) => h.1.subset (by decide)).map fun uses =>
      (⟨n, d, uses, .scalar⟩ : TypeDef)

theorem takesOn_objectType (hnext : IsNext next) (d : Option String) :
    TakesOn next (objectType d) (objectType d) EndsDefinition (At "type") :=
  takesOn_keyworded hnext (by decide) fun n => (goesOn_optionalInterfaces hnext
    fun t h => (isBody_fields hnext).not_joined h).then fun is =>
      (goesOn_openBody hnext (isBody_fields hnext)).map fun r =>
        (⟨n, d, r.1, .object (r.2.getD []) (is.getD [])⟩ : TypeDef)

theorem takesOn_interfaceType (hnext : IsNext next) (d : Option String) :
    TakesOn next (interfaceType d) (interfaceType d) EndsDefinition (At "interface") :=
  takesOn_keyworded hnext (by decide) fun n => (goesOn_optionalInterfaces hnext
    fun t h => (isBody_fields hnext).not_joined h).then fun is =>
      (goesOn_openBody hnext (isBody_fields hnext)).map fun r =>
        (⟨n, d, r.1, .interface (r.2.getD []) (is.getD [])⟩ : TypeDef)

theorem takesOn_unionType (hnext : IsNext next) (d : Option String) :
    TakesOn next (unionType d) (unionType d) EndsDefinition (At "union") :=
  takesOn_keyworded hnext (by decide) fun n =>
    (goesOn_openBody hnext (isBody_members hnext)).map fun r =>
      (⟨n, d, r.1, .union (r.2.getD [])⟩ : TypeDef)

theorem takesOn_enumType (hnext : IsNext next) (d : Option String) :
    TakesOn next (enumType d) (enumType d) EndsDefinition (At "enum") :=
  takesOn_keyworded hnext (by decide) fun n =>
    (goesOn_openBody hnext (isBody_enumValues hnext)).map fun r =>
      (⟨n, d, r.1, .enumeration (r.2.getD [])⟩ : TypeDef)

theorem takesOn_inputType (hnext : IsNext next) (d : Option String) :
    TakesOn next (inputType d) (inputType d) EndsDefinition (At "input") :=
  takesOn_keyworded hnext (by decide) fun n =>
    (goesOn_openBody hnext (isBody_inputFields hnext)).map fun r =>
      (⟨n, d, r.1, .input (r.2.getD [])⟩ : TypeDef)

def typeKeywords : List String := ["scalar", "type", "interface", "union", "enum", "input"]

def AtOneOf (ws : List String) (text : List Char) : Prop := ∃ w ∈ ws, At w text

theorem not_at_of_oneOf_words {ws : List String} {v : String} (h : AtOneOf ws text)
    (hws : ∀ w ∈ ws, w.toList.isPrefixOf v.toList = false ∧ v.toList.isPrefixOf w.toList = false) :
    ¬ At v text := by
  obtain ⟨w, hw, hat⟩ := h
  exact hat.not_at (hws w hw).1 (hws w hw).2

/-- Readers, each with the word that it begins with. -/
structure Keyed (next : List Char) (x : String × Reader α) : Prop where
  takesOn : TakesOn next x.2 x.2 EndsDefinition (At x.1)
  refuses : ∀ {t}, ¬ At x.1 t → Refuses x.2 t

theorem takesOn_keyed {xs : List (String × Reader α)} (h : ∀ x ∈ xs, Keyed next x)
    (hwords : (xs.map (·.1)).Pairwise fun w v =>
      w.toList.isPrefixOf v.toList = false ∧ v.toList.isPrefixOf w.toList = false) :
    TakesOn next (firstOf (xs.map (·.2))) (firstOf (xs.map (·.2))) EndsDefinition
      (AtOneOf (xs.map (·.1))) := by
  induction xs with
  | nil => exact takesOn_none ..
  | cons x rest ih =>
    rw [List.forall_mem_cons] at h
    rw [List.map_cons, List.pairwise_cons] at hwords
    refine (h.1.takesOn.first (ih h.2 hwords.2) fun t hrest => h.1.refuses ?_).weaken ?_
    · exact not_at_of_oneOf_words hrest fun w hw => (hwords.1 w hw).symm
    · rintro t (hat | ⟨w, hw, hat⟩)
      · exact ⟨x.1, List.mem_cons_self, hat⟩
      · exact ⟨w, List.mem_cons_of_mem _ hw, hat⟩

theorem refuses_keyed {xs : List (String × Reader α)} (h : ∀ x ∈ xs, Keyed next x)
    (hno : ¬ AtOneOf (xs.map (·.1)) text) : Refuses (firstOf (xs.map (·.2))) text := by
  refine refuses_firstOf fun p hp => ?_
  obtain ⟨x, hx, rfl⟩ := List.mem_map.mp hp
  exact (h x hx).refuses fun hat => hno ⟨x.1, List.mem_map_of_mem hx, hat⟩

def typeReaders (d : Option String) : List (String × Reader TypeDef) := [
  ("scalar", scalarType d), ("type", objectType d), ("interface", interfaceType d),
  ("union", unionType d), ("enum", enumType d), ("input", inputType d)]

theorem keyed_typeReaders (hnext : IsNext next) (d : Option String) :
    ∀ x ∈ typeReaders d, Keyed next x := by
  simp only [typeReaders, List.forall_mem_cons, List.not_mem_nil, false_imp_iff, implies_true,
    and_true]
  exact ⟨⟨takesOn_scalarType hnext d, fun h => (refuses_word h).bind⟩,
    ⟨takesOn_objectType hnext d, fun h => (refuses_word h).bind⟩,
    ⟨takesOn_interfaceType hnext d, fun h => (refuses_word h).bind⟩,
    ⟨takesOn_unionType hnext d, fun h => (refuses_word h).bind⟩,
    ⟨takesOn_enumType hnext d, fun h => (refuses_word h).bind⟩,
    ⟨takesOn_inputType hnext d, fun h => (refuses_word h).bind⟩⟩

theorem headOf_of_typeKeyword (h : AtOneOf typeKeywords text) : headOf text ≠ some '"' := by
  have hwords : ∀ w ∈ typeKeywords, w.toList.head?.any isNameStart = true := by decide
  obtain ⟨w, hw, hat⟩ := h
  obtain ⟨c, hc, hstart⟩ := hat.exists_headOf isNameStart (hwords w hw)
  rw [hc]
  rintro ⟨⟩
  cases hstart

theorem takesOn_typeDefinition (hnext : IsNext next) :
    TakesOn next typeDefinition typeDefinition EndsDefinition
      (Described (AtOneOf typeKeywords)) := by
  have hwords : typeKeywords.Pairwise fun w v =>
      w.toList.isPrefixOf v.toList = false ∧ v.toList.isPrefixOf w.toList = false := by decide
  exact takesOn_described_splits hnext (fun d => takesOn_keyed (keyed_typeReaders hnext d) hwords)
    fun t h => headOf_of_typeKeyword h

theorem takesOn_scalarExtension (hnext : IsNext next) :
    TakesOn next scalarExtension scalarExtension EndsDefinition (At "scalar") :=
  takesOn_keyworded hnext (by decide) fun n => ((takesOn_directives hnext
    fun t (h : EndsDefinition t) => h.1.subset (by decide)).map fun uses =>
      (⟨n, none, uses, .scalar⟩ : TypeDef)).toGoesOn

theorem IsBody.not_joined_some (h : IsBody next body sign) (hstart : At "@" text ∨ At sign text) :
    Avoids ['&'] text ∧ ¬ At "implements" text :=
  h.not_joined (hstart.imp_right .inl)

theorem takesOn_objectExtension (hnext : IsNext next) :
    TakesOn next objectExtension objectExtension EndsDefinition (At "type") := by
  have hfields := isBody_fields hnext
  have hwith : ∀ n : String, GoesOn next
      (do
        let is ← optional interfaces
        let r ← someBody fields
        return (⟨n, none, r.1, .object (r.2.getD []) (is.getD [])⟩ : TypeDef))
      (do
        let is ← optional interfaces
        let r ← someBody fields
        return (⟨n, none, r.1, .object (r.2.getD []) (is.getD [])⟩ : TypeDef))
      EndsDefinition (fun t => At "implements" t ∨ At "@" t ∨ At "\x7b" t) := fun n =>
    (goesOn_optionalInterfaces hnext fun t h => hfields.not_joined_some h).then fun is =>
      (goesOn_someBody hnext hfields).map fun r =>
        (⟨n, none, r.1, .object (r.2.getD []) (is.getD [])⟩ : TypeDef)
  have hinterfaces : ∀ n : String, GoesOn next
      (do
        let is ← interfaces
        return (⟨n, none, [], .object [] is⟩ : TypeDef))
      (do
        let is ← interfaces
        return (⟨n, none, [], .object [] is⟩ : TypeDef)) EndsDefinition (At "implements") := fun n =>
    ((takesOn_interfaces hnext).bind (fun is => goesOn_pure (⟨n, none, [], .object [] is⟩ : TypeDef)
      EndsDefinition) fun t h => h.1.subset (by decide)).toGoesOn
  refine takesOn_keyworded hnext (by decide) fun n => (hwith n).or (hinterfaces n) ?_
  intro text t rest hreads hend _ offset faults
  -- Without a body, the interfaces are the same, and no body is there.
  obtain ⟨is, his⟩ := reads_of_pure hreads offset faults
  rw [result_bind, result_optional, his, Option.bind_some, result_bind,
    hfields.refuses_someBody hend, Option.bind_none]

theorem takesOn_interfaceExtension (hnext : IsNext next) :
    TakesOn next interfaceExtension interfaceExtension EndsDefinition (At "interface") :=
  takesOn_keyworded hnext (by decide) fun n => (goesOn_optionalInterfaces hnext
    fun t h => (isBody_fields hnext).not_joined_some h).then fun is =>
      (goesOn_someBody hnext (isBody_fields hnext)).map fun r =>
        (⟨n, none, r.1, .interface (r.2.getD []) (is.getD [])⟩ : TypeDef)

theorem takesOn_unionExtension (hnext : IsNext next) :
    TakesOn next unionExtension unionExtension EndsDefinition (At "union") :=
  takesOn_keyworded hnext (by decide) fun n =>
    (goesOn_someBody hnext (isBody_members hnext)).map fun r =>
      (⟨n, none, r.1, .union (r.2.getD [])⟩ : TypeDef)

theorem takesOn_enumExtension (hnext : IsNext next) :
    TakesOn next enumExtension enumExtension EndsDefinition (At "enum") :=
  takesOn_keyworded hnext (by decide) fun n =>
    (goesOn_someBody hnext (isBody_enumValues hnext)).map fun r =>
      (⟨n, none, r.1, .enumeration (r.2.getD [])⟩ : TypeDef)

theorem takesOn_inputExtension (hnext : IsNext next) :
    TakesOn next inputExtension inputExtension EndsDefinition (At "input") :=
  takesOn_keyworded hnext (by decide) fun n =>
    (goesOn_someBody hnext (isBody_inputFields hnext)).map fun r =>
      (⟨n, none, r.1, .input (r.2.getD [])⟩ : TypeDef)

def extensionReaders : List (String × Reader TypeDef) := [
  ("scalar", scalarExtension), ("type", objectExtension), ("interface", interfaceExtension),
  ("union", unionExtension), ("enum", enumExtension), ("input", inputExtension)]

theorem keyed_extensionReaders (hnext : IsNext next) : ∀ x ∈ extensionReaders, Keyed next x := by
  simp only [extensionReaders, List.forall_mem_cons, List.not_mem_nil, false_imp_iff, implies_true,
    and_true]
  exact ⟨⟨takesOn_scalarExtension hnext, fun h => (refuses_word h).bind⟩,
    ⟨takesOn_objectExtension hnext, fun h => (refuses_word h).bind⟩,
    ⟨takesOn_interfaceExtension hnext, fun h => (refuses_word h).bind⟩,
    ⟨takesOn_unionExtension hnext, fun h => (refuses_word h).bind⟩,
    ⟨takesOn_enumExtension hnext, fun h => (refuses_word h).bind⟩,
    ⟨takesOn_inputExtension hnext, fun h => (refuses_word h).bind⟩⟩

/-- The text begins with an extension of something. -/
def Extending (start : List Char → Prop) (text : List Char) : Prop :=
  At "extend" text ∧ Splits (word "extend") start text

theorem takesOn_extending {f : Unit → Reader α} (hnext : IsNext next)
    (hf : ∀ u, GoesOn next (f u) (f u) EndsDefinition before) :
    TakesOn next (word "extend" >>= f) (word "extend" >>= f) EndsDefinition (Extending before) where
  toGoesOn := (goesOn_lexeme (settled_readWord (by decide) (by decide)) hnext).bind_splits hf
    fun _ _ => trivial
  takes := (takesOn_word_bind (by decide) hnext hf).takes

theorem takesOn_typeExtension (hnext : IsNext next) :
    TakesOn next typeExtension typeExtension EndsDefinition (Extending (AtOneOf typeKeywords)) := by
  have hwords : typeKeywords.Pairwise fun w v =>
      w.toList.isPrefixOf v.toList = false ∧ v.toList.isPrefixOf w.toList = false := by decide
  exact takesOn_extending hnext fun _ =>
    (takesOn_keyed (keyed_extensionReaders hnext) hwords).toGoesOn

end Sdl

end SchemaAssembly
