import SchemaAssembly.Proofs.Sdl.DefinitionsGoOn

/-!
Schema definitions and further lines. The places of the roots matter for faults only, so what is read
without faults is read by a reader that keeps no places.
-/

set_option autoImplicit false

namespace SchemaAssembly

namespace Sdl

namespace Reader

variable {α β γ δ : Type} {next : List Char} {p : Reader α} {p' : Reader β} {f : α → Reader γ}
  {f' : β → Reader δ} {g : α → β} {k : γ → δ}

/-- The second reader finds what becomes of the first one's values. -/
def MapsTo (g : α → β) (p : Reader α) (p' : Reader β) : Prop :=
  ∀ c, (p' c).result = (p c).result.map fun r => (g r.1, r.2)

theorem mapsTo_id (p : Reader α) : MapsTo id p p := fun c => by simp

theorem mapsTo_pure (g : α → β) (a : α) : MapsTo g (pure a) (pure (g a)) := fun _ => rfl

theorem MapsTo.bind (hp : MapsTo g p p') (hf : ∀ a, MapsTo k (f a) (f' (g a))) :
    MapsTo k (p >>= f) (p' >>= f') := by
  intro c
  rw [result_bind, result_bind, hp]
  cases (p c).result with
  | none => rfl
  | some r => exact hf r.1 r.2

theorem mapsTo_here {f : Nat → Reader α} (h : ∀ start, MapsTo g (f start) p') :
    MapsTo g (here >>= f) p' := fun _ => h _ _

theorem MapsTo.or {q : Reader α} {q' : Reader β} (hp : MapsTo g p p') (hq : MapsTo g q q') :
    MapsTo g (p.or q) (p'.or q') := by
  intro c
  rw [result_or, result_or, hp, hq]
  cases (p c).result <;> rfl

theorem MapsTo.atMost (h : MapsTo g p p') (n : Nat) :
    MapsTo (List.map g) (atMost p n) (atMost p' n) := by
  induction n with
  | zero => exact fun _ => rfl
  | succ n ih =>
    intro c
    rw [result_atMost_succ, result_atMost_succ, h]
    cases (p c).result with
    | none => rfl
    | some r =>
      simp only [Option.map_some, ih r.2, Option.map_map]
      rfl

theorem MapsTo.many1 (h : MapsTo g p p') : MapsTo (List.map g) (many1 p) (many1 p') :=
  h.bind fun a => MapsTo.bind (g := List.map g) (fun c => h.atMost c.rest.length c)
    fun as => mapsTo_pure _ (a :: as)

theorem MapsTo.advances (h : MapsTo g p p') (hp : Advances p') : Advances p := fun c a d hr => by
  refine hp (a := g a) ?_
  rw [h, hr]
  rfl

/-- Where the first reader notes no fault, the second one finds what becomes of its value; and the
second one finds nothing else. -/
structure Faultless (g : α → β) (p : Reader α) (p' : Reader β) : Prop where
  plain : ∀ {c a d}, (p c).result = some (a, d) → d.faults = c.faults →
    (p' c).result = some (g a, d)
  back : ∀ {c b d}, (p' c).result = some (b, d) → ∃ a, (p c).result = some (a, d) ∧ g a = b

theorem MapsTo.faultless (h : MapsTo g p p') : Faultless g p p' where
  plain {c a d} hr _ := by rw [h, hr]; rfl
  back {c b d} hr := by
    rw [h, Option.map_eq_some_iff] at hr
    obtain ⟨⟨a, e⟩, hr, heq⟩ := hr
    cases heq
    exact ⟨a, hr, rfl⟩

/-- Faults are never taken back, so without faults in the end there were none before. -/
theorem Faultless.bind (h : Faultless g p p') (hp : Advances p) (hf : ∀ a, Advances (f a))
    (hff : ∀ a, Faultless k (f a) (f' (g a))) : Faultless k (p >>= f) (p' >>= f') where
  plain {c b d} hr hfaults := by
    rw [result_bind, Option.bind_eq_some_iff] at hr
    obtain ⟨⟨a, m⟩, ha, hb⟩ := hr
    have hfirst := (hp ha).2
    have hmore := (hf a hb).2
    rw [hfaults] at hmore
    have hsame := hfirst.eq_of_length (Nat.le_antisymm hfirst.length_le hmore.length_le)
    rw [result_bind, h.plain ha hsame.symm]
    exact (hff a).plain hb (hfaults.trans hsame)
  back {c b d} hr := by
    rw [result_bind, Option.bind_eq_some_iff] at hr
    obtain ⟨⟨b', m⟩, hb', hrest⟩ := hr
    obtain ⟨a, ha, rfl⟩ := h.back hb'
    obtain ⟨v, hv, rfl⟩ := (hff a).back hrest
    refine ⟨v, ?_, rfl⟩
    rw [result_bind, ha]
    exact hv

theorem faultless_here {f : Nat → Reader α} (h : ∀ start, Faultless g (f start) p') :
    Faultless g (here >>= f) p' where
  plain hr hfaults := (h _).plain hr hfaults
  back hr := (h _).back hr

/-- A reader that notes a fault comes to nothing without faults. -/
theorem faultless_fault (offset : Nat) (x : FragmentFault) {q : Reader α} (hq : Advances q) :
    Faultless g (fault offset x >>= fun _ => q) (firstOf []) where
  plain {c a d} hr hfaults := by
    have hlength := (hq hr).2.length_le
    rw [hfaults, List.length_cons] at hlength
    omega
  back h := nomatch h

theorem Faultless.takesOn {q q' : Reader α} {after before : List Char → Prop}
    (h : Faultless id q q') (hadvances : Advances q) (htakes : Takes q)
    (hq : TakesOn next q' q' after before) : TakesOn next q q after before where
  toGoesOn := hq.toGoesOn.congr hadvances h.plain fun hr offset faults => by
    obtain ⟨a, ha, rfl⟩ := h.back (hr offset faults)
    exact ha
  takes := htakes

end Reader

open Reader

variable {next text : List Char} {after : List Char → Prop}

def rootPair : Reader (Operation × String) := do
  let op ← operation
  word ":"
  let type ← name
  return (op, type)

def collected (roots : NamedRoots) : List (Operation × String) → Reader NamedRoots
  | [] => pure roots
  | (op, type) :: rest =>
    if (roots.get? op).isSome then firstOf [] else collected (roots.set op type) rest

theorem mapsTo_rootPair : MapsTo Prod.snd rootDefinition rootPair :=
  mapsTo_here fun start => (mapsTo_id operation).bind fun op => (mapsTo_id _).bind fun _ =>
    (mapsTo_id name).bind fun type => mapsTo_pure Prod.snd (start, op, type)

theorem mapsTo_bracedRoots :
    MapsTo (List.map Prod.snd) (braced rootDefinition) (braced rootPair) :=
  (mapsTo_id _).bind fun _ => mapsTo_rootPair.many1.bind fun defs => (mapsTo_id _).bind fun _ =>
    mapsTo_pure _ defs

theorem advances_collectRoots (roots : NamedRoots) (defs : List (Nat × Operation × String)) :
    Advances (collectRoots roots defs) := by
  induction defs generalizing roots with
  | nil => exact advances_pure roots
  | cons x rest ih =>
    obtain ⟨start, op, type⟩ := x
    rw [collectRoots]
    split
    · exact (advances_fault _ _).bind fun _ => ih _
    · exact ih _

theorem faultless_collectRoots (roots : NamedRoots) (defs : List (Nat × Operation × String)) :
    Faultless id (collectRoots roots defs) (collected roots (defs.map Prod.snd)) := by
  induction defs generalizing roots with
  | nil => exact (mapsTo_id _).faultless
  | cons x rest ih =>
    obtain ⟨start, op, type⟩ := x
    rw [List.map_cons, collectRoots, collected]
    split
    · exact faultless_fault _ _ (advances_collectRoots _ _)
    · exact ih _

theorem goesOn_collected (roots : NamedRoots) (defs : List (Operation × String)) :
    GoesOn next (collected roots defs) (collected roots defs) after after := by
  induction defs generalizing roots with
  | nil => exact goesOn_pure roots after
  | cons x rest ih =>
    rw [collected]
    split
    · exact (takesOn_none ..).toGoesOn
    · exact ih _

theorem begins_name_of_headOf {c : Char} (h : headOf text = some c) (hc : isNameStart c = true) :
    Begins readName text := by
  obtain ⟨rest, hrest⟩ := skipIgnored_of_headOf h
  rw [Begins, hrest, readName, if_pos hc]
  exact Option.some_ne_none _

theorem begins_name_of_operation (h : Begins (readOneOf operationWords) text) :
    Begins readName text := by
  obtain ⟨x, hx, hat⟩ := exists_at_of_oneOf h
  have hwords : ∀ x ∈ operationWords, x.1.toList.head?.any isNameStart = true := by decide
  obtain ⟨c, hc, hstart⟩ := hat.exists_headOf isNameStart (hwords x hx)
  exact begins_name_of_headOf hc hstart

theorem takesOn_rootPair (hnext : IsNext next) :
    TakesOn next rootPair rootPair (fun _ => True) BeginsItem :=
  ((takesOn_operation hnext).bind (fun op => (takesOn_word_bind (by decide) hnext fun _ =>
    (takesOn_lexeme_bind settled_readName hnext fun type =>
      goesOn_pure (op, type) _).toGoesOn).toGoesOn)
      fun _ _ => trivial).weaken fun _ h => .inr (begins_name_of_operation h)

theorem refuses_rootPair (h : ¬ BeginsItem text) : Refuses rootPair text := by
  have hoperation : Refuses operation text := fun offset faults => by
    have hno := refuses_of_not_begins fun hop => h (.inr (begins_name_of_operation hop))
    exact (result_words operationWords _).trans (hno offset faults)
  exact hoperation.bind

theorem isBody_roots (hnext : IsNext next) : IsBody next (braced rootPair) "\x7b" where
  takesOn := (takesOn_braced hnext ((takesOn_rootPair hnext).mono (fun _ _ => trivial) fun _ h => h)
    refuses_rootPair).mono (fun _ _ => trivial) fun _ h => h
  refuses h := (refuses_word h).bind
  head := .inl rfl

/-- A schema definition without faults: no root is named again, and there is a query root. -/
def plainSchema : Reader NamedRoots := do
  word "schema"
  let _ ← optionalDirectives
  let defs ← braced rootPair
  let roots ← collected default defs
  if roots.query.isNone then firstOf [] else return roots

def plainSchemaExtension : Reader NamedRoots := do
  word "extend"
  word "schema"
  let (_, defs) ← someBody (braced rootPair)
  collected default (defs.getD [])

theorem advances_word {w : String} (hw : w.toList ≠ [] ∧ IsPlain w.toList) : Advances (word w) :=
  advances_lexeme (settled_readWord hw.1 hw.2)

theorem takes_word {w : String} (hw : w.toList ≠ [] ∧ IsPlain w.toList) : Takes (word w) :=
  takes_lexeme (settled_readWord hw.1 hw.2)

theorem takesOn_plainSchema (hnext : IsNext next) :
    TakesOn next plainSchema plainSchema EndsDefinition (At "schema") := by
  have hroots : ∀ defs, GoesOn next
      (do
        let roots ← collected default defs
        if roots.query.isNone then firstOf [] else return roots)
      (do
        let roots ← collected default defs
        if roots.query.isNone then firstOf [] else return roots)
      EndsDefinition EndsDefinition := fun defs =>
    (goesOn_collected default defs).then fun roots => by
      split
      · exact (takesOn_none ..).toGoesOn
      · exact goesOn_pure roots _
  have hbody := (isBody_roots hnext).takesOn.bind hroots fun _ h => h
  have hdirectives := goesOn_optionalDirectives hnext fun t (hat : At "\x7b" t) =>
    ((isBody_roots hnext).avoids hat).1.subset (by decide)
  exact takesOn_word_bind (by decide) hnext fun _ =>
    hdirectives.then fun _ => hbody.toGoesOn

theorem takesOn_plainSchemaExtension (hnext : IsNext next) :
    TakesOn next plainSchemaExtension plainSchemaExtension EndsDefinition
      (Extending (At "schema")) :=
  takesOn_extending hnext fun _ => (takesOn_word_bind (by decide) hnext fun _ =>
    (goesOn_someBody hnext (isBody_roots hnext)).then fun r =>
      goesOn_collected default (r.2.getD [])).toGoesOn

theorem advances_bracedRoots : Advances (braced rootDefinition) :=
  mapsTo_bracedRoots.advances (isBody_roots (.inl rfl)).takesOn.advances

theorem advances_optionalDirectives : Advances optionalDirectives :=
  (goesOn_optionalDirectives (.inl rfl) fun _ h => h).advances

/-- The check for a query root notes a fault just where the plain reader finds nothing. -/
theorem faultless_queryRoot (start : Nat) (roots : NamedRoots) :
    Advances (do
      if roots.query.isNone then
        fault start .missingQueryRoot
      return roots : Reader NamedRoots) ∧
    Faultless id (do
      if roots.query.isNone then
        fault start .missingQueryRoot
      return roots) (if roots.query.isNone then firstOf [] else return roots) := by
  split
  · exact ⟨(advances_fault _ _).bind fun _ => advances_pure roots,
      faultless_fault _ _ (advances_pure roots)⟩
  · exact ⟨advances_pure roots, (mapsTo_id _).faultless⟩

theorem takesOn_schemaDefinition (hnext : IsNext next) :
    TakesOn next schemaDefinition schemaDefinition EndsDefinition (At "schema") := by
  have hword := advances_word (w := "schema") (by decide)
  have hroots : ∀ start (defs : List (Nat × Operation × String)), Advances (do
      let roots ← collectRoots default defs
      if roots.query.isNone then
        fault start .missingQueryRoot
      return roots) := fun start defs =>
    (advances_collectRoots default defs).bind fun roots => (faultless_queryRoot start roots).1
  have hrest := fun start => advances_optionalDirectives.bind fun _ =>
    advances_bracedRoots.bind (hroots start)
  have hfaultless : Faultless id schemaDefinition plainSchema := faultless_here fun start =>
    (mapsTo_id _).faultless.bind hword (fun _ => hrest start) fun _ =>
      (mapsTo_id _).faultless.bind advances_optionalDirectives
        (fun _ => advances_bracedRoots.bind (hroots start)) fun _ =>
          mapsTo_bracedRoots.faultless.bind advances_bracedRoots (hroots start) fun defs =>
            (faultless_collectRoots default defs).bind (advances_collectRoots default defs)
              (fun roots => (faultless_queryRoot start roots).1)
              fun roots => (faultless_queryRoot start roots).2
  exact hfaultless.takesOn (advances_here.bind fun start => hword.bind fun _ => hrest start)
    (.bind_right advances_here (fun start => (takes_word (by decide)).bind hword fun _ => hrest start)
      fun start => hword.bind fun _ => hrest start) (takesOn_plainSchema hnext)

theorem mapsTo_someRoots : MapsTo (fun r => (r.1, r.2.map (List.map Prod.snd)))
    (someBody (braced rootDefinition)) (someBody (braced rootPair)) := by
  refine MapsTo.or (.bind (mapsTo_id optionalDirectives) fun uses => .bind mapsTo_bracedRoots
    fun defs => ?_) (.bind (mapsTo_id directives) fun uses => ?_)
  · exact mapsTo_pure _ (uses, some defs)
  · exact mapsTo_pure _ (uses, none)

theorem takesOn_schemaExtension (hnext : IsNext next) :
    TakesOn next schemaExtension schemaExtension EndsDefinition (Extending (At "schema")) := by
  have hextend := advances_word (w := "extend") (by decide)
  have hschema := advances_word (w := "schema") (by decide)
  have hbody := mapsTo_someRoots.advances (goesOn_someBody (.inl rfl) (isBody_roots (.inl rfl))).advances
  have hrest := hbody.bind fun r => advances_collectRoots default (r.2.getD [])
  have hfaultless : Faultless id schemaExtension plainSchemaExtension :=
    (mapsTo_id _).faultless.bind hextend (fun _ => hschema.bind fun _ => hrest) fun _ =>
      (mapsTo_id _).faultless.bind hschema (fun _ => hrest) fun _ =>
        mapsTo_someRoots.faultless.bind hbody (fun r => advances_collectRoots default (r.2.getD []))
          fun r => by
            have hmap : (r.2.map (List.map Prod.snd)).getD [] = (r.2.getD []).map Prod.snd := by
              cases r.2 <;> rfl
            have hsame := faultless_collectRoots default (r.2.getD [])
            rwa [← hmap] at hsame
  exact hfaultless.takesOn (hextend.bind fun _ => hschema.bind fun _ => hrest)
    ((takes_word (by decide)).bind hextend fun _ => hschema.bind fun _ => hrest)
    (takesOn_plainSchemaExtension hnext)

end Sdl

end SchemaAssembly
