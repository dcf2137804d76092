import SchemaAssembly.Proofs.Sdl.LineEnds

/-!
Readers and further lines. Where a reader succeeds, it takes the same text when more is next, if what
then follows is nothing that an optional part or a repetition at its end could take. Each reader is
described by what may follow it and by how its own text begins, and the descriptions are put together
along the combinators.
-/

set_option autoImplicit false

namespace SchemaAssembly

namespace Sdl

namespace Reader

variable {α β : Type} {p q : Reader α} {f g : α → Reader β} {next : List Char}
  {after before : List Char → Prop}

/-- The reader leaves what is left after some lexemes, and takes no fault back. -/
def Advances (p : Reader α) : Prop :=
  ∀ ⦃c a d⦄, (p c).result = some (a, d) → Leaves c.rest d.rest ∧ c.faults <:+ d.faults

def Takes (p : Reader α) : Prop := ∀ ⦃c a d⦄, (p c).result = some (a, d) → d.rest ≠ c.rest

theorem advances_pure (a : α) : Advances (pure a : Reader α) := by
  rintro c _ _ ⟨⟩
  exact ⟨.refl _, List.suffix_rfl⟩

theorem advances_fault (offset : Nat) (f : FragmentFault) : Advances (fault offset f) := by
  rintro c _ _ ⟨⟩
  exact ⟨.refl _, List.suffix_cons _ _⟩

theorem advances_here : Advances here := by
  rintro c _ _ ⟨⟩
  exact ⟨.refl _, List.suffix_rfl⟩

theorem Advances.bind (hp : Advances p) (hf : ∀ a, Advances (f a)) : Advances (p >>= f) := by
  intro c b d h
  rw [result_bind, Option.bind_eq_some_iff] at h
  obtain ⟨⟨a, m⟩, ha, hb⟩ := h
  obtain ⟨hleft, hfaults⟩ := hp ha
  obtain ⟨hleft', hfaults'⟩ := hf a hb
  exact ⟨hleft.trans hleft', hfaults.trans hfaults'⟩

theorem Advances.or (hp : Advances p) (hq : Advances q) : Advances (p.or q) := by
  intro c a d h
  rw [result_or, Option.or_eq_some_iff] at h
  rcases h with h | ⟨-, h⟩
  · exact hp h
  · exact hq h

theorem Advances.optional (hp : Advances p) : Advances (Reader.optional p) := by
  intro c a d h
  rw [result_optional] at h
  cases hc : (p c).result with
  | none =>
    rw [hc] at h
    cases h
    exact ⟨.refl _, List.suffix_rfl⟩
  | some r =>
    rw [hc] at h
    cases h
    exact hp hc

theorem Advances.atMost (hp : Advances p) (n : Nat) : Advances (atMost p n) := by
  induction n with
  | zero => exact advances_pure []
  | succ n ih =>
    intro c as d h
    rw [result_atMost_succ] at h
    cases hc : (p c).result with
    | none =>
      rw [hc] at h
      cases h
      exact ⟨.refl _, List.suffix_rfl⟩
    | some r =>
      rw [hc, Option.map_eq_some_iff] at h
      obtain ⟨⟨more, e⟩, hmore, heq⟩ := h
      cases heq
      obtain ⟨hleft, hfaults⟩ := hp hc
      obtain ⟨hleft', hfaults'⟩ := ih hmore
      exact ⟨hleft.trans hleft', hfaults.trans hfaults'⟩

theorem Advances.many (hp : Advances p) : Advances (Reader.many p) :=
  fun c _ _ h => hp.atMost c.rest.length h

theorem Takes.bind (hp : Takes p) (hadvances : Advances p) (hf : ∀ a, Advances (f a)) :
    Takes (p >>= f) := by
  intro c b d h
  rw [result_bind, Option.bind_eq_some_iff] at h
  obtain ⟨⟨a, m⟩, ha, hb⟩ := h
  -- Nothing that was taken is given back.
  have hfirst := (hadvances ha).1.suffix
  have hmore := (hf a hb).1.suffix
  intro heq
  rw [heq] at hmore
  exact hp ha (hfirst.eq_of_length (Nat.le_antisymm hfirst.length_le hmore.length_le))

theorem Takes.bind_right (hp : Advances p) (hf : ∀ a, Takes (f a)) (hadvances : ∀ a, Advances (f a)) :
    Takes (p >>= f) := by
  intro c b d h
  rw [result_bind, Option.bind_eq_some_iff] at h
  obtain ⟨⟨a, m⟩, ha, hb⟩ := h
  have hfirst := (hp ha).1.suffix
  have hmore := (hadvances a hb).1.suffix
  intro heq
  rw [← heq] at hfirst
  exact hf a hb (hmore.eq_of_length (Nat.le_antisymm hmore.length_le hfirst.length_le))

theorem Takes.or (hp : Takes p) (hq : Takes q) : Takes (p.or q) := by
  intro c a d h
  rw [result_or, Option.or_eq_some_iff] at h
  rcases h with h | ⟨-, h⟩
  · exact hp h
  · exact hq h

/-- Where `p` takes a text and notes no fault, `q` takes it in front of `next`, if what follows then
is as `after` says; and the text with all that follows is as `before` says. -/
structure GoesOn (next : List Char) (p q : Reader α) (after before : List Char → Prop) : Prop where
  advances : Advances p
  reads : ∀ {c a d}, (p c).result = some (a, d) → d.faults = c.faults → Apart c.rest next →
    after (d.rest ++ next) →
      ∃ text, c.rest = text ++ d.rest ∧ Reads q text a (d.rest ++ next) ∧ before (c.rest ++ next)

/-- The reader goes on, and takes something. -/
structure TakesOn (next : List Char) (p q : Reader α) (after before : List Char → Prop) : Prop
    extends GoesOn next p q after before where
  takes : Takes p

theorem GoesOn.mono {after' before' : List Char → Prop} (h : GoesOn next p q after before)
    (hafter : ∀ t, after' t → after t) (hbefore : ∀ t, before t → before' t) :
    GoesOn next p q after' before' where
  advances := h.advances
  reads hr hfaults hapart hrest := by
    obtain ⟨text, htext, hreads, hstart⟩ := h.reads hr hfaults hapart (hafter _ hrest)
    exact ⟨text, htext, hreads, hbefore _ hstart⟩

theorem TakesOn.mono {after' before' : List Char → Prop} (h : TakesOn next p q after before)
    (hafter : ∀ t, after' t → after t) (hbefore : ∀ t, before t → before' t) :
    TakesOn next p q after' before' :=
  ⟨h.toGoesOn.mono hafter hbefore, h.takes⟩

theorem TakesOn.weaken {before' : List Char → Prop} (h : TakesOn next p q after before)
    (hbefore : ∀ t, before t → before' t) : TakesOn next p q after before' :=
  h.mono (fun _ h => h) hbefore

theorem GoesOn.congr {p' q' : Reader α} (h : GoesOn next p' q' after before) (hp : Advances p)
    (hpp : ∀ {c a d}, (p c).result = some (a, d) → d.faults = c.faults →
      (p' c).result = some (a, d))
    (hqq : ∀ {text a rest}, Reads q' text a rest → Reads q text a rest) :
    GoesOn next p q after before where
  advances := hp
  reads hr hfaults hapart hrest := by
    obtain ⟨text, htext, hreads, hstart⟩ := h.reads (hpp hr hfaults) hfaults hapart hrest
    exact ⟨text, htext, hqq hreads, hstart⟩

theorem goesOn_pure (a : α) (after : List Char → Prop) :
    GoesOn next (pure a : Reader α) (pure a) after after where
  advances := advances_pure a
  reads hr _ _ hrest := by
    cases hr
    exact ⟨[], rfl, reads_pure a _, hrest⟩

/-- The text begins with what the reader takes, and then goes on in a certain way. -/
def Splits (q : Reader α) (start : List Char → Prop) (t : List Char) : Prop :=
  ∃ text a rest, t = text ++ rest ∧ Reads q text a rest ∧ start rest

theorem GoesOn.bind_splits {between start : List Char → Prop} (hp : GoesOn next p q between before)
    (hf : ∀ a, GoesOn next (f a) (g a) after start) (hstart : ∀ t, start t → between t) :
    GoesOn next (p >>= f) (q >>= g) after (fun t => before t ∧ Splits q start t) where
  advances := hp.advances.bind fun a => (hf a).advances
  reads {c b d} hr hfaults hapart hrest := by
    rw [result_bind, Option.bind_eq_some_iff] at hr
    obtain ⟨⟨a, m⟩, ha, hb⟩ := hr
    obtain ⟨hleft, hmore⟩ := hp.advances ha
    obtain ⟨-, hmore'⟩ := (hf a).advances hb
    rw [hfaults] at hmore'
    have hsame : m.faults = c.faults :=
      (hmore.eq_of_length (Nat.le_antisymm hmore.length_le hmore'.length_le)).symm
    obtain ⟨text', htext', hreads', hbetween⟩ :=
      (hf a).reads hb (hfaults.trans hsame.symm) (hleft.apart hapart) hrest
    obtain ⟨text, htext, hreads, hbefore⟩ := hp.reads ha hsame hapart (hstart _ hbetween)
    refine ⟨text ++ text', ?_, Reads.bind ?_ hreads', hbefore, text, a, _, ?_, hreads, hbetween⟩
    · rw [htext, htext', List.append_assoc]
    · rwa [htext', List.append_assoc] at hreads
    · rw [htext, List.append_assoc]

theorem GoesOn.bind {between start : List Char → Prop} (hp : GoesOn next p q between before)
    (hf : ∀ a, GoesOn next (f a) (g a) after start) (hstart : ∀ t, start t → between t) :
    GoesOn next (p >>= f) (q >>= g) after before :=
  (hp.bind_splits hf hstart).mono (fun _ h => h) fun _ h => h.1

theorem Splits.refuses {start : List Char → Prop} {t : List Char} (h : Splits q start t)
    (hf : ∀ a {rest}, start rest → Refuses (f a) rest) : Refuses (q >>= f) t := by
  obtain ⟨text, a, rest, rfl, hreads, hstart⟩ := h
  intro offset faults
  rw [result_bind, hreads, Option.bind_some]
  exact hf a hstart _ _

theorem TakesOn.bind {between start : List Char → Prop} (hp : TakesOn next p q between before)
    (hf : ∀ a, GoesOn next (f a) (g a) after start) (hstart : ∀ t, start t → between t) :
    TakesOn next (p >>= f) (q >>= g) after before where
  toGoesOn := hp.toGoesOn.bind hf hstart
  takes := hp.takes.bind hp.advances fun a => (hf a).advances

theorem GoesOn.then {between : List Char → Prop} (hp : GoesOn next p q between before)
    (hf : ∀ a, GoesOn next (f a) (g a) after between) :
    GoesOn next (p >>= f) (q >>= g) after before := hp.bind hf fun _ h => h

theorem TakesOn.then {between : List Char → Prop} (hp : TakesOn next p q between before)
    (hf : ∀ a, GoesOn next (f a) (g a) after between) :
    TakesOn next (p >>= f) (q >>= g) after before := hp.bind hf fun _ h => h

theorem GoesOn.map (hp : GoesOn next p q after before) (k : α → β) :
    GoesOn next (do return k (← p)) (do return k (← q)) after before :=
  hp.then fun a => goesOn_pure (k a) after

theorem TakesOn.map (hp : TakesOn next p q after before) (k : α → β) :
    TakesOn next (do return k (← p)) (do return k (← q)) after before :=
  hp.then fun a => goesOn_pure (k a) after

/-- A choice goes on if its first reader is refused wherever its second one takes a text. -/
theorem GoesOn.or {p' q' : Reader α} {before' : List Char → Prop}
    (hp : GoesOn next p q after before) (hp' : GoesOn next p' q' after before')
    (h : ∀ {text a rest}, Reads q' text a rest → after rest → before' (text ++ rest) →
      Refuses q (text ++ rest)) :
    GoesOn next (p.or p') (q.or q') after (fun t => before t ∨ before' t) where
  advances := hp.advances.or hp'.advances
  reads {c a d} hr hfaults hapart hrest := by
    rw [result_or, Option.or_eq_some_iff] at hr
    rcases hr with hr | ⟨-, hr⟩
    · obtain ⟨text, htext, hreads, hstart⟩ := hp.reads hr hfaults hapart hrest
      exact ⟨text, htext, hreads.or_left, .inl hstart⟩
    · obtain ⟨text, htext, hreads, hstart⟩ := hp'.reads hr hfaults hapart hrest
      refine ⟨text, htext, .or_right (h hreads hrest ?_) hreads, .inr hstart⟩
      rwa [htext, List.append_assoc] at hstart

theorem TakesOn.or {p' q' : Reader α} {before' : List Char → Prop}
    (hp : TakesOn next p q after before) (hp' : TakesOn next p' q' after before')
    (h : ∀ {text a rest}, Reads q' text a rest → after rest → before' (text ++ rest) →
      Refuses q (text ++ rest)) :
    TakesOn next (p.or p') (q.or q') after (fun t => before t ∨ before' t) where
  toGoesOn := hp.toGoesOn.or hp'.toGoesOn h
  takes := hp.takes.or hp'.takes

theorem takesOn_none (q : Reader α) (after before : List Char → Prop) :
    TakesOn next (firstOf []) q after before where
  advances _ _ _ h := nomatch h
  reads h := nomatch h
  takes _ _ _ h := nomatch h

theorem TakesOn.first {ps qs : List (Reader α)} {before' : List Char → Prop}
    (hp : TakesOn next p q after before) (hps : TakesOn next (firstOf ps) (firstOf qs) after before')
    (h : ∀ t, before' t → Refuses q t) :
    TakesOn next (firstOf (p :: ps)) (firstOf (q :: qs)) after (fun t => before t ∨ before' t) :=
  hp.or hps fun _ _ hstart => h _ hstart

theorem TakesOn.last (hp : TakesOn next p q after before) :
    TakesOn next (firstOf [p]) (firstOf [q]) after before :=
  (hp.first (takesOn_none (firstOf []) after fun _ => False) fun _ h => h.elim).weaken
    fun _ h => h.resolve_right id

theorem GoesOn.optional {stop : List Char → Prop} (hp : GoesOn next p q after before)
    (hstop : ∀ t, stop t → after t) (hend : ∀ t, stop t → Refuses q t) :
    GoesOn next (Reader.optional p) (Reader.optional q) stop (fun t => before t ∨ stop t) where
  advances := hp.advances.optional
  reads {c a d} hr hfaults hapart hrest := by
    rw [result_optional] at hr
    cases hc : (p c).result with
    | none =>
      rw [hc] at hr
      cases hr
      exact ⟨[], rfl, (hend _ hrest).optional, .inr hrest⟩
    | some r =>
      rw [hc] at hr
      cases hr
      obtain ⟨text, htext, hreads, hstart⟩ := hp.reads hc hfaults hapart (hstop _ hrest)
      exact ⟨text, htext, hreads.optional, .inl hstart⟩

/-- All items of a repetition are taken again, if items may follow each other. -/
theorem TakesOn.each (hp : TakesOn next p q after before)
    (hmore : ∀ t, before t → after t) {n : Nat} {c d : Cursor} {as : List α}
    (hr : (atMost p n c).result = some (as, d)) (hfaults : d.faults = c.faults)
    (hapart : Apart c.rest next) (hrest : after (d.rest ++ next)) :
    ∃ items, ReadsEach q (d.rest ++ next) items ∧ c.rest = joined items ++ d.rest ∧
      items.map (·.2) = as ∧ (before (c.rest ++ next) ∨ c.rest = d.rest) := by
  induction n generalizing c as with
  | zero =>
    cases hr
    exact ⟨[], .nil, rfl, rfl, .inr rfl⟩
  | succ n ih =>
    rw [result_atMost_succ] at hr
    cases hc : (p c).result with
    | none =>
      rw [hc] at hr
      cases hr
      exact ⟨[], .nil, rfl, rfl, .inr rfl⟩
    | some r =>
      obtain ⟨a, m⟩ := r
      rw [hc, Option.map_eq_some_iff] at hr
      obtain ⟨⟨more, e⟩, hatMost, heq⟩ := hr
      cases heq
      -- Faults only grow, and there are as many at the end as at the start.
      obtain ⟨hleft, hgrow⟩ := hp.advances hc
      obtain ⟨-, hgrow'⟩ := hp.advances.atMost n hatMost
      rw [hfaults] at hgrow'
      have hsame : m.faults = c.faults :=
        (hgrow.eq_of_length (Nat.le_antisymm hgrow.length_le hgrow'.length_le)).symm
      obtain ⟨items, hitems, htext', rfl, hstart'⟩ :=
        ih hatMost (hfaults.trans hsame.symm) (hleft.apart hapart)
      have hafter : after (m.rest ++ next) := by
        rcases hstart' with hstart' | hsame
        · exact hmore _ hstart'
        · rwa [hsame]
      obtain ⟨text, htext, hreads, hstart⟩ := hp.reads hc hsame hapart hafter
      refine ⟨(text, a) :: items, .cons ?_ ?_ hitems, ?_, rfl, .inl hstart⟩
      · rintro rfl
        exact hp.takes hc htext.symm
      · rwa [htext', List.append_assoc] at hreads
      · rw [htext, htext', ← List.append_assoc]
        rfl

theorem TakesOn.many {stop : List Char → Prop} (hp : TakesOn next p q after before)
    (hmore : ∀ t, before t → after t) (hstop : ∀ t, stop t → after t)
    (hend : ∀ t, stop t → Refuses q t) :
    GoesOn next (Reader.many p) (Reader.many q) stop (fun t => before t ∨ stop t) where
  advances := hp.advances.many
  reads {c as d} hr hfaults hapart hrest := by
    obtain ⟨items, hitems, htext, rfl, hstart⟩ :=
      hp.each hmore hr hfaults hapart (hstop _ hrest)
    refine ⟨joined items, htext, hitems.many (hend _ hrest), ?_⟩
    rcases hstart with hstart | hsame
    · exact .inl hstart
    · rw [hsame]
      exact .inr hrest

theorem TakesOn.many1 {stop : List Char → Prop} (hp : TakesOn next p q after before)
    (hmore : ∀ t, before t → after t) (hstop : ∀ t, stop t → after t)
    (hend : ∀ t, stop t → Refuses q t) :
    TakesOn next (Reader.many1 p) (Reader.many1 q) stop before := by
  refine hp.bind (fun a => (hp.many hmore hstop hend).map (a :: ·)) ?_
  rintro t (h | h)
  · exact hmore t h
  · exact hstop t h

theorem refuses_firstOf {ps : List (Reader α)} {text : List Char}
    (h : ∀ p ∈ ps, Refuses p text) : Refuses (firstOf ps) text := by
  induction ps with
  | nil => exact fun _ _ => rfl
  | cons p rest ih =>
    rw [List.forall_mem_cons] at h
    intro offset faults
    rw [firstOf, result_or, h.1, Option.none_or, ih h.2]

def Begins (read : List Char → Option (α × List Char)) (text : List Char) : Prop :=
  read (skipIgnored text) ≠ none

variable {read : List Char → Option (α × List Char)}

theorem refuses_of_not_begins {text : List Char} (h : ¬ Begins read text) :
    Refuses (lexeme read) text := refuses_lexeme (Decidable.not_not.mp h)

theorem advances_lexeme (h : Settled read) : Advances (lexeme read) := by
  intro c a d hr
  rw [result_lexeme, Option.map_eq_some_iff] at hr
  obtain ⟨⟨b, rest⟩, hread, heq⟩ := hr
  cases heq
  exact ⟨(leaves_skipIgnored c.rest).trans (h.leaves hread), List.suffix_rfl⟩

theorem takes_lexeme (h : Settled read) : Takes (lexeme read) := by
  intro c a d hr
  rw [result_lexeme, Option.map_eq_some_iff] at hr
  obtain ⟨⟨b, rest⟩, hread, heq⟩ := hr
  cases heq
  have hblank := (leaves_skipIgnored c.rest).suffix
  have hlexeme := (h.leaves hread).suffix
  intro hsame
  change rest = c.rest at hsame
  rw [← hsame] at hread hblank hlexeme
  exact h.takes hread (hlexeme.eq_of_length (Nat.le_antisymm hlexeme.length_le hblank.length_le))

theorem goesOn_lexeme (h : Settled read) (hnext : IsNext next) :
    GoesOn next (lexeme read) (lexeme read) (fun _ => True) (Begins read) where
  advances := advances_lexeme h
  reads {c a d} hr _ hapart _ := by
    rw [result_lexeme, Option.map_eq_some_iff] at hr
    obtain ⟨⟨b, rest⟩, hread, heq⟩ := hr
    cases heq
    obtain ⟨blanks, hblanks⟩ := (leaves_skipIgnored c.rest).suffix
    obtain ⟨taken, htaken⟩ := (h.leaves hread).suffix
    have hsame := h.same hread hnext ((leaves_skipIgnored c.rest).apart hapart)
    have hne : skipIgnored c.rest ≠ [] := by
      intro hnil
      rw [hnil] at hread htaken
      exact h.takes hread (List.append_eq_nil_iff.mp htaken).2
    have hskip : skipIgnored (c.rest ++ next) = skipIgnored c.rest ++ next := by
      rw [skipIgnored_next hnext, if_neg hne]
    refine ⟨blanks ++ taken, ?_, ?_, ?_⟩
    · rw [List.append_assoc, htaken, hblanks]
    · intro offset faults
      have htext : blanks ++ taken ++ (rest ++ next) = c.rest ++ next := by
        rw [← hblanks, ← htaken]
        simp only [List.append_assoc]
      have hlength := congrArg List.length hblanks
      have hlength' := congrArg List.length htaken
      have hoffset : offset + ((c.rest ++ next).length - (skipIgnored c.rest ++ next).length) +
          ((skipIgnored c.rest ++ next).length - (rest ++ next).length) =
            offset + (blanks ++ taken).length := by
        simp only [List.length_append] at hlength hlength' ⊢
        omega
      simp only [htext, result_lexeme, hskip, hsame, Option.map_some, hoffset]
    · rw [Begins, hskip, hsame]
      simp

theorem takesOn_lexeme (h : Settled read) (hnext : IsNext next) :
    TakesOn next (lexeme read) (lexeme read) (fun _ => True) (Begins read) :=
  ⟨goesOn_lexeme h hnext, takes_lexeme h⟩

/-- A lexeme may be followed by anything. -/
theorem takesOn_lexeme_bind (h : Settled read) (hnext : IsNext next)
    (hf : ∀ a, GoesOn next (f a) (g a) after before) :
    TakesOn next (lexeme read >>= f) (lexeme read >>= g) after (Begins read) :=
  (takesOn_lexeme h hnext).bind hf fun _ _ => trivial

/-- The first character that is neither blank nor in a comment. -/
def headOf (text : List Char) : Option Char := (skipIgnored text).head?

def Avoids (cs : List Char) (text : List Char) : Prop := ∀ c ∈ cs, headOf text ≠ some c

/-- The text begins with this word, be it the beginning of a name. -/
def At (w : String) (text : List Char) : Prop := Begins (readWord w.toList) text

variable {text : List Char} {w v : String} {c : Char} {cs ds : List Char}

theorem at_iff : At w text ↔ ∃ rest, skipIgnored text = w.toList ++ rest := by
  rw [At, Begins, Option.ne_none_iff_exists']
  constructor
  · rintro ⟨⟨u, rest⟩, h⟩
    exact ⟨rest, readWord_eq_some_iff.mp h⟩
  · rintro ⟨rest, h⟩
    exact ⟨((), rest), readWord_eq_some_iff.mpr h⟩

theorem At.headOf (h : At w text) (hw : w.toList.head? = some c) : headOf text = some c := by
  obtain ⟨rest, hrest⟩ := at_iff.mp h
  rw [Reader.headOf, hrest, List.head?_append, hw, Option.some_or]

theorem At.exists_headOf (h : At w text) (good : Char → Bool)
    (hw : w.toList.head?.any good = true) :
    ∃ c, Reader.headOf text = some c ∧ good c = true := by
  obtain ⟨c, hc, hgood⟩ := (Option.any_eq_true good _).mp hw
  exact ⟨c, h.headOf hc, hgood⟩

/-- Two words that differ somewhere do not stand at one place. -/
theorem At.not_at (h : At w text) (hne : w.toList.isPrefixOf v.toList = false)
    (hne' : v.toList.isPrefixOf w.toList = false) : ¬ At v text := by
  intro h'
  obtain ⟨rest, hrest⟩ := at_iff.mp h
  obtain ⟨rest', hrest'⟩ := at_iff.mp h'
  rw [hrest] at hrest'
  rcases List.append_eq_append_iff.mp hrest' with ⟨more, hv, -⟩ | ⟨more, hw, -⟩
  · rw [Bool.eq_false_iff] at hne
    exact hne (List.isPrefixOf_iff_prefix.mpr ⟨more, hv.symm⟩)
  · rw [Bool.eq_false_iff] at hne'
    exact hne' (List.isPrefixOf_iff_prefix.mpr ⟨more, hw.symm⟩)

theorem not_at_of_avoids (h : Avoids cs text) (hw : w.toList.head? = some c) (hc : c ∈ cs) :
    ¬ At w text := fun hat => h c hc (hat.headOf hw)

theorem avoids_of_headOf (h : headOf text = some c) (hc : c ∉ cs) : Avoids cs text := by
  rintro d hd hhead
  cases h.symm.trans hhead
  exact hc hd

theorem Avoids.subset (h : Avoids cs text) (hds : ds ⊆ cs) : Avoids ds text :=
  fun d hd => h d (hds hd)

theorem refuses_word (h : ¬ At w text) : Refuses (word w) text := refuses_of_not_begins h

theorem takesOn_word_bind (hw : w.toList ≠ [] ∧ IsPlain w.toList) (hnext : IsNext next)
    {f g : Unit → Reader β} (hf : ∀ u, GoesOn next (f u) (g u) after before) :
    TakesOn next (word w >>= f) (word w >>= g) after (At w) :=
  takesOn_lexeme_bind (settled_readWord hw.1 hw.2) hnext hf

end Reader

end Sdl

end SchemaAssembly
