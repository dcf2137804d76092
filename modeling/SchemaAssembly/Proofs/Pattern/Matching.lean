import Mathlib.Data.Nat.Basic
import Mathlib.Order.Basic
import SchemaAssembly.Pattern.Basic

/-!
Which stretches of a text a pattern spans, and that matching finds just these. A pattern between the
assertions of both ends of the text is found just if it spans the whole text.
-/

set_option autoImplicit false

namespace SchemaAssembly

def Times (r : Nat → Nat → Prop) : Nat → Nat → Nat → Prop
  | 0, i, j => i = j
  | n + 1, i, k => ∃ j, r i j ∧ Times r n j k

section Steps

variable {r : Nat → Nat → Prop} {i j k n least : Nat}

theorem times_add {m : Nat} : Times r (m + n) i k ↔ ∃ j, Times r m i j ∧ Times r n j k := by
  induction m generalizing i with
  | zero => simp [Times]
  | succ m ih =>
    rw [Nat.succ_add]
    simp only [Times, ih]
    constructor
    · rintro ⟨x, hx, j, hj, hk⟩
      exact ⟨j, ⟨x, hx, hj⟩, hk⟩
    · rintro ⟨j, ⟨x, hx, hj⟩, hk⟩
      exact ⟨x, hx, j, hj, hk⟩

theorem Times.le (hr : ∀ {i j}, r i j → i ≤ j) (h : Times r n i j) : i ≤ j := by
  induction n generalizing i with
  | zero => exact h.le
  | succ n ih =>
    obtain ⟨x, hx, hn⟩ := h
    exact (hr hx).trans (ih hn)

theorem Times.le_bound {b : Nat} (hr : ∀ {i j}, r i j → i ≤ b → j ≤ b) (h : Times r n i j)
    (hi : i ≤ b) : j ≤ b := by
  induction n generalizing i with
  | zero => exact h ▸ hi
  | succ n ih =>
    obtain ⟨x, hx, hn⟩ := h
    exact ih hn (hr hx hi)

theorem Times.shorten (hr : ∀ {i j}, r i j → i ≤ j) (h : Times r n i j) :
    ∃ m, m ≤ n ∧ m ≤ j - i ∧ Times r m i j := by
  induction n generalizing i with
  | zero => exact ⟨0, le_rfl, Nat.zero_le _, h⟩
  | succ n ih =>
    obtain ⟨x, hx, hn⟩ := h
    obtain ⟨m, hmn, hm, htimes⟩ := ih hn
    rcases (hr hx).eq_or_lt with rfl | hlt
    · exact ⟨m, by omega, hm, htimes⟩
    · have hxj := Times.le hr hn
      exact ⟨m + 1, by omega, by omega, x, hx, htimes⟩

end Steps

def around (cs : List Char) (i : Nat) : Surroundings :=
  ⟨if i = 0 then none else cs[i - 1]?, cs[i]?⟩

theorem length_surroundings (before : Option Char) (cs : List Char) :
    (surroundings before cs).length = cs.length + 1 := by
  induction cs generalizing before with
  | nil => rfl
  | cons c cs ih => simp [surroundings, ih]

theorem getElem?_surroundings (before : Option Char) {cs : List Char} {i : Nat}
    (h : i ≤ cs.length) :
    (surroundings before cs)[i]? = some ⟨if i = 0 then before else cs[i - 1]?, cs[i]?⟩ := by
  induction cs generalizing before i with
  | nil =>
    obtain rfl : i = 0 := Nat.le_zero.mp h
    rfl
  | cons c cs ih =>
    cases i with
    | zero => rfl
    | succ i =>
      rw [surroundings, List.getElem?_cons_succ, ih (some c) (Nat.le_of_succ_le_succ h)]
      cases i with
      | zero => rfl
      | succ i => simp

theorem getElem?_surroundings_none {cs : List Char} {i : Nat} (h : i ≤ cs.length) :
    (surroundings none cs)[i]? = some (around cs i) :=
  getElem?_surroundings none h

theorem startText_holds {cs : List Char} {i : Nat} (h : i ≤ cs.length) :
    Assertion.startText.holds (around cs i) = true ↔ i = 0 := by
  cases i with
  | zero => simp [Assertion.holds, around]
  | succ i =>
    simp only [Assertion.holds, around, Option.isNone_iff_eq_none]
    simp
    omega

theorem endText_holds {cs : List Char} {i : Nat} (h : i ≤ cs.length) :
    Assertion.endText.holds (around cs i) = true ↔ i = cs.length := by
  simp only [Assertion.holds, around, Option.isNone_iff_eq_none, List.getElem?_eq_none_iff]
  omega

namespace Pattern

/-- The pattern spans the text between the two positions. -/
def Spans (cs : List Char) : Pattern → Nat → Nat → Prop
  | empty, i, j => i = j
  | char set, i, j => inSet set cs[i]? = true ∧ i + 1 = j
  | look a, i, j => a.holds (around cs i) = true ∧ i = j
  | seq p q, i, k => ∃ j, p.Spans cs i j ∧ q.Spans cs j k
  | alt p q, i, j => p.Spans cs i j ∨ q.Spans cs i j
  | repeated p least most, i, j =>
    ∃ n, (∀ m ∈ most, n ≤ m - least) ∧ Times (p.Spans cs) (least + n) i j

section Spans

variable {cs : List Char} {i j : Nat}

theorem lt_of_inSet {set : CharSet} (h : inSet set cs[i]? = true) : i < cs.length := by
  by_contra hi
  rw [List.getElem?_eq_none (Nat.le_of_not_lt hi)] at h
  simp [inSet] at h

theorem Spans.le {p : Pattern} (h : p.Spans cs i j) : i ≤ j := by
  induction p generalizing i j with
  | empty => exact h.le
  | char set => exact Nat.le_of_lt (Nat.lt_of_succ_le h.2.le)
  | look a => exact h.2.le
  | seq p q ihp ihq =>
    obtain ⟨x, hp, hq⟩ := h
    exact (ihp hp).trans (ihq hq)
  | alt p q ihp ihq => exact h.elim ihp ihq
  | repeated p least most ih =>
    obtain ⟨n, -, h⟩ := h
    exact h.le ih

theorem Spans.le_length {p : Pattern} (h : p.Spans cs i j) (hi : i ≤ cs.length) :
    j ≤ cs.length := by
  induction p generalizing i j with
  | empty => exact h ▸ hi
  | char set => exact h.2 ▸ lt_of_inSet h.1
  | look a => exact h.2 ▸ hi
  | seq p q ihp ihq =>
    obtain ⟨x, hp, hq⟩ := h
    exact ihq hq (ihp hp hi)
  | alt p q ihp ihq => exact h.elim (ihp · hi) (ihq · hi)
  | repeated p least most ih =>
    obtain ⟨n, -, h⟩ := h
    exact h.le_bound ih hi

end Spans

/-- One step of the sets of reached positions follows a relation. -/
def Follows (cs : List Char) (f : Reached → Reached) (r : Nat → Nat → Prop) : Prop :=
  ∀ m : Reached, m.length = cs.length + 1 → (f m).length = cs.length + 1 ∧
    ∀ j, (f m)[j]? = some true ↔ ∃ i, m[i]? = some true ∧ r i j

section Reached

variable {cs : List Char} {f g : Reached → Reached} {r s : Nat → Nat → Prop}

theorem le_of_reached {m : Reached} {i : Nat} (hm : m.length = cs.length + 1)
    (hi : m[i]? = some true) : i ≤ cs.length := by
  have hlt := (List.getElem?_eq_some_iff.mp hi).1
  omega

theorem eitherReached_eq_true {a b : Reached} (h : a.length = b.length) (j : Nat) :
    (eitherReached a b)[j]? = some true ↔ a[j]? = some true ∨ b[j]? = some true := by
  unfold eitherReached
  rw [List.getElem?_zipWith]
  rcases lt_or_ge j a.length with hj | hj
  · rw [List.getElem?_eq_getElem hj, List.getElem?_eq_getElem (h ▸ hj)]
    simp
  · rw [List.getElem?_eq_none hj, List.getElem?_eq_none (h ▸ hj)]
    simp

theorem length_eitherReached {a b : Reached} (h : a.length = b.length) :
    (eitherReached a b).length = a.length := by
  simp [eitherReached, h]

theorem Follows.comp (hf : Follows cs f r) (hg : Follows cs g s) :
    Follows cs (fun m => g (f m)) fun i k => ∃ j, r i j ∧ s j k := by
  intro m hm
  obtain ⟨hlen, hreach⟩ := hf m hm
  refine ⟨(hg _ hlen).1, fun k => ?_⟩
  rw [(hg _ hlen).2]
  simp only [hreach]
  constructor
  · rintro ⟨j, ⟨i, hi, hj⟩, hk⟩
    exact ⟨i, hi, j, hj, hk⟩
  · rintro ⟨i, hi, j, hj, hk⟩
    exact ⟨j, ⟨i, hi, hj⟩, hk⟩

theorem Follows.either (hf : Follows cs f r) (hg : Follows cs g s) :
    Follows cs (fun m => eitherReached (f m) (g m)) fun i j => r i j ∨ s i j := by
  intro m hm
  have hlen : (f m).length = (g m).length := (hf m hm).1.trans (hg m hm).1.symm
  refine ⟨(length_eitherReached hlen).trans (hf m hm).1, fun j => ?_⟩
  rw [eitherReached_eq_true hlen, (hf m hm).2, (hg m hm).2]
  simp only [and_or_left, exists_or]

theorem follows_id : Follows cs (fun m => m) fun i j => i = j :=
  fun m hm => ⟨hm, fun j => by simp⟩

theorem Follows.iterate (hf : Follows cs f r) (n : Nat) :
    Follows cs (iterate f n) (Times r n) := by
  induction n with
  | zero => exact follows_id
  | succ n ih => exact hf.comp ih

theorem Follows.reachedWithin (hf : Follows cs f r) (n : Nat) :
    Follows cs (reachedWithin f n) fun i j => ∃ k ≤ n, Times r k i j := by
  induction n with
  | zero =>
    intro m hm
    refine ⟨hm, fun j => ?_⟩
    simp [SchemaAssembly.reachedWithin, Times]
  | succ n ih =>
    intro m hm
    obtain ⟨hlen, hreach⟩ := (follows_id.either hf).comp ih m hm
    refine ⟨hlen, fun j => (hreach j).trans (exists_congr fun i => and_congr_right fun _ => ?_)⟩
    constructor
    · rintro ⟨x, rfl | hx, k, hk, htimes⟩
      · exact ⟨k, by omega, htimes⟩
      · exact ⟨k + 1, by omega, x, hx, htimes⟩
    · rintro ⟨k, hk, htimes⟩
      cases k with
      | zero => exact ⟨i, .inl rfl, 0, Nat.zero_le _, htimes⟩
      | succ k =>
        obtain ⟨x, hx, htimes⟩ := htimes
        exact ⟨x, .inr hx, k, by omega, htimes⟩

theorem Follows.congr (hf : Follows cs f r)
    (h : ∀ i j, i ≤ cs.length → (r i j ↔ s i j)) : Follows cs f s := by
  intro m hm
  refine ⟨(hf m hm).1, fun j => ((hf m hm).2 j).trans (exists_congr fun i => ?_)⟩
  exact and_congr_right fun hi => h i j (le_of_reached hm hi)

end Reached

section Matching

variable {cs : List Char}

/-- A limit on the steps need not go beyond the length of the text. -/
theorem Follows.reachedWithin_limit {f : Reached → Reached} {r : Nat → Nat → Prop}
    (hf : Follows cs f r) (hforward : ∀ {i j}, r i j → i ≤ j)
    (hinside : ∀ {i j}, r i j → i ≤ cs.length → j ≤ cs.length) {limit : Nat} {ok : Nat → Prop}
    (hlimit : ∀ n ≤ cs.length, n ≤ limit ↔ ok n) (hok : ∀ {k n}, k ≤ n → ok n → ok k) :
    Follows cs (SchemaAssembly.reachedWithin f limit) fun i j => ∃ n, ok n ∧ Times r n i j := by
  -- Few steps lead where many steps lead.
  have hshort {n i j : Nat} (h : Times r n i j) (hi : i ≤ cs.length) :
      ∃ k ≤ n, k ≤ cs.length ∧ Times r k i j := by
    obtain ⟨k, hkn, hk, htimes⟩ := h.shorten hforward
    have hj := h.le_bound hinside hi
    exact ⟨k, hkn, by omega, htimes⟩
  refine (hf.reachedWithin limit).congr fun i j hi => ?_
  constructor
  · rintro ⟨n, hn, htimes⟩
    obtain ⟨k, hkn, hk, htimes⟩ := hshort htimes hi
    exact ⟨k, (hlimit k hk).mp (hkn.trans hn), htimes⟩
  · rintro ⟨n, hn, htimes⟩
    obtain ⟨k, hkn, hk, htimes⟩ := hshort htimes hi
    exact ⟨k, (hlimit k hk).mpr (hok hkn hn), htimes⟩

theorem getElem?_zipWith_surroundings (test : Surroundings → Bool) {m : Reached}
    (hm : m.length = cs.length + 1) (i : Nat) :
    (List.zipWith (fun s b => b && test s) (surroundings none cs) m)[i]? = some true ↔
      m[i]? = some true ∧ test (around cs i) = true := by
  rw [List.getElem?_zipWith]
  rcases Nat.lt_or_ge cs.length i with hi | hi
  · simp [List.getElem?_eq_none (show m.length ≤ i by omega)]
  · rw [getElem?_surroundings_none hi, List.getElem?_eq_getElem (show i < m.length by omega)]
    simp

theorem follows_char (set : CharSet) :
    Follows cs ((char set).advance (surroundings none cs)) ((char set).Spans cs) := by
  intro m hm
  have hlen := length_surroundings none cs
  refine ⟨by simp [advance, hm, hlen], fun j => ?_⟩
  cases j with
  | zero => simp [advance, Spans]
  | succ i =>
    have hiff : ((char set).advance (surroundings none cs) m)[i + 1]? = some true ↔
        m[i]? = some true ∧ inSet set cs[i]? = true := by
      rw [advance, List.getElem?_cons_succ, List.getElem?_dropLast]
      split
      · exact getElem?_zipWith_surroundings (fun s => inSet set s.after) hm i
      · -- After the last position there is no character.
        simp only [reduceCtorEq, false_iff, not_and]
        intro _ hset
        have hi := lt_of_inSet hset
        simp_all
    simp [hiff, Spans]

theorem follows_look (a : Assertion) :
    Follows cs ((look a).advance (surroundings none cs)) ((look a).Spans cs) := by
  intro m hm
  have hlen := length_surroundings none cs
  refine ⟨by simp [advance, hm, hlen], fun j => ?_⟩
  rw [advance, getElem?_zipWith_surroundings a.holds hm j]
  simp only [Spans, ← and_assoc, exists_eq_right]

/-- From each position, matching reaches the ends of the spans that begin there. -/
theorem follows_advance (cs : List Char) (p : Pattern) :
    Follows cs (p.advance (surroundings none cs)) (p.Spans cs) := by
  induction p with
  | empty => exact follows_id
  | char set => exact follows_char set
  | look a => exact follows_look a
  | seq p q ihp ihq => exact ihp.comp ihq
  | alt p q ihp ihq => exact ihp.either ihq
  | repeated p least most ih =>
    let limit : Nat := most.elim (cs.length + 1) fun m =>
      if m - least < cs.length + 1 then m - least else cs.length + 1
    have hadvance : (repeated p least most).advance (surroundings none cs) = fun m =>
        reachedWithin (p.advance (surroundings none cs)) limit
          (iterate (p.advance (surroundings none cs)) least m) := by
      funext m
      simp only [limit, ← length_surroundings none cs]
      cases most <;> rfl
    have hlimit (n : Nat) (hn : n ≤ cs.length) : n ≤ limit ↔ ∀ m ∈ most, n ≤ m - least := by
      cases most with
      | none => simpa [limit] using hn.trans (Nat.le_succ _)
      | some m =>
        simp only [limit, Option.elim_some, Option.mem_some_iff, forall_eq']
        split <;> omega
    have hmore := ih.reachedWithin_limit Spans.le Spans.le_length hlimit
      fun hkn h m hm => hkn.trans (h m hm)
    rw [hadvance]
    refine ((ih.iterate least).comp hmore).congr fun i j _ => ?_
    simp only [Spans, times_add]
    constructor
    · rintro ⟨x, hx, n, hn, htimes⟩
      exact ⟨n, hn, x, hx, htimes⟩
    · rintro ⟨n, hn, x, hx, htimes⟩
      exact ⟨x, hx, n, hn, htimes⟩

/-- A pattern is found just if it spans some stretch of the text. -/
theorem isFoundIn_iff (p : Pattern) (s : String) :
    p.isFoundIn s = true ↔ ∃ i j, i ≤ s.toList.length ∧ p.Spans s.toList i j := by
  have hlen := length_surroundings none s.toList
  have hstart (i : Nat) :
      ((surroundings none s.toList).map fun _ => true)[i]? = some true ↔ i ≤ s.toList.length := by
    rw [List.getElem?_map]
    rcases Nat.lt_or_ge s.toList.length i with hi | hi
    · simp [List.getElem?_eq_none (show (surroundings none s.toList).length ≤ i by omega)]
      omega
    · simp [getElem?_surroundings_none hi, hi]
  have hreach := (follows_advance s.toList p ((surroundings none s.toList).map fun _ => true)
    (by rw [List.length_map, hlen])).2
  simp only [isFoundIn, List.any_eq_true, id_eq, exists_eq_right, List.mem_iff_getElem?, hreach,
    hstart]
  exact exists_comm

def covers (p : Pattern) (cs : List Char) (i j : Nat) : Bool :=
  (p.advance (surroundings none cs) ((List.range (cs.length + 1)).map (· == i)))[j]? == some true

theorem covers_iff (p : Pattern) (cs : List Char) (i j : Nat) :
    p.covers cs i j = true ↔ i ≤ cs.length ∧ p.Spans cs i j := by
  have hstart (k : Nat) : ((List.range (cs.length + 1)).map (· == i))[k]? = some true ↔
      i ≤ cs.length ∧ k = i := by
    rw [List.getElem?_map]
    rcases Nat.lt_or_ge cs.length k with hk | hk
    · rw [List.getElem?_eq_none (by rw [List.length_range]; exact hk)]
      simp
      omega
    · rw [List.getElem?_range (Nat.lt_succ_of_le hk)]
      simp
      omega
  have hlen : ((List.range (cs.length + 1)).map (· == i)).length = cs.length + 1 := by simp
  have hreach := (follows_advance cs p _ hlen).2 j
  rw [covers, beq_iff_eq, hreach]
  simp only [hstart, and_assoc, exists_and_left, exists_eq_left]

def framed (p : Pattern) : Pattern :=
  .seq (.look .startText) (.seq p (.seq (.look .endText) .empty))

theorem spans_framed {p : Pattern} {i j : Nat} (hi : i ≤ cs.length) :
    p.framed.Spans cs i j ↔ i = 0 ∧ j = cs.length ∧ p.Spans cs i j := by
  constructor
  · rintro ⟨_, ⟨hstart, rfl⟩, k, hp, _, ⟨hend, rfl⟩, rfl⟩
    exact ⟨(startText_holds hi).mp hstart, (endText_holds (hp.le_length hi)).mp hend, hp⟩
  · rintro ⟨rfl, rfl, hp⟩
    exact ⟨0, ⟨(startText_holds hi).mpr rfl, rfl⟩, _, hp, _, ⟨(endText_holds le_rfl).mpr rfl, rfl⟩,
      rfl⟩

end Matching

end Pattern

end SchemaAssembly
