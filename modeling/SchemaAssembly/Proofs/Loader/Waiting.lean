import Mathlib.Data.List.Forall2
import SchemaAssembly.Proofs.Loader.Sessions

/-!
Waits for loads whose values are computed. The wait for several tickets gives the values of their
keys in order, and it ends once none of the waiters is queued or in flight.
-/

set_option autoImplicit false

namespace SchemaAssembly

namespace Work

variable {α β : Type} {I J : Json → Ticket → Prop} {g : Json → Json}

/-- Work that waits for tickets of known keys and, if each of them answers with the value of its
key, ends with a result as it should. -/
def Gives (I : Json → Ticket → Prop) (g : Json → Json) (post : α → Prop) : Work α → Prop
  | done a => post a
  | load _ _ _ => False
  | dispatch _ _ => False
  | await tickets next => ∃ keys : List Json, tickets ≠ [] ∧ List.Forall₂ I keys tickets ∧
      ∀ (i : Nat) (key : Json), keys[i]? = some key → (next i (.ok (g key))).Gives I g post

theorem Gives.mono {post : α → Prop} {w : Work α} (h : w.Gives I g post)
    (hIJ : ∀ key t, I key t → J key t) : w.Gives J g post := by
  induction w with
  | done a => exact h
  | load n key next ih => exact h
  | dispatch n next ih => exact h
  | await tickets next ih =>
    obtain ⟨keys, hne, hkeys, hnext⟩ := h
    exact ⟨keys, hne, hkeys.imp hIJ, fun i key hi => ih i _ (hnext i key hi)⟩

theorem Gives.bind {post : α → Prop} {post' : β → Prop} {w : Work α} {f : α → Work β}
    (h : w.Gives I g post) (hf : ∀ a, post a → (f a).Gives I g post') :
    (w.bind f).Gives I g post' := by
  induction w with
  | done a => exact hf a h
  | load n key next ih => exact absurd h id
  | dispatch n next ih => exact absurd h id
  | await tickets next ih =>
    obtain ⟨keys, hne, hkeys, hnext⟩ := h
    exact ⟨keys, hne, hkeys, fun i key hi => ih i _ (hnext i key hi)⟩

theorem Gives.map {post : α → Prop} {post' : β → Prop} {w : Work α} {f : α → β}
    (h : w.Gives I g post) (hf : ∀ a, post a → post' (f a)) : (w.map f).Gives I g post' :=
  h.bind hf

theorem gives_besideWaiting {post : β → Prop} {post' : α × β → Prop} {tickets : List Ticket}
    {keys : List Json} {first : Nat → Except LoaderError Json → Work β → Work (α × β)}
    {w : Work β} (hne : tickets ≠ []) (hkeys : List.Forall₂ I keys tickets)
    (hfirst : ∀ (i : Nat) (key : Json) (v : Work β), keys[i]? = some key → v.Gives I g post →
      (first i (.ok (g key)) v).Gives I g post')
    (h : w.Gives I g post) : (besideWaiting tickets first w).Gives I g post' := by
  induction w with
  | done b => exact ⟨keys, hne, hkeys, fun i key hi => hfirst i key (.done b) hi h⟩
  | load n key next ih => exact absurd h id
  | dispatch n next ih => exact absurd h id
  | await others next ih =>
    have hwait := h
    obtain ⟨keys', -, hkeys', hnext⟩ := h
    refine ⟨keys ++ keys', by simp [hne], List.rel_append hkeys hkeys', ?_⟩
    intro i key hi
    have hlen := hkeys.length_eq
    by_cases hlt : i < tickets.length
    · rw [List.getElem?_append_left (by omega)] at hi
      simp only [hlt, if_true]
      exact hfirst i key (.await others next) hi hwait
    · rw [List.getElem?_append_right (by omega), hlen] at hi
      simp only [hlt, if_false]
      exact ih _ _ (hnext _ key hi)

theorem Gives.beside {post : α → Prop} {post' : β → Prop} {w : Work α} {v : Work β}
    (h : w.Gives I g post) (hv : v.Gives I g post') :
    (w.beside v).Gives I g fun p => post p.1 ∧ post' p.2 := by
  induction w generalizing v with
  | done a => exact hv.map fun b hb => ⟨h, hb⟩
  | load n key next ih => exact absurd h id
  | dispatch n next ih => exact absurd h id
  | await tickets next ih =>
    obtain ⟨keys, hne, hkeys, hnext⟩ := h
    exact gives_besideWaiting hne hkeys (fun i key u hi hu => ih i _ (hnext i key hi) hu) hv

theorem gives_wait {key : Json} {t : Ticket} (h : I key t) :
    t.wait.Gives I g (· = .ok (g key)) := by
  refine ⟨[key], List.cons_ne_nil _ _, .cons h .nil, ?_⟩
  intro i k hi
  cases i with
  | zero => exact congrArg (fun k => Except.ok (g k)) (Option.some.inj hi).symm
  | succ i => simp at hi

theorem gives_all {keys : List Json} {tickets : List Ticket} (h : List.Forall₂ I keys tickets) :
    (all (tickets.map Ticket.wait)).Gives I g (· = keys.map fun key => .ok (g key)) := by
  induction h with
  | nil => rfl
  | cons hkey _ ih =>
    refine ((gives_wait hkey).beside ih).map ?_
    rintro ⟨r, rs⟩ ⟨hr, hrs⟩
    rw [hr, hrs, List.map_cons]

end Work

namespace Loader

variable {P : List Json → Except HandlerError (List Json) → Prop} {g : Json → Json}
  {l t : Loader} {key : Json} {ticket : Ticket}

/-- The waiter of the ticket is not in flight. -/
def Placed (l : Loader) : Ticket → Prop
  | .queued _ w => w ∈ l.queuedWaiters ∨ w ∈ l.settledWaiters
  | _ => True

/-- The ticket can be answered now. -/
def Ready (l : Loader) : Ticket → Prop
  | .queued _ w => w ∈ l.settledWaiters
  | _ => True

theorem Ready.placed (h : l.Ready ticket) : l.Placed ticket := by
  cases ticket with
  | queued n w => exact .inr h
  | answered value => trivial
  | direct n k => trivial

theorem Ready.reach (h : l.Ready ticket) (ht : Reach P l t) : t.Ready ticket := by
  cases ticket with
  | queued n w => exact ht.settledWaiters_subset h
  | answered value => trivial
  | direct n k => trivial

theorem Issued.placed_of_direct (h : l.Issued g key ticket) (hb : l.options.batching = false) :
    l.Placed ticket := by
  cases ticket with
  | queued n w =>
    obtain ⟨-, hb', -⟩ := h
    rw [hb] at hb'
    cases hb'
  | answered value => trivial
  | direct n k => trivial

theorem WellFormed.queuedWaiters_load (hl : l.WellFormed) (key : Json) :
    l.queuedWaiters ⊆ (l.load key).1.queuedWaiters := by
  cases hc : l.cached? key with
  | some value =>
    rw [load_hit hc]
    exact List.Subset.refl _
  | none =>
    cases hb : l.options.batching with
    | false =>
      rw [load_direct hc hb]
      exact List.Subset.refl _
    | true =>
      have hperm := (hl.queued_of_miss hb hc).2.1
      intro w hw
      exact hperm.mem_iff.mpr (List.mem_append_left _ hw)

theorem Placed.load (h : l.Placed ticket) (hl : l.WellFormed) (key : Json) :
    (l.load key).1.Placed ticket := by
  cases ticket with
  | queued n w =>
    rcases h with h | h
    · exact .inl (hl.queuedWaiters_load key h)
    · exact .inr (l.settledWaiters_step (.load key) h)
  | answered value => trivial
  | direct n k => trivial

theorem WellFormed.placed_load (hl : l.WellFormed) (key : Json) :
    (l.load key).1.Placed (l.load key).2 := by
  cases hc : l.cached? key with
  | some value =>
    rw [load_hit hc]
    trivial
  | none =>
    cases hb : l.options.batching with
    | false =>
      rw [load_direct hc hb]
      trivial
    | true =>
      obtain ⟨hticket, hperm, -⟩ := hl.queued_of_miss hb hc
      rw [hticket]
      exact .inl (hperm.mem_iff.mpr (List.mem_append_right _ (List.mem_singleton_self _)))

/-- A ticket that a client of the loader may hold between its calls. -/
def Held (g : Json → Json) (l : Loader) (key : Json) (ticket : Ticket) : Prop :=
  l.Issued g key ticket ∧ l.Placed ticket

end Loader

namespace Session

variable {g : Json → Json} {name : String} {batch : BatchLoader} {s : Session} {l t : Loader}
  {call : Caller} {key : Json} {ticket : Ticket}

/-- A batching loader hands out no ticket that calls its batch function. -/
theorem askBy_of_batching (ht : l.Issued g key ticket) (hb : l.options.batching = true) :
    (askBy call s ticket).1 = s := by
  cases ticket with
  | answered value => rfl
  | queued n w =>
    simp only [askBy]
    split <;> rfl
  | direct n k =>
    obtain ⟨-, hb', -⟩ := ht
    rw [hb] at hb'
    cases hb'

theorem askFirst_of_batching {keys : List Json} {tickets : List Ticket} (i : Nat)
    (hkeys : List.Forall₂ (l.Issued g) keys tickets) (hb : l.options.batching = true) :
    (askFirst call s i tickets).1 = s := by
  induction hkeys generalizing i with
  | nil => rfl
  | @cons key ticket _ rest hkey _ ih =>
    have hask : (askBy call s ticket).1 = s := askBy_of_batching hkey hb
    rw [askFirst_cons, hask]
    cases (askBy call s ticket).2 with
    | some r => rfl
    | none => exact ih (i + 1)

theorem askFirst_issued (hcall : Sound (Loader.Computed g) name batch call)
    {tickets : List Ticket} {keys : List Json} (hkeys : List.Forall₂ (l.Issued g) keys tickets)
    (h : s.Runs name batch l) (hl : l.WellFormed) (hd : s.dropped = false) (i : Nat)
    {p : Nat × Except LoaderError Json} (hp : (askFirst call s i tickets).2 = some p) :
    ∃ (j : Nat) (key : Json), p = (i + j, .ok (g key)) ∧ keys[j]? = some key := by
  induction tickets generalizing keys s l i with
  | nil => cases hp
  | cons ticket rest ih =>
    cases hkeys with
    | @cons key _ more _ hkey hrest =>
      rw [askFirst_cons] at hp
      cases hr : (askBy call s ticket).2 with
      | some r =>
        have hval := askBy_issued hcall h hl hd hkey hr
        rw [hr] at hp
        refine ⟨0, key, ?_, rfl⟩
        rw [← Option.some.inj hp, hval, Nat.add_zero]
      | none =>
        rw [hr] at hp
        obtain ⟨t, ht⟩ := leads_askBy hcall ticket h hl
        obtain ⟨j, k, hpj, hk⟩ := ih (hrest.imp fun _ _ hi => hi.reach ht.reach) ht.runs
          (ht.reach.wellFormed hl) (ht.dropped.trans hd) (i + 1) hp
        exact ⟨j + 1, k, by rw [hpj, Nat.add_right_comm, Nat.add_assoc], hk⟩

section Advance

variable {α : Type} {post : α → Prop} {w : Work α}

theorem advanceBy_gives (hcall : Sound (Loader.Computed g) name batch call)
    (hw : w.Gives (l.Issued g) g post) (h : s.Runs name batch l) (hl : l.WellFormed)
    (hd : s.dropped = false) :
    ∃ t, Leads (Loader.Computed g) name batch s l (advanceBy call s w).1 t ∧
      (advanceBy call s w).2.Gives (t.Issued g) g post := by
  induction w generalizing s l with
  | done a => exact ⟨l, .refl h, hw⟩
  | load n key next ih => exact absurd hw id
  | dispatch n next ih => exact absurd hw id
  | await tickets next ih =>
    obtain ⟨t, ht⟩ := leads_askFirst hcall tickets 0 h hl
    have hkeep : ∀ key ticket, l.Issued g key ticket → t.Issued g key ticket :=
      fun _ _ hi => hi.reach ht.reach
    rw [advanceBy_await]
    cases hp : (askFirst call s 0 tickets).2 with
    | none => exact ⟨t, ht, hw.mono hkeep⟩
    | some p =>
      obtain ⟨keys, -, hkeys, hnext⟩ := hw
      obtain ⟨j, key, rfl, hj⟩ := askFirst_issued hcall hkeys h hl hd 0 hp
      rw [Nat.zero_add]
      obtain ⟨u, hu, hgives⟩ := ih j (.ok (g key)) ((hnext j key hj).mono hkeep) ht.runs
        (ht.reach.wellFormed hl) (ht.dropped.trans hd)
      exact ⟨u, ht.trans hu, hgives⟩

theorem advanceBy_of_batching (hcall : Sound (Loader.Computed g) name batch call)
    (hw : w.Gives (l.Held g) g post) (h : s.Runs name batch l) (hl : l.WellFormed)
    (hd : s.dropped = false) (hb : l.options.batching = true) :
    (advanceBy call s w).1 = s ∧ (advanceBy call s w).2.Gives (l.Held g) g post := by
  induction w with
  | done a => exact ⟨rfl, hw⟩
  | load n key next ih => exact absurd hw id
  | dispatch n next ih => exact absurd hw id
  | await tickets next ih =>
    have hwait := hw
    obtain ⟨keys, -, hkeys, hnext⟩ := hw
    have hissued := hkeys.imp fun _ _ hi => hi.1
    have hsame : (askFirst call s 0 tickets).1 = s := askFirst_of_batching 0 hissued hb
    rw [advanceBy_await, hsame]
    cases hp : (askFirst call s 0 tickets).2 with
    | none => exact ⟨rfl, hwait⟩
    | some p =>
      obtain ⟨j, key, rfl, hj⟩ := askFirst_issued hcall hissued h hl hd 0 hp
      rw [Nat.zero_add]
      exact ih j (.ok (g key)) (hnext j key hj)

/-- Waiting leaves every ticket of the client in its place: a batching loader answers from its
state, and any other loader has no waiters. -/
theorem advanceBy_held (hcall : Sound (Loader.Computed g) name batch call)
    (hw : w.Gives (l.Held g) g post) (h : s.Runs name batch l) (hl : l.WellFormed)
    (hd : s.dropped = false) :
    ∃ t, Leads (Loader.Computed g) name batch s l (advanceBy call s w).1 t ∧
      (advanceBy call s w).2.Gives (t.Held g) g post ∧
      ∀ key ticket, l.Held g key ticket → t.Held g key ticket := by
  cases hb : l.options.batching with
  | true =>
    obtain ⟨hsame, hgives⟩ := advanceBy_of_batching hcall hw h hl hd hb
    rw [hsame]
    exact ⟨l, .refl h, hgives, fun _ _ hi => hi⟩
  | false =>
    -- Calls move the loader here, so only the tickets can be kept, not the state.
    obtain ⟨t, ht, hgives⟩ := advanceBy_gives hcall (hw.mono fun _ _ hi => hi.1) h hl hd
    have hbt : t.options.batching = false := by rw [ht.reach.options_eq, hb]
    refine ⟨t, ht, hgives.mono fun _ _ hi => ⟨hi, hi.placed_of_direct hbt⟩, ?_⟩
    intro key ticket hi
    have hit := hi.1.reach ht.reach
    exact ⟨hit, hit.placed_of_direct hbt⟩

theorem result?_of_settled {v : Nat} (hl : l.WellFormed) (hv : v ∈ l.settledWaiters) :
    ∃ r, l.result? v = some r := by
  obtain ⟨⟨w, r⟩, hp, rfl⟩ := List.mem_map.mp hv
  exact ⟨r, hl.result?_of_mem hp⟩

theorem askBy_ready (hb : batch.Computes g) (depth : Nat) (h : s.Runs name batch l)
    (hl : l.WellFormed) (ht : l.Issued g key ticket) (hr : l.Ready ticket) :
    ∃ r, (askBy (callWithin (depth + 1)) s ticket).2 = some r := by
  cases ticket with
  | answered value => exact ⟨.ok value, rfl⟩
  | queued n v =>
    obtain ⟨r, hv⟩ := result?_of_settled hl hr
    have hs : s.loader? n = some l := by rw [ht.1, h.name_eq, h.loader?]
    exact ⟨r, by simp [askBy, hs, hv]⟩
  | direct n k =>
    have hn : n = name := ht.1.trans h.name_eq
    subst hn
    obtain ⟨t, ht'⟩ := leads_startDirect (P := Loader.Computed g) n h
    obtain ⟨⟨u, hu⟩, -⟩ := sound_callWithin hb (depth + 1) (s.modify n fun l => l.countCalls 1 1)
      t n [k] ht'.runs (ht'.reach.wellFormed hl)
    rw [askBy_direct, call_computes hb depth ht'.runs [k], hu.runs.loader?]
    exact ⟨_, rfl⟩

theorem advanceBy_ready (hb : batch.Computes g) (depth : Nat)
    (hw : w.Gives (fun key ticket => l.Issued g key ticket ∧ l.Ready ticket) g post)
    (h : s.Runs name batch l) (hl : l.WellFormed) (hd : s.dropped = false) :
    ∃ a, (advanceBy (callWithin (depth + 1)) s w).2 = .done a ∧ post a := by
  have hcall : Sound (Loader.Computed g) name batch (callWithin (depth + 1)) :=
    sound_callWithin hb (depth + 1)
  induction w generalizing s l with
  | done a => exact ⟨a, rfl, hw⟩
  | load n key next ih => exact absurd hw id
  | dispatch n next ih => exact absurd hw id
  | await tickets next ih =>
    obtain ⟨keys, hne, hkeys, hnext⟩ := hw
    have hissued := hkeys.imp fun _ _ hi => hi.1
    obtain ⟨t, ht⟩ := leads_askFirst hcall tickets 0 h hl
    have hanswer : ∃ p, (askFirst (callWithin (depth + 1)) s 0 tickets).2 = some p := by
      cases hkeys with
      | nil => exact absurd rfl hne
      | cons hkey _ =>
        obtain ⟨r, hr⟩ := askBy_ready hb depth h hl hkey.1 hkey.2
        exact ⟨(0, r), by rw [askFirst_cons, hr]⟩
    obtain ⟨p, hp⟩ := hanswer
    obtain ⟨j, key, rfl, hj⟩ := askFirst_issued hcall hissued h hl hd 0 hp
    rw [advanceBy_await, hp]
    simp only [Nat.zero_add]
    exact ih j (.ok (g key))
      ((hnext j key hj).mono fun _ _ hi => ⟨hi.1.reach ht.reach, hi.2.reach ht.reach⟩)
      ht.runs (ht.reach.wellFormed hl) (ht.dropped.trans hd)

end Advance

end Session

end SchemaAssembly
