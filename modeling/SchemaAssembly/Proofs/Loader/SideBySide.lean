import Mathlib.Data.List.Forall2
import SchemaAssembly.Loader.Session

/-!
Works side by side. It makes no difference how several works are put into pairs, and the pair of two
works can end with a pair of values just if each of them can end with its own.
-/

set_option autoImplicit false

namespace SchemaAssembly

namespace Work

variable {α β γ δ : Type}

@[simp] theorem map_done (f : α → β) (a : α) : (done a).map f = done (f a) := rfl

@[simp] theorem map_load (f : α → β) (l : String) (key : Json) (next : Option Ticket → Work α) :
    (load l key next).map f = load l key fun t => (next t).map f := rfl

@[simp] theorem map_dispatch (f : α → β) (l : String) (next : Option Nat → Work α) :
    (dispatch l next).map f = dispatch l fun n => (next n).map f := rfl

@[simp] theorem map_await (f : α → β) (ts : List Ticket)
    (next : Nat → Except LoaderError Json → Work α) :
    (await ts next).map f = await ts fun i r => (next i r).map f := rfl

theorem map_map (g : β → γ) (f : α → β) (w : Work α) :
    (w.map f).map g = w.map fun a => g (f a) := by
  induction w with
  | done a => rfl
  | load l key next ih => simp only [map_load, ih]
  | dispatch l next ih => simp only [map_dispatch, ih]
  | await ts next ih => simp only [map_await, ih]

theorem map_id (w : Work α) : w.map (fun a => a) = w := by
  induction w with
  | done a => rfl
  | load l key next ih => simp only [map_load, ih]
  | dispatch l next ih => simp only [map_dispatch, ih]
  | await ts next ih => simp only [map_await, ih]

theorem besideWaiting_map {ts : List Ticket}
    {first : Nat → Except LoaderError Json → Work β → Work (α × β)}
    {second : Nat → Except LoaderError Json → Work γ → Work (δ × γ)} {f : α × β → δ × γ} {g : β → γ}
    (h : ∀ i r v, second i r (v.map g) = (first i r v).map f) (w : Work β) :
    besideWaiting ts second (w.map g) = (besideWaiting ts first w).map f := by
  induction w with
  | done b =>
    simp only [map_done, besideWaiting, map_await]
    congr 1
    funext i r
    exact h i r (done b)
  | load l key next ih => simp only [map_load, besideWaiting, ih]
  | dispatch l next ih => simp only [map_dispatch, besideWaiting, ih]
  | await us next ih =>
    simp only [map_await, besideWaiting]
    congr 1
    funext i r
    split
    · exact h i r (await us next)
    · exact ih _ _

theorem beside_map (f : α → γ) (g : β → δ) (u : Work α) (v : Work β) :
    (u.map f).beside (v.map g) = (u.beside v).map fun p => (f p.1, g p.2) := by
  induction u generalizing v with
  | done a => simp only [map_done, beside, map_map]
  | load l key next ih => simp only [map_load, beside, ih]
  | dispatch l next ih => simp only [map_dispatch, beside, ih]
  | await ts next ih =>
    simp only [map_await, beside]
    exact besideWaiting_map (fun i r w => ih i r w) v

theorem map_beside (f : α → γ) (u : Work α) (v : Work β) :
    (u.map f).beside v = (u.beside v).map fun p => (f p.1, p.2) := by
  simpa only [map_id] using beside_map f (fun b => b) u v

theorem beside_map_right (g : β → γ) (u : Work α) (v : Work β) :
    u.beside (v.map g) = (u.beside v).map fun p => (p.1, g p.2) := by
  simpa only [map_id] using beside_map (fun a => a) g u v

/-- The first two of three values in a pair of their own. -/
def pairedFirst (p : α × β × γ) : (α × β) × γ := ((p.1, p.2.1), p.2.2)

section Three

variable {ts : List Ticket} {first : Nat → Except LoaderError Json → Work β → Work (α × β)}
  {second : Nat → Except LoaderError Json → Work (β × γ) → Work (α × β × γ)}

theorem besideWaiting_done
    (h : ∀ i r v w, (first i r v).beside w = (second i r (v.beside w)).map pairedFirst) (b : β)
    (w : Work γ) : besideWaiting ts (fun i r => (first i r (done b)).beside) w =
      (besideWaiting ts second (w.map fun c => (b, c))).map pairedFirst := by
  induction w with
  | done c =>
    simp only [besideWaiting, map_done, map_await, h]
    rfl
  | load l key next ih => simp only [besideWaiting, map_load, ih]
  | dispatch l next ih => simp only [besideWaiting, map_dispatch, ih]
  | await us next ih =>
    simp only [besideWaiting, map_await]
    congr 1
    funext i r
    split
    · exact h i r (done b) (await us next)
    · exact ih _ _

/-- Both others wait as well: the tickets of all three are one list, however they are grouped. -/
theorem besideWaiting_await {us : List Ticket} {next : Nat → Except LoaderError Json → Work β}
    (h : ∀ i r v w, (first i r v).beside w = (second i r (v.beside w)).map pairedFirst)
    (hnext : ∀ i r w, (besideWaiting ts first (next i r)).beside w =
      (besideWaiting ts second ((next i r).beside w)).map pairedFirst) (w : Work γ) :
    (besideWaiting ts first (await us next)).beside w =
      (besideWaiting ts second ((await us next).beside w)).map pairedFirst := by
  simp only [besideWaiting, beside]
  induction w with
  | done c =>
    simp only [besideWaiting, map_await]
    congr 1
    funext i r
    split
    · exact h i r (await us next) (done c)
    · exact hnext _ r (done c)
  | load l key nextW ih => simp only [besideWaiting, map_load, ih]
  | dispatch l nextW ih => simp only [besideWaiting, map_dispatch, ih]
  | await vs nextW ih =>
    simp only [besideWaiting, map_await, List.append_assoc, List.length_append]
    congr 1
    funext i r
    by_cases hfirst : i < ts.length
    · have hboth : i < ts.length + us.length := by omega
      simp only [hfirst, hboth, if_true]
      exact h i r (await us next) (await vs nextW)
    · by_cases hsecond : i - ts.length < us.length
      · have hboth : i < ts.length + us.length := by omega
        simp only [hfirst, hboth, hsecond, if_true, if_false]
        exact hnext _ r (await vs nextW)
      · have hboth : ¬ i < ts.length + us.length := by omega
        simp only [hfirst, hboth, hsecond, if_false, Nat.sub_add_eq]
        exact ih _ _

/-- While the first work waits, it makes no difference whether the other two are a pair. -/
theorem besideWaiting_assoc
    (h : ∀ i r v w, (first i r v).beside w = (second i r (v.beside w)).map pairedFirst) (v : Work β)
    (w : Work γ) : (besideWaiting ts first v).beside w =
      (besideWaiting ts second (v.beside w)).map pairedFirst := by
  induction v generalizing w with
  | done b => exact besideWaiting_done h b w
  | load l key next ih => simp only [besideWaiting, beside, map_load, ih]
  | dispatch l next ih => simp only [besideWaiting, beside, map_dispatch, ih]
  | await us next ih => exact besideWaiting_await h (fun i r => ih i r) w

end Three

theorem beside_assoc (u : Work α) (v : Work β) (w : Work γ) :
    (u.beside v).beside w = (u.beside (v.beside w)).map pairedFirst := by
  induction u generalizing v w with
  | done a => simp only [beside, map_beside, map_map, pairedFirst]
  | load l key next ih => simp only [beside, map_load, ih]
  | dispatch l next ih => simp only [beside, map_dispatch, ih]
  | await ts next ih => exact besideWaiting_assoc (fun i r => ih i r) v w

end Work

structure Replies where
  tickets : String → Json → Option Ticket → Prop
  depths : String → Option Nat → Prop
  answers : Ticket → Except LoaderError Json → Prop

def Replies.any : Replies := ⟨fun _ _ _ => True, fun _ _ => True, fun _ _ => True⟩

namespace Work

variable {α β : Type} {R : Replies}

/-- The work can end with this value, given the replies. -/
def Ends (R : Replies) (a : α) : Work α → Prop
  | done b => b = a
  | load l key next => ∃ t, R.tickets l key t ∧ (next t).Ends R a
  | dispatch l next => ∃ n, R.depths l n ∧ (next n).Ends R a
  | await ts next => ∃ i t r, ts[i]? = some t ∧ R.answers t r ∧ (next i r).Ends R a

theorem ends_bind {w : Work α} {f : α → Work β} {b : β} :
    (w.bind f).Ends R b ↔ ∃ a, w.Ends R a ∧ (f a).Ends R b := by
  induction w with
  | done a => simp [bind, Ends]
  | load l key next ih =>
    simp only [bind, Ends, ih]
    grind
  | dispatch l next ih =>
    simp only [bind, Ends, ih]
    grind
  | await ts next ih =>
    simp only [bind, Ends, ih]
    grind

theorem ends_map {w : Work α} {f : α → β} {b : β} :
    (w.map f).Ends R b ↔ ∃ a, w.Ends R a ∧ f a = b := ends_bind

theorem ends_besideWaiting {ts : List Ticket} {next : Nat → Except LoaderError Json → Work α}
    {first : Nat → Except LoaderError Json → Work β → Work (α × β)} {p : α × β}
    (h : ∀ i r v, (first i r v).Ends R p ↔ (next i r).Ends R p.1 ∧ v.Ends R p.2) (v : Work β) :
    (besideWaiting ts first v).Ends R p ↔ (await ts next).Ends R p.1 ∧ v.Ends R p.2 := by
  induction v with
  | done b =>
    simp only [besideWaiting, Ends, h]
    grind
  | load l key nextV ih =>
    simp only [besideWaiting, Ends] at ih ⊢
    simp only [ih]
    grind
  | dispatch l nextV ih =>
    simp only [besideWaiting, Ends] at ih ⊢
    simp only [ih]
    grind
  | await us nextV ih =>
    simp only [besideWaiting, Ends]
    simp only [Ends] at ih
    constructor
    · rintro ⟨i, t, r, hi, hr, hend⟩
      by_cases hlt : i < ts.length
      · rw [List.getElem?_append_left hlt] at hi
        rw [if_pos hlt, h] at hend
        exact ⟨⟨i, t, r, hi, hr, hend.1⟩, hend.2⟩
      · rw [List.getElem?_append_right (Nat.le_of_not_lt hlt)] at hi
        rw [if_neg hlt, ih] at hend
        exact ⟨hend.1, ⟨_, t, r, hi, hr, hend.2⟩⟩
    · rintro ⟨⟨i, t, r, hi, hr, hend⟩, hwait⟩
      obtain ⟨hlt, -⟩ := List.getElem?_eq_some_iff.mp hi
      refine ⟨i, t, r, by rwa [List.getElem?_append_left hlt], hr, ?_⟩
      rw [if_pos hlt, h]
      exact ⟨hend, hwait⟩

theorem ends_beside {u : Work α} {v : Work β} {p : α × β} :
    (u.beside v).Ends R p ↔ u.Ends R p.1 ∧ v.Ends R p.2 := by
  induction u generalizing v with
  | done a =>
    rw [beside, ends_map]
    simp only [Ends, Prod.ext_iff]
    grind
  | load l key next ih =>
    simp only [beside, Ends, ih]
    grind
  | dispatch l next ih =>
    simp only [beside, Ends, ih]
    grind
  | await ts next ih => exact ends_besideWaiting (fun i r w => ih i r) v

/-- Works side by side can end with these values just if each of them can end with its own. -/
theorem ends_all {ws : List (Work α)} {as : List α} :
    (all ws).Ends R as ↔ List.Forall₂ (fun w a => w.Ends R a) ws as := by
  induction ws generalizing as with
  | nil =>
    rw [all, List.forall₂_nil_left_iff]
    exact eq_comm
  | cons w ws ih =>
    rw [all, ends_map]
    constructor
    · rintro ⟨⟨a, rest⟩, hends, rfl⟩
      rw [ends_beside, ih] at hends
      exact .cons hends.1 hends.2
    · intro hends
      cases hends with
      | @cons _ a _ rest ha hrest => exact ⟨(a, rest), ends_beside.mpr ⟨ha, ih.mpr hrest⟩, rfl⟩

end Work

end SchemaAssembly
