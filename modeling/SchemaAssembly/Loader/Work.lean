import SchemaAssembly.Loader.State

/-!
Computations that may use the data loaders of their request: they load keys, dispatch loaders and
wait for answers. Two computations run side by side by waiting for the answers of either.
-/

set_option autoImplicit false

namespace SchemaAssembly

inductive Work (α : Type) where
  | done (value : α)
  /-- Goes on with a ticket, or with none if there is no such loader. -/
  | load (loader : String) (key : Json) (next : Option Ticket → Work α)
  /-- Goes on with the number of keys, or with none if there is no such loader. -/
  | dispatch (loader : String) (next : Option Nat → Work α)
  /-- Goes on with the first ticket that has an answer, given by its position. -/
  | await (tickets : List Ticket) (next : Nat → Except LoaderError Json → Work α)

namespace Work

variable {α β : Type}

def bind : Work α → (α → Work β) → Work β
  | done a, f => f a
  | load l k next, f => load l k fun t => (next t).bind f
  | dispatch l next, f => dispatch l fun n => (next n).bind f
  | await ts next, f => await ts fun i r => (next i r).bind f

def map (f : α → β) (w : Work α) : Work β := w.bind fun a => done (f a)

/-- The value of work that uses no loader. -/
def value? : Work α → Option α
  | done a => some a
  | _ => none

/-- Continues the second computation while the first waits for tickets. -/
def besideWaiting (tickets : List Ticket)
    (first : Nat → Except LoaderError Json → Work β → Work (α × β)) : Work β → Work (α × β)
  | done b => await tickets fun i r => first i r (done b)
  | load l k next => load l k fun t => besideWaiting tickets first (next t)
  | dispatch l next => dispatch l fun n => besideWaiting tickets first (next n)
  | await others next =>
    await (tickets ++ others) fun i r =>
      if i < tickets.length then first i r (await others next)
      else besideWaiting tickets first (next (i - tickets.length) r)

/-- Runs two computations side by side, the first one first wherever both can go on. -/
def beside : Work α → Work β → Work (α × β)
  | done a, w => w.map fun b => (a, b)
  | load l k next, w => load l k fun t => (next t).beside w
  | dispatch l next, w => dispatch l fun n => (next n).beside w
  | await ts next, w => besideWaiting ts (fun i r => (next i r).beside) w

/-- Runs all computations side by side and keeps their order in the results. -/
def all : List (Work α) → Work (List α)
  | [] => done []
  | w :: ws => (w.beside (all ws)).map fun p => p.1 :: p.2

/-- Runs one computation after the other until one fails. -/
def inTurn {ε : Type} : List (Work (Except ε α)) → Work (Except ε (List α))
  | [] => done (.ok [])
  | w :: ws => w.bind fun
    | .error e => done (.error e)
    | .ok a => (inTurn ws).map fun r => r.map fun as => a :: as

end Work

def Ticket.wait (t : Ticket) : Work (Except LoaderError Json) := .await [t] fun _ r => .done r

end SchemaAssembly
