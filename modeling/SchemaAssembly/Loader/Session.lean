import SchemaAssembly.Loader.Clock
import SchemaAssembly.Loader.Definition

/-!
The data loaders of one request. A dispatch calls the batch functions of its chunks one after the
other; a batch function may itself load and dispatch. Loaders with a predicate are dispatched one
by one, before the group of all others. The clock is read when a loader is made, when a dispatch
starts and when a predicate is asked; any time may pass between two readings.
-/

set_option autoImplicit false

namespace SchemaAssembly

structure ActiveLoader where
  batch : BatchLoader
  consumesRegistry : Bool
  predicate : Option DispatchPredicate
  state : Loader

structure Session where
  /-- In the order of registration. -/
  loaders : List ActiveLoader
  clock : Clock
  context : RequestContext := .empty
  /-- Whether the loaders can be reached by their names. -/
  hasRegistry : Bool := true
  /-- Whether the loaders were given up; nobody waits in their queues any more. -/
  dropped : Bool := false
  /-- Every call of a batch function so far: its label and the keys. -/
  calls : List (String × List Json) := []

namespace Session

/-- The loaders of the definitions, made one after the other. -/
def startLoaders (t : LoaderTable) (clock : Clock) : List LoaderDefinition → List ActiveLoader
  | [] => []
  | d :: rest =>
    ⟨t.instrumented d, d.batch.consumesRegistry, d.predicate,
      { name := d.name, options := d.options, lastDispatch := clock.now }⟩ ::
        startLoaders t clock.next rest

def ofTable (t : LoaderTable) (clock : Clock) (context : RequestContext) : Session where
  loaders := startLoaders t clock t.definitions
  clock := clock.after t.definitions.length
  context := context

def ofLoader (name : String) (batch : BatchLoader) (options : LoaderOptions) (clock : Clock)
    (context : RequestContext) : Session where
  loaders := [⟨batch, batch.consumesRegistry, none,
    { name := name, options := options, lastDispatch := clock.now }⟩]
  clock := clock.next
  context := context
  hasRegistry := false

def now (s : Session) : Nat := s.clock.now

/-- The session after the clock was read. -/
def tick (s : Session) : Session := { s with clock := s.clock.next }

def names (s : Session) : List String := s.loaders.map (·.state.name)

def find? (s : Session) (name : String) : Option ActiveLoader :=
  s.loaders.find? fun l => l.state.name == name

def loader? (s : Session) (name : String) : Option Loader := (s.find? name).map (·.state)

def update (s : Session) (next : Loader) : Session :=
  { s with loaders := s.loaders.map fun l =>
      if l.state.name = next.name then { l with state := next } else l }

def modify (s : Session) (name : String) (f : Loader → Loader) : Session :=
  match s.loader? name with
  | some l => s.update (f l)
  | none => s

def load (s : Session) (name : String) (key : Json) : Session × Option Ticket :=
  match s.loader? name with
  | none => (s, none)
  | some l => (s.update (l.load key).1, some (l.load key).2)

def loadMany (s : Session) (name : String) : List Json → Session × List Ticket
  | [] => (s, [])
  | key :: rest =>
    let (s, t) := s.load name key
    let (s, ts) := s.loadMany name rest
    (s, t.toList ++ ts)

def environment (s : Session) (l : ActiveLoader) : LoaderEnvironment where
  loader := l.state.name
  context := s.context
  registry := if l.consumesRegistry && s.hasRegistry && !s.dropped then some s.names else none

/-- A way to call the batch function of a loader: its answer, or none if it never ends. -/
abbrev Caller := Session → String → List Json → Session × Option (Except HandlerError (List Json))

/-- Calls the batch function for each chunk and settles it. -/
def runChunks (call : Caller) (name : String) : Session → List Chunk → Session
  | s, [] => s
  | s, c :: rest =>
    match call s name c.keys with
    | (s, some answer) => runChunks call name (s.modify name fun l => l.complete c.id answer) rest
    | (s, none) => runChunks call name s rest

/-- Dispatches a loader; gives the number of keys that were queued. -/
def dispatchBy (call : Caller) (s : Session) (name : String) : Session × Option Nat :=
  match s.loader? name with
  | none => (s, none)
  | some l =>
    (runChunks call name (s.tick.update (l.startDispatch s.now).1) (l.startDispatch s.now).2,
      some l.depth)

def askBy (call : Caller) (s : Session) : Ticket → Session × Option (Except LoaderError Json)
  | .answered value => (s, some (.ok value))
  | .queued name waiter =>
    match (s.loader? name).bind fun l => l.result? waiter with
    | some r => (s, some r)
    | none => (s, if s.dropped then some (.error (.cancelled name)) else none)
  | .direct name key =>
    match call (s.modify name fun l => l.countCalls 1 1) name [key] with
    | (s, none) => (s, none)
    | (s, some answer) =>
      match s.loader? name with
      | none => (s, none)
      | some l => (s.update (l.completeDirect key answer), some (l.directResult answer))

def askFirst (call : Caller) (s : Session) (i : Nat) :
    List Ticket → Session × Option (Nat × Except LoaderError Json)
  | [] => (s, none)
  | t :: rest =>
    match askBy call s t with
    | (s, some r) => (s, some (i, r))
    | (s, none) => askFirst call s (i + 1) rest

/-- Runs a computation until it is done or no ticket that it waits for has an answer. -/
def advanceBy {α : Type} (call : Caller) (s : Session) : Work α → Session × Work α
  | .done a => (s, .done a)
  | .load name key next => advanceBy call (s.load name key).1 (next (s.load name key).2)
  | .dispatch name next =>
    advanceBy call (dispatchBy call s name).1 (next (dispatchBy call s name).2)
  | .await tickets next =>
    match askFirst call s 0 tickets with
    | (s, some (i, r)) => advanceBy call s (next i r)
    | (s, none) => (s, .await tickets next)

/-- Calls a batch function; calls nest no deeper than `depth`. -/
def callWithin : Nat → Caller
  | 0, s, _, _ => (s, none)
  | depth + 1, s, name, keys =>
    match s.find? name with
    | none => (s, none)
    | some l =>
      let started := { s with calls := s.calls ++ [(l.batch.label, keys)] }
      match advanceBy (callWithin depth) started (l.batch.load (s.environment l) keys) with
      | (s, .done answer) => (s, some answer)
      | (s, _) => (s, none)

/-- A batch function that runs again inside its own call would never end, so calls that end nest
no deeper than there are loaders. -/
def call (s : Session) : Caller := callWithin (s.loaders.length + 1)

def dispatch (s : Session) (name : String) : Session × Option Nat := dispatchBy s.call s name

def ask (s : Session) (t : Ticket) : Session × Option (Except LoaderError Json) :=
  askBy s.call s t

def advance {α : Type} (s : Session) (w : Work α) : Session × Work α := advanceBy s.call s w

/-- Dispatches loaders one after the other and adds up the numbers of their keys. -/
def dispatchEach (s : Session) : List String → Session × Nat
  | [] => (s, 0)
  | name :: rest =>
    let (s, n) := s.dispatch name
    let (s, m) := s.dispatchEach rest
    (s, n.getD 0 + m)

def groups (s : Session) : List String :=
  (s.loaders.filter fun l => l.predicate.isSome).map (·.state.name)

def defaultGroup (s : Session) : List String :=
  (s.loaders.filter fun l => l.predicate.isNone).map (·.state.name)

def dispatchAll (s : Session) : Session × Nat := s.dispatchEach (s.groups ++ s.defaultGroup)

/-- Whether the predicate of a loader holds now. -/
def isReady (s : Session) (name : String) : Bool :=
  match s.find? name with
  | some l => l.predicate.any fun p => p.holds l.state s.now
  | none => false

/-- Dispatches those loaders whose predicates hold when their turn comes. -/
def dispatchGroups (s : Session) : List String → Session × Nat
  | [] => (s, 0)
  | name :: rest =>
    let (s, n) := if s.isReady name then s.tick.dispatch name else (s.tick, none)
    let (s, m) := s.dispatchGroups rest
    (s, n.getD 0 + m)

/-- Dispatches the loaders whose predicates hold, then those without one. -/
def dispatchReady (s : Session) : Session × Nat :=
  let (s, n) := s.dispatchGroups s.groups
  let (s, m) := s.dispatchEach s.defaultGroup
  (s, n + m)

def depth (s : Session) : Nat := s.loaders.foldl (fun n l => n + l.state.depth) 0

def statistics (s : Session) : Statistics :=
  s.loaders.foldl (fun total l => total.add l.state.statistics) {}

/-- Sessions hold the state of one request each, so there is no way to combine them; this is what
is said instead. -/
def combineRefused : String := "Dispatch registries cannot be combined; build one per request"

def drop (s : Session) : Session := { s with dropped := true }

def advanceAll {α : Type} (s : Session) : List (Work α) → Session × List (Work α)
  | [] => (s, [])
  | w :: rest =>
    let (s, w) := s.advance w
    let (s, ws) := s.advanceAll rest
    (s, w :: ws)

/-- Runs computations side by side, dispatching all loaders between rounds while one of them
waits. -/
def drive {α : Type} : Nat → Session → List (Work α) → Session × List (Work α)
  | 0, s, ws => s.advanceAll ws
  | rounds + 1, s, ws =>
    let (s, ws) := s.advanceAll ws
    if ws.all fun w => w.value?.isSome then (s, ws)
    else drive rounds s.dispatchAll.1 ws

end Session

end SchemaAssembly
