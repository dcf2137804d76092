import SchemaAssembly.Entries
import SchemaAssembly.Json.Text
import SchemaAssembly.Loader.Error

/-!
Data loaders of one request. A load is answered from the cache, or queues its key and gets a
waiter; a dispatch takes the whole queue and cuts it into chunks; the completion of a chunk settles
the waiters of its keys. Waiters and chunks are numbered in the order of their creation, and every
waiter is in the queue, in a chunk, or among the settled ones.
-/

set_option autoImplicit false

namespace SchemaAssembly

structure LoaderOptions where
  caching : Bool := true
  batching : Bool := true
  /-- The most keys that a batch holds. -/
  maxBatchSize : Option Nat := none
  /-- Cutting a queue into batches without keys would never end. -/
  maxBatchSize_ne_zero : maxBatchSize ≠ some 0 := by decide
  deriving DecidableEq

/-- Sets the size of the largest batch; zero sets no limit. -/
def LoaderOptions.withMaxBatchSize (o : LoaderOptions) : Nat → LoaderOptions
  | 0 => { o with maxBatchSize := none, maxBatchSize_ne_zero := nofun }
  | size + 1 => { o with maxBatchSize := some (size + 1), maxBatchSize_ne_zero := nofun }

structure Statistics where
  loads : Nat := 0
  batches : Nat := 0
  batchLoads : Nat := 0
  cacheHits : Nat := 0
  errors : Nat := 0
  deriving DecidableEq

def Statistics.add (a b : Statistics) : Statistics :=
  ⟨a.loads + b.loads, a.batches + b.batches, a.batchLoads + b.batchLoads,
    a.cacheHits + b.cacheHits, a.errors + b.errors⟩

/-- A claim on the answer to one load. -/
inductive Ticket where
  /-- The cache held the answer. -/
  | answered (value : Json)
  | queued (loader : String) (waiter : Nat)
  /-- The batch function is called with this key alone when the answer is first asked for. -/
  | direct (loader : String) (key : Json)

structure QueueEntry where
  key : Json
  waiters : List Nat

/-- A part of a queue that was handed to the batch function. -/
structure Chunk where
  id : Nat
  entries : List QueueEntry

def Chunk.keys (c : Chunk) : List Json := c.entries.map (·.key)

structure Loader where
  name : String
  options : LoaderOptions
  queue : List QueueEntry := []
  /-- Where in the queue a key stands, by its text. -/
  slots : Entries Nat := []
  cache : Entries Json := []
  statistics : Statistics := {}
  inFlight : List Chunk := []
  settled : List (Nat × Except LoaderError Json) := []
  waiterCount : Nat := 0
  chunkCount : Nat := 0
  /-- The texts of the keys that are loaded alone and have no answer yet. -/
  directs : List String := []
  /-- When the last dispatch started, or else when the loader was made. -/
  lastDispatch : Nat := 0

/-- Consecutive pieces of a given size, the last one perhaps shorter. -/
def piecesFrom {α : Type} (size : Nat) : Nat → List α → List (List α)
  | 0, _ => []
  | fuel + 1, xs =>
    if xs.length ≤ size then [xs]
    else xs.take size :: piecesFrom size fuel (xs.drop size)

/-- The pieces of a list, no longer than the limit; without a limit the list is one piece. -/
def pieces {α : Type} (limit : Option Nat) (xs : List α) : List (List α) :=
  piecesFrom (limit.getD xs.length) xs.length xs

def numberChunks (first : Nat) : List (List QueueEntry) → List Chunk
  | [] => []
  | p :: rest => ⟨first, p⟩ :: numberChunks (first + 1) rest

namespace Loader

def cached? (l : Loader) (key : Json) : Option Json :=
  if l.options.caching then l.cache.get? key.text else none

def slot? (l : Loader) (key : Json) : Option Nat :=
  if l.options.caching then l.slots.get? key.text else none

/-- Adds a waiter for the key, to its entry in the queue or with an entry of its own. -/
def enqueue (l : Loader) (key : Json) : Loader × Ticket :=
  let w := l.waiterCount
  let next : Loader :=
    match l.slot? key with
    | some i =>
      { l with queue := l.queue.modify i fun e => { e with waiters := e.waiters ++ [w] } }
    | none =>
      { l with
        queue := l.queue ++ [⟨key, [w]⟩]
        slots := if l.options.caching then l.slots.put key.text l.queue.length else l.slots }
  ({ next with waiterCount := w + 1 }, .queued l.name w)

def load (l : Loader) (key : Json) : Loader × Ticket :=
  let l := { l with statistics := { l.statistics with loads := l.statistics.loads + 1 } }
  match l.cached? key with
  | some value =>
    ({ l with statistics := { l.statistics with cacheHits := l.statistics.cacheHits + 1 } },
      .answered value)
  | none =>
    if l.options.batching then l.enqueue key
    else ({ l with directs := l.directs ++ [key.text] }, .direct l.name key)

/-- Counts calls of the batch function with this many keys in all. -/
def countCalls (l : Loader) (calls keys : Nat) : Loader :=
  { l with statistics := { l.statistics with
      batches := l.statistics.batches + calls, batchLoads := l.statistics.batchLoads + keys } }

def countError (l : Loader) : Loader :=
  { l with statistics := { l.statistics with errors := l.statistics.errors + 1 } }

/-- Takes the whole queue; its chunks are in flight from now on. -/
def startDispatch (l : Loader) (now : Nat) : Loader × List Chunk :=
  let parts := pieces l.options.maxBatchSize l.queue
  let chunks := numberChunks l.chunkCount parts
  ({ l.countCalls parts.length l.queue.length with
      queue := []
      slots := []
      inFlight := l.inFlight ++ chunks
      chunkCount := l.chunkCount + parts.length
      lastDispatch := now },
    chunks)

def sinceLastDispatch (l : Loader) (now : Nat) : Nat := now - l.lastDispatch

/-- An answer counts only with one value for each key. -/
def checkAnswer (l : Loader) (expected : Nat) (answer : Except HandlerError (List Json)) :
    Except LoaderError (List Json) :=
  match answer with
  | .error e => .error (.failed l.name e)
  | .ok values =>
    if values.length = expected then .ok values
    else .error (.lengthMismatch l.name expected values.length)

def remember (l : Loader) (key value : Json) : Loader :=
  if l.options.caching then { l with cache := l.cache.put key.text value } else l

def settle (l : Loader) (result : Except LoaderError Json) (e : QueueEntry) : Loader :=
  { l with settled := l.settled ++ e.waiters.map fun w => (w, result) }

def deliver (l : Loader) : List QueueEntry → List Json → Loader
  | e :: entries, v :: values => ((l.remember e.key v).settle (.ok v) e).deliver entries values
  | _, _ => l

/-- Ends a chunk in flight with the answer of the batch function. -/
def complete (l : Loader) (id : Nat) (answer : Except HandlerError (List Json)) : Loader :=
  match l.inFlight.find? fun c => c.id == id with
  | none => l
  | some chunk =>
    let l := { l with inFlight := l.inFlight.filter fun c => c.id != id }
    match l.checkAnswer chunk.entries.length answer with
    | .ok values => l.deliver chunk.entries values
    | .error e => chunk.entries.foldl (fun l entry => l.settle (.error e) entry) l.countError

/-- The result of a call for one key alone. -/
def directResult (l : Loader) (answer : Except HandlerError (List Json)) :
    Except LoaderError Json :=
  (l.checkAnswer 1 answer).map fun values => values.head?.getD .null

/-- Ends a call for one key alone. -/
def completeDirect (l : Loader) (key : Json) (answer : Except HandlerError (List Json)) : Loader :=
  if l.directs.contains key.text then
    let l := { l with directs := l.directs.erase key.text }
    match l.directResult answer with
    | .ok value => l.remember key value
    | .error _ => l.countError
  else l

def depth (l : Loader) : Nat := l.queue.length

/-- Caches a value unless the key is cached already. -/
def prime (l : Loader) (key value : Json) : Loader :=
  if l.options.caching && !l.cache.contains key.text then
    { l with cache := l.cache.put key.text value }
  else l

def clearKey (l : Loader) (key : Json) : Loader := { l with cache := l.cache.erase key.text }

def clear (l : Loader) : Loader := { l with cache := [] }

def result? (l : Loader) (waiter : Nat) : Option (Except LoaderError Json) :=
  (l.settled.find? fun s => s.1 == waiter).map (·.2)

end Loader

end SchemaAssembly
