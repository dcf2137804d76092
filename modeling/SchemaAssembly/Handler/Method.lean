import SchemaAssembly.Json.Decode
import SchemaAssembly.Loader.Work
import SchemaAssembly.Request.Environment

/-!
Handlers: named functions with declared parameters. A handler answers with a value, with work that
ends in a value, or with a stream of values.
-/

set_option autoImplicit false

namespace SchemaAssembly

/-- What a parameter asks for. -/
inductive ParameterKind where
  /-- The field argument of the given name. -/
  | input (argument : String)
  /-- The field argument named as the parameter. -/
  | argument
  | environment
  | context
  /-- A value from a resolver that knows the tag. -/
  | custom (tag : String)
  deriving DecidableEq

structure Parameter where
  /-- The number of the handler. -/
  handler : Nat
  index : Nat
  name : String
  kind : ParameterKind
  deriving DecidableEq

inductive ArgumentValue where
  | value (v : Json)
  | environment (e : FieldEnvironment)
  | context (c : RequestContext)
  | custom (v : Json)

structure ResolvedArguments where
  names : List String
  values : List ArgumentValue
  environment : FieldEnvironment

namespace ResolvedArguments

def value? (a : ResolvedArguments) (index : Nat) : Option Json :=
  match a.values[index]? with
  | some (.value v) => some v
  | _ => none

/-- Reads an argument as typed data; whatever is no field argument reads as null. -/
def get {α : Type} (a : ResolvedArguments) (decode : Decoder α) (index : Nat) :
    Except HandlerError α :=
  match decode ((a.value? index).getD .null) with
  | .ok x => .ok x
  | .error e =>
    .error (.ofResolution (.invalidInputArgument (a.names[index]?.getD "") e.message))

end ResolvedArguments

inductive HandlerShape where
  | sync
  | async
  | stream
  deriving DecidableEq

/-- Items that come one after the other, each perhaps with some work. -/
abbrev OutcomeStream := List (Work Outcome)

inductive HandlerResult where
  | value (v : Json)
  | deferred (work : Work Outcome)
  | stream (items : OutcomeStream)

namespace HandlerResult

/-- Whether no waiting is needed. -/
def isReady : HandlerResult → Bool
  | value _ => true
  | _ => false

/-- The outcome as work. A stream gives the list of its items; the first item that fails fails
the whole result. -/
def toWork : HandlerResult → Work Outcome
  | value v => .done (.ok v)
  | deferred work => work
  | stream items => (Work.inTurn items).map fun r => r.map Json.list

/-- The result as a stream; what is no stream is its only item. -/
def toStream : HandlerResult → OutcomeStream
  | value v => [.done (.ok v)]
  | deferred work => [work]
  | stream items => items

end HandlerResult

structure Handler where
  /-- Copies of a handler share its number. -/
  id : Nat
  owner : String
  name : String
  parameters : List Parameter
  shape : HandlerShape
  function : ResolvedArguments → Except HandlerError HandlerResult

namespace Handler

/-- The parameters of a handler from their names and kinds. -/
def parametersOf (id : Nat) (declared : List (String × ParameterKind)) : List Parameter :=
  declared.mapIdx fun i p => ⟨id, i, p.1, p.2⟩

/-- The owner and the name, as messages show them. -/
def qualifiedName (h : Handler) : String := h.owner ++ "." ++ h.name

end Handler

end SchemaAssembly
