import SchemaAssembly.Argument.Resolver

/-!
Fetchers produce the values of fields: by a handler with its arguments resolved, by a property of
the parent value, or by any other function of the environment.
-/

set_option autoImplicit false

namespace SchemaAssembly

/-- A value with the errors met on the way to it. -/
structure FetchResult where
  data : Json
  errors : List ResponseError := []

abbrev FetchWork := Work (Except HandlerError FetchResult)

structure Fetcher where
  fetch : FieldEnvironment → FetchWork
  /-- The stream behind the field; most fetchers have none. -/
  subscribe : FieldEnvironment → Option (Except HandlerError OutcomeStream) := fun _ => none

/-- An outcome as the result of a fetch. -/
def fetched (w : Work Outcome) : FetchWork := w.map fun r => r.map fun v => ⟨v, []⟩

/-- Reads a property of a value under the name of the field or its spelling with underscores. -/
def readProperty (source : Json) (field : String) : Outcome :=
  match source with
  | .obj members =>
    .ok (((findNamed? field members).or (findNamed? (snakeCase field) members)).getD .null)
  | .null => .ok .null
  | _ => .error (.ofMessage ("Cannot read field `" ++ field ++ "` from a non-object value"))

namespace Fetcher

def ofFunction (f : FieldEnvironment → Outcome) : Fetcher where
  fetch e := fetched (.done (f e))

/-- The fetcher for fields that have no other one. -/
def property : Fetcher := ofFunction fun e => readProperty e.source e.coordinates.field

end Fetcher

/-- One use of a handler: what its function was called with, call by call, and the answer. -/
structure Invocation where
  arguments : Except ResolutionError ResolvedArguments
  calls : List ResolvedArguments
  answer : Except HandlerError HandlerResult

/-- Calls the function of a handler, unless its arguments could not be resolved. -/
def Handler.callWith (h : Handler) : Except ResolutionError ResolvedArguments → Invocation
  | .error err => ⟨.error err, [], .error (.ofResolution err)⟩
  | .ok a => ⟨.ok a, [a], h.function a⟩

def Handler.invoke (resolvers : List ArgumentResolver) (h : Handler) (e : FieldEnvironment) :
    Invocation :=
  h.callWith (h.resolveArguments resolvers e)

/-- A use of a handler whose arguments are resolved by a chain. -/
def ResolverChain.invoke (c : ResolverChain) (h : Handler) (e : FieldEnvironment) :
    ResolverChain × Invocation :=
  ((c.resolveArguments h e).1, h.callWith (c.resolveArguments h e).2)

/-- The fetcher of a handler. Only handlers that are declared as streams can be subscribed to. -/
def Fetcher.ofHandler (resolvers : List ArgumentResolver) (h : Handler) : Fetcher where
  fetch e :=
    match (h.invoke resolvers e).answer with
    | .ok result => fetched result.toWork
    | .error err => .done (.error err)
  subscribe e :=
    if h.shape = .stream then some ((h.invoke resolvers e).answer.map HandlerResult.toStream)
    else none

end SchemaAssembly
