import SchemaAssembly.Fetcher.Failure
import SchemaAssembly.Wiring.TypeResolver

/-!
Entities are fetched by representations, objects that name their type. Each representation is
given to the handler of its type; the results keep the order of the representations, a list takes
the place of its representation with all its items, and a failure leaves null and an error.
-/

set_option autoImplicit false

namespace SchemaAssembly

abbrev Representation := List (String × Json)

inductive EntityHandler where
  | representation (f : Representation → Except HandlerError HandlerResult)
  | withEnvironment (f : Representation → FieldEnvironment → Except HandlerError HandlerResult)

namespace EntityHandler

def acceptsEnvironment : EntityHandler → Bool
  | representation _ => false
  | withEnvironment _ => true

def invoke (r : Representation) (e : FieldEnvironment) :
    EntityHandler → Except HandlerError HandlerResult
  | representation f => f r
  | withEnvironment f => f r e

end EntityHandler

structure EntityFetcher where
  owner : String
  handler : EntityHandler

/-- Entity fetchers by the names of their types; a later one takes the place of an earlier one. -/
abbrev EntityTable := Entries EntityFetcher

def EntityTable.invoke (t : EntityTable) (e : FieldEnvironment) (representation : Json) :
    Except HandlerError HandlerResult :=
  match representation with
  | .obj members =>
    match (findNamed? "__typename" members).bind Json.asString? with
    | none => .error (.ofBadRequest .missingTypename)
    | some typename =>
      match Entries.get? typename t with
      | none => .error (.ofResolution (.missingEntityFetcher typename))
      | some fetcher => fetcher.handler.invoke members e
  | _ => .error (.ofBadRequest .missingTypename)

def EntityTable.work (t : EntityTable) (e : FieldEnvironment) (representation : Json) :
    Work Outcome :=
  match t.invoke e representation with
  | .ok result => result.toWork
  | .error err => .done (.error err)

def entityData : Outcome → List Json
  | .ok (.list items) => items
  | .ok v => [v]
  | .error _ => [.null]

/-- The errors of the outcomes from a position on, each at the position of its representation. -/
def entityErrors (handler : ExceptionHandler) (c : Coordinates) :
    Nat → List Outcome → List ResponseError
  | _, [] => []
  | i, .ok _ :: rest => entityErrors handler c (i + 1) rest
  | i, .error e :: rest =>
    handler ⟨e, [.field "_entities", .index i], some c⟩ ++ entityErrors handler c (i + 1) rest

/-- The result for outcomes in the order of their representations. -/
def entityResult (handler : ExceptionHandler) (c : Coordinates) (outcomes : List Outcome) :
    FetchResult :=
  ⟨.list (outcomes.flatMap entityData), entityErrors handler c 0 outcomes⟩

def EntityTable.fetch (t : EntityTable) (handler : ExceptionHandler) (e : FieldEnvironment)
    (representations : List Json) : Work FetchResult :=
  (Work.all (representations.map (t.work e))).map (entityResult handler e.coordinates)

def Fetcher.entities (t : EntityTable) (handler : ExceptionHandler) : Fetcher where
  fetch e :=
    match e.argument? "representations" with
    | some (.list representations) => (t.fetch handler e representations).map .ok
    | _ => .done (.error (.ofBadRequest .missingRepresentations))

/-- Resolves entities: the type that a value names, or the one it is mapped to, if that is an
object type. -/
def TypeResolver.entity (mapping : Entries String) : TypeResolver := fun q =>
  match q.typename? with
  | none => .error (.noConcreteType "_Entity" none)
  | some typename =>
    let name := (mapping.get? typename).getD typename
    if q.types.isObject name then .ok name else .error (.noConcreteType "_Entity" (some typename))

end SchemaAssembly
