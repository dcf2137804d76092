import SchemaAssembly.Federation.Entity
import SchemaAssembly.Sdl.Fragment

/-!
The types, directives and query fields by which a schema takes part in a federation.
-/

set_option autoImplicit false

namespace SchemaAssembly

def federationOrigin : String := "<federation>"

/-- Whether there are entity fetchers or object types with a key. -/
def needsFederation (r : TypeRegistry) (entities : EntityTable) : Bool :=
  !entities.isEmpty || !(r.objectsWithDirective "key").isEmpty

/-- The object types with a key, then the others with an entity fetcher. -/
def entityMembers (r : TypeRegistry) (entities : EntityTable) : List String :=
  appendNew (r.objectsWithDirective "key") (entities.keys.filter r.isObject)

def federationDirectives : List (String × String) := [
  ("key", "directive @key(fields: _FieldSet!) repeatable on OBJECT | INTERFACE"),
  ("extends", "directive @extends on OBJECT | INTERFACE"),
  ("external", "directive @external on FIELD_DEFINITION"),
  ("requires", "directive @requires(fields: _FieldSet!) on FIELD_DEFINITION"),
  ("provides", "directive @provides(fields: _FieldSet!) on FIELD_DEFINITION")]

/-- The text of the definitions that a registry lacks. The union of all entities and the field
that fetches them are there only if there are members. -/
def federationSdl (r : TypeRegistry) (members : List String) : String :=
  let lineUnless (present : Bool) (line : String) : String := if present then "" else line ++ "\n"
  let query := r.roots.query
  lineUnless (r.contains "_FieldSet") "scalar _FieldSet" ++
    String.join (federationDirectives.map fun d => lineUnless (r.directive? d.1).isSome d.2) ++
    lineUnless (r.contains "_Any") "scalar _Any" ++
    lineUnless (r.contains "_Service") "type _Service \x7b sdl: String \x7d" ++
    lineUnless members.isEmpty ("union _Entity = " ++ String.intercalate " | " members) ++
    (if r.contains query then "extend type " else "type ") ++ query ++ " \x7b\n" ++
    "  _service: _Service!\n" ++
    lineUnless members.isEmpty "  _entities(representations: [_Any!]!): [_Entity]!" ++
    "\x7d\n"

def federationFields (r : TypeRegistry) (members : List String) : List Coordinates :=
  ⟨r.roots.query, "_service"⟩ ::
    (if members.isEmpty then [] else [⟨r.roots.query, "_entities"⟩])

def addFederationTypes (r : TypeRegistry) (entities : EntityTable) : Registration :=
  match Fragment.parse federationOrigin (federationSdl r (entityMembers r entities)) with
  | .error e => ⟨r, some e⟩
  | .ok fragment => r.mergeFragments [fragment]

def Fetcher.service (sdl : String) : Fetcher :=
  .ofFunction fun _ => .ok (.object [("sdl", .str sdl)])

end SchemaAssembly
