import SchemaAssembly.Argument.Spelling
import SchemaAssembly.Error.Resolution
import SchemaAssembly.Schema.Registry

/-!
Mappers convert raw argument values before handlers see them. The standard one spells the names in
input objects with underscores, and leaves every other value as it is.
-/

set_option autoImplicit false

namespace SchemaAssembly

/-- Maps a value of a declared type, if that is known, over the types of the schema. -/
abbrev InputMapper :=
  Json → Option TypeRef → Option TypeRegistry → Except ResolutionError Json

def TypeRegistry.inputFields? (r : TypeRegistry) (name : String) : Option (Entries InputField) :=
  (r.get? name).bind TypeDef.inputFields?

def fieldTypeName? (fields : Entries InputField) (name : String) : Option String :=
  (fields.get? name).map fun f => f.type.innermost

mutual

/-- Respells the names in a value of the named type. A name under which two members end up keeps
the value of the later one. -/
def respell (r : TypeRegistry) (type : String) : Json → Json
  | .obj members =>
    match r.inputFields? type with
    | none => .obj members
    | some fields => .object (respellMembers r fields members)
  | .list items =>
    match r.inputFields? type with
    | none => .list items
    | some _ => .list (respellItems r type items)
  | v => v

def respellItems (r : TypeRegistry) (type : String) : List Json → List Json
  | [] => []
  | v :: rest => respell r type v :: respellItems r type rest

def respellMembers (r : TypeRegistry) (fields : Entries InputField) :
    List (String × Json) → List (String × Json)
  | [] => []
  | (n, v) :: rest =>
    (snakeCase n,
      match fieldTypeName? fields n with
      | some type => respell r type v
      | none => v) :: respellMembers r fields rest

end

namespace InputMapper

/-- Respells input objects where both the type and the schema are known. -/
def standard : InputMapper
  | v, some type, some registry => .ok (respell registry type.innermost v)
  | v, _, _ => .ok v

def identity : InputMapper := fun v _ _ => .ok v

end InputMapper

end SchemaAssembly
