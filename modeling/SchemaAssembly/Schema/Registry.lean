import SchemaAssembly.Coordinates
import SchemaAssembly.Error.Configuration
import SchemaAssembly.Schema.Definition

/-!
The registry of all types of a schema, in order of definition, each with the fragment that defined
it. A failing operation reports its cause together with the registry as it was left.
-/

set_option autoImplicit false

namespace SchemaAssembly

/-- A definition and where it came from. -/
structure Declared where
  definition : TypeDef
  origin : String

structure TypeRegistry where
  declared : List Declared
  directives : List DirectiveDef
  roots : RootTypes
  sources : List String

def builtinOrigin : String := "<builtin>"

def builtinScalars : List String := ["Int", "Float", "String", "Boolean", "ID"]

def builtinScalar (name : String) : Declared :=
  ⟨⟨name, some ("Built-in " ++ name ++ " scalar"), [], .scalar⟩, builtinOrigin⟩

/-- What a step on a registry gives: the registry it leaves, and the cause if it failed. -/
structure Registration where
  registry : TypeRegistry
  failure : Option ConfigurationError

namespace Registration

def done (r : TypeRegistry) : Registration := ⟨r, none⟩

/-- Goes on only after success. -/
def andThen (s : Registration) (next : TypeRegistry → Registration) : Registration :=
  match s.failure with
  | none => next s.registry
  | some _ => s

def toExcept (s : Registration) : Except ConfigurationError TypeRegistry :=
  match s.failure with
  | none => .ok s.registry
  | some e => .error e

end Registration

/-- Runs a step for each item until one fails. -/
def registerAll {α : Type} (step : TypeRegistry → α → Registration) :
    TypeRegistry → List α → Registration
  | r, [] => .done r
  | r, a :: rest => (step r a).andThen fun s => registerAll step s rest

def appendNew (target : List String) : List String → List String
  | [] => target
  | item :: rest => appendNew (if target.contains item then target else target ++ [item]) rest

/-- Enters all fields, replacing those of the same name in place. -/
def extendFields {α : Type} (base extension : Entries α) : Entries α :=
  extension.foldl (fun acc f => Entries.put f.1 f.2 acc) base

/-- The body with the parts of an extension of the same kind. -/
def TypeBody.extend? : TypeBody → TypeBody → Option TypeBody
  | .scalar, .scalar => some .scalar
  | .object f i, .object g j => some (.object (extendFields f g) (appendNew i j))
  | .interface f i, .interface g j => some (.interface (extendFields f g) (appendNew i j))
  | .union m, .union n => some (.union (appendNew m n))
  | .enumeration v, .enumeration w => some (.enumeration (v ++ w))
  | .input f, .input g => some (.input (extendFields f g))
  | _, _ => none

namespace TypeRegistry

def initial : TypeRegistry := ⟨builtinScalars.map builtinScalar, [], .standard, []⟩

instance : Inhabited TypeRegistry := ⟨initial⟩

def entry? (r : TypeRegistry) (name : String) : Option Declared :=
  r.declared.find? fun d => d.definition.name == name

def get? (r : TypeRegistry) (name : String) : Option TypeDef := (r.entry? name).map (·.definition)

def contains (r : TypeRegistry) (name : String) : Bool := (r.entry? name).isSome

def origin? (r : TypeRegistry) (name : String) : Option String := (r.entry? name).map (·.origin)

def types (r : TypeRegistry) : List TypeDef := r.declared.map (·.definition)

def names (r : TypeRegistry) : List String := r.types.map (·.name)

def size (r : TypeRegistry) : Nat := r.declared.length

def isEmpty (r : TypeRegistry) : Bool := r.declared.all fun d => d.origin == builtinOrigin

def directive? (r : TypeRegistry) (name : String) : Option DirectiveDef :=
  r.directives.find? fun d => d.name == name

def field? (r : TypeRegistry) (c : Coordinates) : Option FieldDef :=
  (r.get? c.parentType).bind fun d => d.fields?.bind fun fields => fields.get? c.field

/-- The contributing texts, joined into one document. -/
def sdl (r : TypeRegistry) : String := String.intercalate "\n" r.sources

def addType (r : TypeRegistry) (origin : String) (definition : TypeDef) : Registration :=
  match r.entry? definition.name with
  | some first => ⟨r, some (.duplicateType definition.name first.origin origin)⟩
  | none => .done { r with declared := r.declared ++ [⟨definition, origin⟩] }

def addDirective (r : TypeRegistry) (definition : DirectiveDef) : Registration :=
  match r.directive? definition.name with
  | some _ => ⟨r, some (.duplicateDirective definition.name)⟩
  | none => .done { r with directives := r.directives ++ [definition] }

def replace (r : TypeRegistry) (definition : TypeDef) : TypeRegistry :=
  { r with declared := r.declared.map fun d =>
      if d.definition.name = definition.name then { d with definition := definition } else d }

def extendType (r : TypeRegistry) (origin : String) (extension : TypeDef) : Registration :=
  match r.get? extension.name with
  | none => ⟨r, some (.extensionOfUnknownType extension.name origin)⟩
  | some base =>
    match base.body.extend? extension.body with
    | some body =>
      .done (r.replace { base with
        directives := base.directives ++ extension.directives, body := body })
    | none =>
      ⟨r, some (.invalidFragment origin
        (.invalidExtension ("cannot extend " ++ base.keyword ++ " `" ++ extension.name ++
          "` with a " ++ extension.keyword ++ " extension")) ⟨0, 0⟩)⟩

def addSource (r : TypeRegistry) (source : String) : TypeRegistry :=
  { r with sources := r.sources ++ [source] }

def setRoots (r : TypeRegistry) (roots : RootTypes) : TypeRegistry := { r with roots := roots }

/-- Adds all types, directives and sources of another registry; built-in scalars are shared, and
root names other than the standard ones take over. -/
def merge (r other : TypeRegistry) : Registration :=
  let addShared (r : TypeRegistry) (d : Declared) : Registration :=
    if d.origin = builtinOrigin ∧ r.contains d.definition.name then .done r
    else r.addType d.origin d.definition
  ((registerAll addShared r other.declared).andThen fun r =>
    registerAll addDirective r other.directives).andThen fun r =>
      .done { r with
        roots := if other.roots = .standard then r.roots else other.roots
        sources := r.sources ++ other.sources }

def isAbstract (r : TypeRegistry) (name : String) : Bool :=
  match r.get? name with
  | some d => d.isAbstract
  | none => false

/-- The object types that implement an interface, in order of definition. -/
def implementations (r : TypeRegistry) (interface : String) : List String :=
  r.types.filterMap fun d =>
    match d.body with
    | .object _ interfaces => if interfaces.contains interface then some d.name else none
    | _ => none

/-- The object types that a value of this type may have; an object type is its own only one. -/
def possibleTypes (r : TypeRegistry) (name : String) : List String :=
  match r.get? name with
  | none => []
  | some d =>
    match d.body with
    | .object .. => [d.name]
    | .interface .. => r.implementations d.name
    | .union members => members.filter fun m =>
      match r.get? m with
      | some t => t.isObject
      | none => false
    | _ => []

def objectsWithDirective (r : TypeRegistry) (directive : String) : List String :=
  (r.types.filter fun d => d.isObject && carries d.directives directive).map (·.name)

end TypeRegistry

end SchemaAssembly
