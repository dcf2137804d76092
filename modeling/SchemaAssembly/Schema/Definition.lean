import SchemaAssembly.Entries
import SchemaAssembly.Json.Value
import SchemaAssembly.Schema.TypeRef

/-!
Type and directive definitions of a schema.
-/

set_option autoImplicit false

namespace SchemaAssembly

structure DirectiveUse where
  name : String
  arguments : Entries Json

def DirectiveUse.argument? (d : DirectiveUse) (name : String) : Option Json :=
  d.arguments.get? name

def carries (uses : List DirectiveUse) (name : String) : Bool := uses.any fun d => d.name == name

structure InputField where
  name : String
  description : Option String
  type : TypeRef
  default : Option Json
  directives : List DirectiveUse

/-- Present on what should no longer be used, with the reason if one is given. -/
structure Deprecation where
  reason : Option String

structure FieldDef where
  name : String
  description : Option String
  type : TypeRef
  arguments : Entries InputField
  directives : List DirectiveUse
  deprecation : Option Deprecation

structure EnumValue where
  name : String
  description : Option String
  deprecation : Option Deprecation

inductive TypeBody where
  | scalar
  | object (fields : Entries FieldDef) (interfaces : List String)
  | interface (fields : Entries FieldDef) (interfaces : List String)
  | union (members : List String)
  | enumeration (values : List EnumValue)
  | input (fields : Entries InputField)

structure TypeDef where
  name : String
  description : Option String
  directives : List DirectiveUse
  body : TypeBody

/-- The keyword that introduces each kind in a schema text. -/
def TypeBody.keyword : TypeBody → String
  | scalar => "scalar"
  | object .. => "type"
  | interface .. => "interface"
  | union .. => "union"
  | enumeration .. => "enum"
  | input .. => "input"

namespace TypeDef

def keyword (d : TypeDef) : String := d.body.keyword

/-- Interfaces and unions have no values of their own. -/
def isAbstract (d : TypeDef) : Bool :=
  match d.body with
  | .interface .. | .union .. => true
  | _ => false

def isObject (d : TypeDef) : Bool :=
  match d.body with
  | .object .. => true
  | _ => false

def fields? (d : TypeDef) : Option (Entries FieldDef) :=
  match d.body with
  | .object fields _ | .interface fields _ => some fields
  | _ => none

def inputFields? (d : TypeDef) : Option (Entries InputField) :=
  match d.body with
  | .input fields => some fields
  | _ => none

end TypeDef

/-- The deprecation stated by a `deprecated` directive. -/
def deprecationOf (uses : List DirectiveUse) : Option Deprecation :=
  (uses.find? fun d => d.name == "deprecated").map fun d =>
    ⟨(d.argument? "reason").bind Json.asString?⟩

inductive DirectiveLocation where
  | query
  | mutation
  | subscription
  | field
  | fragmentDefinition
  | fragmentSpread
  | inlineFragment
  | variableDefinition
  | schema
  | scalar
  | object
  | fieldDefinition
  | argumentDefinition
  | interface
  | union
  | enumeration
  | enumValue
  | inputObject
  | inputFieldDefinition
  deriving DecidableEq

structure DirectiveDef where
  name : String
  description : Option String
  arguments : Entries InputField
  locations : List DirectiveLocation
  repeatable : Bool

structure RootTypes where
  query : String
  mutation : String
  subscription : String
  deriving DecidableEq

def RootTypes.standard : RootTypes := ⟨"Query", "Mutation", "Subscription"⟩

end SchemaAssembly
