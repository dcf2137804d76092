import SchemaAssembly.Json.Value
import SchemaAssembly.Schema.Registry

/-!
JSON descriptions of types, fields and directives.
-/

set_option autoImplicit false

namespace SchemaAssembly

def DirectiveUse.json (d : DirectiveUse) : Json :=
  .object [("name", .str d.name),
    ("args", .list (d.arguments.map fun a => .list [.str a.1, a.2]))]

def directivesJson (uses : List DirectiveUse) : Json := .list (uses.map DirectiveUse.json)

/-- A default is shown where there is one, even if it is null. -/
def InputField.json (f : InputField) : Json :=
  .object ([("name", .str f.name), ("description", .ofString? f.description),
    ("type", .str f.type.text), ("directives", directivesJson f.directives)] ++
    (match f.default with
     | some v => [("default", v)]
     | none => []))

def deprecationMembers (d : Option Deprecation) : List (String × Json) :=
  [("deprecated", .bool d.isSome), ("reason", .ofString? (d.bind (·.reason)))]

def FieldDef.json (f : FieldDef) : Json :=
  .object ([("name", .str f.name), ("description", .ofString? f.description),
    ("type", .str f.type.text), ("args", .list (f.arguments.values.map InputField.json)),
    ("directives", directivesJson f.directives)] ++ deprecationMembers f.deprecation)

namespace TypeDef

def bodyMembers (d : TypeDef) : List (String × Json) :=
  match d.body with
  | .scalar => []
  | .object fs is | .interface fs is =>
    [("implements", .strings is), ("fields", .list (fs.values.map FieldDef.json))]
  | .union ms => [("members", .strings ms)]
  | .enumeration vs =>
    [("values", .list (vs.map fun v => .object ([("name", .str v.name),
      ("description", .ofString? v.description)] ++ deprecationMembers v.deprecation)))]
  | .input fs => [("fields", .list (fs.values.map InputField.json))]

def members (d : TypeDef) : List (String × Json) :=
  [("kind", .str d.keyword), ("name", .str d.name), ("description", .ofString? d.description),
    ("directives", directivesJson d.directives)] ++ d.bodyMembers

def json (d : TypeDef) : Json := .object d.members

end TypeDef

/-- A type with the name of the fragment that it comes from. -/
def Declared.json (d : Declared) : Json :=
  .object (d.definition.members ++ [("origin", .str d.origin)])

/-- All types of a registry that are not built in. -/
def TypeRegistry.json (r : TypeRegistry) : Json :=
  .list ((r.declared.filter fun d => d.origin != builtinOrigin).map Declared.json)

def DirectiveLocation.label : DirectiveLocation → String
  | .query => "Query"
  | .mutation => "Mutation"
  | .subscription => "Subscription"
  | .field => "Field"
  | .fragmentDefinition => "FragmentDefinition"
  | .fragmentSpread => "FragmentSpread"
  | .inlineFragment => "InlineFragment"
  | .variableDefinition => "VariableDefinition"
  | .schema => "Schema"
  | .scalar => "Scalar"
  | .object => "Object"
  | .fieldDefinition => "FieldDefinition"
  | .argumentDefinition => "ArgumentDefinition"
  | .interface => "Interface"
  | .union => "Union"
  | .enumeration => "Enum"
  | .enumValue => "EnumValue"
  | .inputObject => "InputObject"
  | .inputFieldDefinition => "InputFieldDefinition"

def DirectiveDef.json (d : DirectiveDef) : Json :=
  .object [("name", .str d.name), ("description", .ofString? d.description),
    ("args", .list (d.arguments.values.map InputField.json)),
    ("locations", .strings (d.locations.map DirectiveLocation.label)),
    ("repeatable", .bool d.repeatable)]

end SchemaAssembly
