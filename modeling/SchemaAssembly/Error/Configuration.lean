import SchemaAssembly.Coordinates
import SchemaAssembly.Text.Literal

/-!
The problems that end an assembly: their causes, and the code, help and message reported for each.
-/

set_option autoImplicit false

namespace SchemaAssembly

/-- A place in a text; lines and columns count from one. -/
structure Position where
  line : Nat
  column : Nat
  deriving DecidableEq, Inhabited

inductive FragmentFault where
  | unexpected
  | invalidNumber (length : Nat)
  | missingQueryRoot
  | repeatedRoot (operation : String)
  | invalidExtension (message : String)
  deriving DecidableEq

def FragmentFault.message : FragmentFault → String
  | unexpected => "unexpected text"
  | invalidNumber n => "invalid number: number out of range at line 1 column " ++ toString n
  | missingQueryRoot => "schema definition is missing query root"
  | repeatedRoot operation => "multiple " ++ operation ++ " roots in schema definition"
  | invalidExtension message => message

inductive ConfigurationError where
  | noSchemaFound (locations : List String)
  | invalidFragment (fragment : String) (fault : FragmentFault) (position : Position)
  | invalidSchemaLocation (pattern : String) (message : String)
  | io (path : String) (message : String)
  | duplicateType (name first second : String)
  | duplicateDirective (name : String)
  | extensionOfUnknownType (name fragment : String)
  | missingParentType (parentType owner handler : String)
  | duplicateDataFetcher (coordinates : Coordinates)
  | invalidTypeResolver (typeName owner reason : String)
  | duplicateTypeResolver (typeName : String)
  | unnamedDataLoaderOnField (component : String)
  | decoratedDataLoader (component name : String)
  | duplicateDataLoader (name : String)
  | duplicateEntityFetcher (typename first second : String)
  | invalidConfig (message : String)
  deriving DecidableEq

namespace ConfigurationError

/-- The name of the cause, and the last part of its diagnostic code. -/
def names : ConfigurationError → String × String
  | noSchemaFound .. => ("NoSchemaFound", "no_schema")
  | invalidFragment .. => ("InvalidFragment", "invalid_fragment")
  | invalidSchemaLocation .. => ("InvalidSchemaLocation", "invalid_location")
  | io .. => ("Io", "io")
  | duplicateType .. => ("DuplicateType", "duplicate_type")
  | duplicateDirective .. => ("DuplicateDirective", "duplicate_directive")
  | extensionOfUnknownType .. => ("ExtensionOfUnknownType", "unknown_extension")
  | missingParentType .. => ("MissingParentType", "missing_parent_type")
  | duplicateDataFetcher .. => ("DuplicateDataFetcher", "duplicate_data_fetcher")
  | invalidTypeResolver .. => ("InvalidTypeResolver", "invalid_type_resolver")
  | duplicateTypeResolver .. => ("DuplicateTypeResolver", "duplicate_type_resolver")
  | unnamedDataLoaderOnField .. => ("UnnamedDataLoaderOnField", "unnamed_data_loader")
  | decoratedDataLoader .. => ("DecoratedDataLoader", "decorated_data_loader")
  | duplicateDataLoader .. => ("DuplicateDataLoader", "duplicate_data_loader")
  | duplicateEntityFetcher .. => ("DuplicateEntityFetcher", "duplicate_entity_fetcher")
  | invalidConfig .. => ("InvalidConfig", "invalid")

def name (e : ConfigurationError) : String := e.names.1

def code (e : ConfigurationError) : String := "gqlwire::config::" ++ e.names.2

def help? : ConfigurationError → Option String
  | noSchemaFound .. => some
      "add a schema location, pass raw schema text, or register a type definition contributor"
  | decoratedDataLoader .. => some
      "declare the loader on an undecorated component or at component scope"
  | _ => none

def message : ConfigurationError → String
  | noSchemaFound locations => "No schema files found in " ++ literalList locations
  | invalidFragment fragment fault p =>
    "Failed to parse schema fragment `" ++ fragment ++ "` at " ++ toString p.line ++ ":" ++
      toString p.column ++ ": " ++ fault.message
  | invalidSchemaLocation pattern why => "Invalid schema location `" ++ pattern ++ "`: " ++ why
  | io path why => "Failed to read `" ++ path ++ "`: " ++ why
  | duplicateType name first second =>
    "Type `" ++ name ++ "` is defined in both `" ++ first ++ "` and `" ++ second ++ "`"
  | duplicateDirective name => "Directive `@" ++ name ++ "` is defined more than once"
  | extensionOfUnknownType name fragment =>
    "Fragment `" ++ fragment ++ "` extends `" ++ name ++ "`, which is not defined"
  | missingParentType parentType owner handler =>
    "Parent type `" ++ parentType ++ "` not found for data fetcher " ++ owner ++ "." ++ handler
  | duplicateDataFetcher c => "Duplicate data fetchers registered for " ++ c.key
  | invalidTypeResolver typeName owner reason =>
    "Invalid type resolver on " ++ owner ++ " for `" ++ typeName ++ "`: " ++ reason
  | duplicateTypeResolver typeName =>
    "Duplicate type resolvers registered for `" ++ typeName ++ "`"
  | unnamedDataLoaderOnField component =>
    "Field-scoped data loader on `" ++ component ++ "` must declare a name"
  | decoratedDataLoader component name =>
    "Field-scoped data loader `" ++ name ++ "` cannot be declared on decorated component `" ++
      component ++ "`"
  | duplicateDataLoader name => "Duplicate data loader registered with name `" ++ name ++ "`"
  | duplicateEntityFetcher typename first second =>
    "Duplicate entity fetchers registered for `" ++ typename ++ "` on " ++ first ++ " and " ++
      second
  | invalidConfig why => "Invalid configuration: " ++ why

end ConfigurationError

end SchemaAssembly
