import SchemaAssembly.Error.Kind
import SchemaAssembly.Text.Literal

/-!
Failures inside one request: something needed to resolve a value was not found, or the request
itself is malformed.
-/

set_option autoImplicit false

namespace SchemaAssembly

inductive ResolutionError where
  | noArgumentResolver (index : Nat) (handler : String)
  | unsupportedParameter (index : Nat) (handler : String)
  | blankArgumentName (index : Nat) (handler : String)
  | invalidInputArgument (argument message : String)
  | noConcreteType (abstractType : String) (found : Option String)
  | invalidResolvedType (abstractType typeName : String)
  | missingEntityFetcher (typename : String)
  deriving DecidableEq

namespace ResolutionError

def name : ResolutionError → String
  | noArgumentResolver .. => "NoArgumentResolver"
  | unsupportedParameter .. => "UnsupportedParameter"
  | blankArgumentName .. => "BlankArgumentName"
  | invalidInputArgument .. => "InvalidInputArgument"
  | noConcreteType .. => "NoConcreteType"
  | invalidResolvedType .. => "InvalidResolvedType"
  | missingEntityFetcher .. => "MissingEntityFetcher"

def foundText : Option String → String
  | none => "None"
  | some s => "Some(" ++ literal s ++ ")"

def message : ResolutionError → String
  | noArgumentResolver index handler =>
    "Could not resolve parameter [" ++ toString index ++ "] in " ++ handler ++
      ": No suitable resolver"
  | unsupportedParameter index handler =>
    "Unsupported parameter [" ++ toString index ++ "] in " ++ handler ++
      "; supports() must be checked first"
  | blankArgumentName index handler =>
    "Input argument for parameter [" ++ toString index ++ "] in " ++ handler ++
      " has a blank name"
  | invalidInputArgument argument why => "Invalid input argument `" ++ argument ++ "`: " ++ why
  | noConcreteType abstractType found =>
    "The default type resolver could not find a suitable type for `" ++ abstractType ++
      "` (value typename: " ++ foundText found ++ ")"
  | invalidResolvedType abstractType typeName =>
    "Type resolver for `" ++ abstractType ++ "` returned `" ++ typeName ++
      "`, which is not one of its possible types"
  | missingEntityFetcher typename => "Missing entity fetcher for type " ++ typename

/-- Only a refused argument is the caller's fault. -/
def kind? : ResolutionError → Option ErrorKind
  | invalidInputArgument .. => some .badRequest
  | _ => none

end ResolutionError

inductive BadRequestError where
  | missingTypename
  | missingRepresentations
  deriving DecidableEq

def BadRequestError.message : BadRequestError → String
  | missingTypename => "missing __typename"
  | missingRepresentations => "The federated query is missing the `representations` argument"

end SchemaAssembly
