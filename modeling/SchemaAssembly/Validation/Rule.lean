import SchemaAssembly.Pattern.Engine
import SchemaAssembly.Sdl.Fragment
import SchemaAssembly.Wiring.Directive

/-!
Constraints on field arguments, stated by the directives `@Size`, `@Range`, `@NotBlank` and
`@Pattern`. A fetcher behind constraints is reached only when no constraint is violated; otherwise
the value is null, with one error for each violated constraint.
-/

set_option autoImplicit false

namespace SchemaAssembly

def validationDirectives : List (String × String) := [
  ("Size",
    "directive @Size(min: Int = 0, max: Int = 2147483647, message: String) on ARGUMENT_DEFINITION | INPUT_FIELD_DEFINITION"),
  ("Range",
    "directive @Range(min: Int, max: Int, message: String) on ARGUMENT_DEFINITION | INPUT_FIELD_DEFINITION"),
  ("NotBlank",
    "directive @NotBlank(message: String) on ARGUMENT_DEFINITION | INPUT_FIELD_DEFINITION"),
  ("Pattern",
    "directive @Pattern(regexp: String!, message: String) on ARGUMENT_DEFINITION | INPUT_FIELD_DEFINITION")]

/-- The text that defines those directives that a registry lacks. -/
def missingDirectives? (r : TypeRegistry) : Option String :=
  match validationDirectives.filter fun d => (r.directive? d.1).isNone with
  | [] => none
  | missing => some (String.intercalate "\n" (missing.map (·.2)))

inductive Constraint where
  | size (least most : Int)
  | range (least most : Option Binary64)
  | notBlank
  /-- A test that texts must pass, with the pattern that it was made from. -/
  | pattern (source : String) (passes : String → Bool)

/-- The number of characters, items or members; other values have no size. -/
def sizeOf? : Json → Option Nat
  | .str s => some s.toList.length
  | .list items => some items.length
  | .obj members => some members.length
  | _ => none

namespace Constraint

def isViolatedBy : Constraint → Json → Bool
  | notBlank, .str s => isBlankText s
  | notBlank, _ => true
  | _, .null => false
  | size least most, v => (sizeOf? v).any fun n => decide (Int.ofNat n < least ∨ most < Int.ofNat n)
  | range least most, v =>
    v.asBinary64?.any fun x => (least.any fun l => x.lt l) || most.any fun m => m.lt x
  | pattern _ passes, .str s => !passes s
  | pattern .., _ => false

def boundText (unbounded : String) : Option Binary64 → String
  | none => unbounded
  | some x => Layout.plain.text x

def complaint : Constraint → String
  | size least most => "size must be between " ++ toString least ++ " and " ++ toString most
  | range least most =>
    "range must be between " ++ boundText "-inf" least ++ " and " ++ boundText "inf" most
  | notBlank => "must not be blank"
  | pattern source _ => "must match \"" ++ source ++ "\""

/-- The constraint that a directive states. A pattern must match the whole text; without a pattern
that can be read there is no constraint. -/
def ofDirective? (engine : PatternEngine) (d : DirectiveUse) : Option Constraint :=
  let integer? (name : String) : Option Int := (d.argument? name).bind Json.asInt64?
  let number? (name : String) : Option Binary64 := (d.argument? name).bind Json.asBinary64?
  match d.name with
  | "Size" => some (.size ((integer? "min").getD 0) ((integer? "max").getD 0x7fffffff))
  | "Range" => some (.range (number? "min") (number? "max"))
  | "NotBlank" => some .notBlank
  | "Pattern" => do
    let source ← (d.argument? "regexp").bind Json.asString?
    let passes ← engine ("^(?:" ++ source ++ ")$")
    return .pattern source passes
  | _ => none

end Constraint

/-- A constraint on one argument. -/
structure ValidationRule where
  argument : String
  constraint : Constraint
  /-- Said in place of the standard complaint. -/
  message : Option String

namespace ValidationRule

/-- The message about a value that breaks the rule. -/
def violation? (r : ValidationRule) (v : Json) : Option String :=
  if r.constraint.isViolatedBy v then
    some (r.argument ++ " " ++ r.message.getD r.constraint.complaint)
  else none

/-- The rules on an argument, in the order of its directives. -/
def ofArgument (engine : PatternEngine) (a : InputField) : List ValidationRule :=
  a.directives.filterMap fun d =>
    (Constraint.ofDirective? engine d).map fun c =>
      ⟨a.name, c, (d.argument? "message").bind Json.asString?⟩

def ofField (engine : PatternEngine) (f : FieldDef) : List ValidationRule :=
  f.arguments.values.flatMap (ofArgument engine)

end ValidationRule

/-- The messages about all violated rules, in order. An absent argument counts as null. -/
def violations (rules : List ValidationRule) (e : FieldEnvironment) : List String :=
  rules.filterMap fun r => r.violation? ((e.argument? r.argument).getD .null)

def violationError (e : FieldEnvironment) (message : String) : ResponseError :=
  ((ResponseError.of .badRequest message).withPath e.path).withExtension
    "classification" (.str "ExtendedValidation")

/-- A fetcher that is reached only when no rule is violated. -/
def Fetcher.validating (rules : List ValidationRule) (inner : Fetcher) : Fetcher where
  fetch e :=
    match violations rules e with
    | [] => inner.fetch e
    | messages => .done (.ok ⟨.null, messages.map (violationError e)⟩)
  subscribe e :=
    match violations rules e with
    | [] => inner.subscribe e
    | message :: _ => some (.error (.ofKind .badRequest message))

/-- Puts the rules of a field, if it has any, before its fetcher. -/
def DirectiveWiring.validation (engine : PatternEngine) : DirectiveWiring := fun wired fetcher =>
  match ValidationRule.ofField engine wired.field with
  | [] => fetcher
  | rules => fetcher.validating rules

end SchemaAssembly
