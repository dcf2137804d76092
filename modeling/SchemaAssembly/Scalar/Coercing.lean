import SchemaAssembly.Config.Settings
import SchemaAssembly.Scalar.Temporal
import SchemaAssembly.Url.Parse

/-!
Scalars: how their values convert between internal and external form. The extended scalars come in
three groups, which settings switch on and off.
-/

set_option autoImplicit false

namespace SchemaAssembly

structure CoercingError where
  message : String
  deriving DecidableEq

/-- The conversions of a scalar: results to responses, variables and literals to inputs. -/
structure Coercing where
  serialize : Json → Except CoercingError Json
  parseValue : Json → Except CoercingError Json
  parseLiteral : Json → Except CoercingError Json

structure ScalarType where
  name : String
  description : Option String
  coercing : Coercing

namespace Coercing

/-- One conversion for all three directions. -/
def same (f : Json → Except CoercingError Json) : Coercing := ⟨f, f, f⟩

/-- Literals convert as variables do. -/
def of (serialize parseValue : Json → Except CoercingError Json) : Coercing :=
  ⟨serialize, parseValue, parseValue⟩

def expectString (scalar : String) : Json → Except CoercingError String
  | .str s => .ok s
  | v => .error ⟨"Expected a string for " ++ scalar ++ " but was " ++ v.text⟩

def temporal (kind : TemporalKind) : Coercing :=
  same fun v => do
    let input ← expectString kind.name v
    match kind.normalize input with
    | .ok s => return .str s
    | .error e =>
      throw ⟨"Invalid " ++ kind.name ++ " `" ++ input ++ "`: " ++ e.message⟩

def object : Coercing :=
  same fun v =>
    match v with
    | .obj _ => .ok v
    | _ => .error ⟨"Expected an object but was " ++ v.text⟩

def any : Coercing := same .ok

def url : Coercing :=
  same fun v => do
    let input ← expectString "Url" v
    match Url.parse input with
    | .ok u => return .str u.text
    | .error e => throw ⟨"Invalid Url `" ++ input ++ "`: " ++ e.message⟩

def subtags (tag : List Char) : List (List Char) :=
  (Path.splitAt '-' (tag.map fun c => if c = '_' then '-' else c))

/-- A language of two or three letters, then subtags of one to eight letters or digits. -/
def isLocale (tag : List Char) : Bool :=
  match subtags tag with
  | [] => false
  | language :: rest =>
    (language.length = 2 || language.length = 3) && language.all Char.isAlpha &&
      rest.all fun p => 1 ≤ p.length && p.length ≤ 8 && p.all Char.isAlphanum

def locale : Coercing :=
  same fun v => do
    let input ← expectString "Locale" v
    if isLocale input.toList then
      return .str (String.ofList (input.toList.map fun c => if c = '_' then '-' else c))
    else throw ⟨"Invalid Locale `" ++ input ++ "`"⟩

/-- The integer written by an optional sign and digits, when it fits 64 bits. -/
def int64OfText? (s : String) : Option Int :=
  let (negative, ds) := match s.toList with
    | '-' :: rest => (true, rest)
    | '+' :: rest => (false, rest)
    | cs => (false, cs)
  if ds.isEmpty || !ds.all Char.isDigit then none
  else
    let n : Int := decimalValue ds
    (Json.int (if negative then -n else n)).asInt64?

def inRange (name : String) (low high n : Int) : Except CoercingError Json :=
  if low ≤ n ∧ n ≤ high then .ok (.int n)
  else .error ⟨name ++ " must be between " ++ toString low ++ " and " ++ toString high ++
    " but was " ++ toString n⟩

def expectedInteger (name : String) (v : Json) : CoercingError :=
  ⟨"Expected an integer for " ++ name ++ " but was " ++ v.text⟩

/-- Results may be written as text, inputs may not. -/
def integer (name : String) (low high : Int) : Coercing :=
  let serialize (v : Json) : Except CoercingError Json :=
    let number := match v with
      | .str s => int64OfText? s
      | _ => v.asInt64?
    match number with
    | some n => inRange name low high n
    | none => .error (expectedInteger name v)
  .of serialize fun v =>
    match v with
    | .str _ => .error (expectedInteger name v)
    | _ => serialize v

inductive Sign where
  | positive
  | negative
  | nonNegative
  | nonPositive
  deriving DecidableEq

def Sign.accepts (sign : Sign) (x : Binary64) : Bool :=
  match sign with
  | positive => decide (0 < x.units)
  | negative => decide (x.units < 0)
  | nonNegative => decide (0 ≤ x.units)
  | nonPositive => decide (x.units ≤ 0)

def float (name : String) (sign : Sign) : Coercing :=
  same fun v =>
    match v.asBinary64? with
    | none => .error ⟨"Expected a number for " ++ name ++ " but was " ++ v.text⟩
    | some x =>
      if sign.accepts x then .ok v
      else .error ⟨Layout.plain.text x ++ " is not a valid " ++ name⟩

end Coercing

namespace ScalarType

open Coercing

def timeDates : List ScalarType := [
  ⟨"DateTime", some "An RFC 3339 date-time with offset", temporal .dateTime⟩,
  ⟨"Date", some "An RFC 3339 full-date", temporal .date⟩,
  ⟨"Time", some "An RFC 3339 full-time with offset", temporal .time⟩,
  ⟨"LocalTime", some "A time of day without offset", temporal .localTime⟩]

def objects : List ScalarType := [
  ⟨"Object", some "An arbitrary JSON object", object⟩,
  ⟨"JSON", some "An arbitrary JSON value", any⟩,
  ⟨"Url", some "An absolute URL", url⟩,
  ⟨"Locale", some "An IETF BCP 47 language tag", locale⟩]

def integerOf (name : String) (low high : Int) : ScalarType := ⟨name, none, integer name low high⟩

def floatOf (name : String) (sign : Sign) : ScalarType := ⟨name, none, float name sign⟩

def numbers : List ScalarType := [
  integerOf "PositiveInt" 1 0x7fffffff,
  integerOf "NegativeInt" (-0x80000000) (-1),
  integerOf "NonNegativeInt" 0 0x7fffffff,
  integerOf "NonPositiveInt" (-0x80000000) 0,
  floatOf "PositiveFloat" .positive,
  floatOf "NegativeFloat" .negative,
  floatOf "NonNegativeFloat" .nonNegative,
  floatOf "NonPositiveFloat" .nonPositive,
  integerOf "Long" (-0x8000000000000000) 0x7fffffffffffffff,
  integerOf "Short" (-0x8000) 0x7fff,
  integerOf "Byte" (-0x80) 0x7f]

def extended (s : ScalarSettings) : List ScalarType :=
  if s.enabled then
    (if s.timeDates then timeDates else []) ++ (if s.objects then objects else []) ++
      (if s.numbers then numbers else [])
  else []

end ScalarType

end SchemaAssembly
