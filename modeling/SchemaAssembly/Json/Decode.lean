import SchemaAssembly.Json.Text
import SchemaAssembly.Text.Literal

/-!
Reading JSON values into typed data. A record reads from an object, whose unknown members are
ignored, or from a list of its fields in order; the first failure is reported, members being read
in the order of their names.
-/

set_option autoImplicit false

namespace SchemaAssembly

inductive DecodeError where
  | missingField (name : String)
  | invalidType (found : Json) (expected : String)
  | invalidValue (found : Json) (expected : String)
  | invalidLength (length : Nat) (expected : String)
  | noVariant (name : String)

namespace DecodeError

/-- A value as an error message shows it. -/
def shown : Json → String
  | .null => "null"
  | .bool b => "boolean `" ++ toString b ++ "`"
  | .int n => "integer `" ++ toString n ++ "`"
  | .float x => "floating point `" ++ Layout.json.text x ++ "`"
  | .str s => "string " ++ literal s
  | .list _ => "sequence"
  | .obj _ => "map"

def message : DecodeError → String
  | missingField name => "missing field `" ++ name ++ "`"
  | invalidType found expected => "invalid type: " ++ shown found ++ ", expected " ++ expected
  | invalidValue found expected => "invalid value: " ++ shown found ++ ", expected " ++ expected
  | invalidLength n expected => "invalid length " ++ toString n ++ ", expected " ++ expected
  | noVariant name => "data did not match any variant of untagged enum " ++ name

end DecodeError

/-- A reading of JSON values as data of type `α`. -/
abbrev Decoder (α : Type) := Json → Except DecodeError α

namespace Decoder

variable {α : Type}

def any : Decoder Json := .ok

def string : Decoder String
  | .str s => .ok s
  | v => .error (.invalidType v "a string")

/-- A file path. -/
def path : Decoder String
  | .str s => .ok s
  | v => .error (.invalidType v "path string")

def bool : Decoder Bool
  | .bool b => .ok b
  | v => .error (.invalidType v "a boolean")

/-- An integer between bounds; `expected` names the width. -/
def integer (expected : String) (low high : Int) : Decoder Int
  | .int n => if low ≤ n ∧ n ≤ high then .ok n else .error (.invalidValue (.int n) expected)
  | v => .error (.invalidType v expected)

def int64 : Decoder Int := integer "i64" (-0x8000000000000000) 0x7fffffffffffffff

def byte : Decoder Int := integer "u8" 0 255

def size : Decoder Nat := fun v =>
  (integer "usize" 0 0xffffffffffffffff v).map Int.toNat

def number : Decoder Binary64
  | .int n => .ok (.ofInt n)
  | .float x => .ok x
  | v => .error (.invalidType v "f64")

/-- `null` is the absent value. -/
def option (d : Decoder α) : Decoder (Option α)
  | .null => .ok none
  | v => (d v).map some

def items (d : Decoder α) : List Json → Except DecodeError (List α)
  | [] => .ok []
  | v :: rest => do
    let x ← d v
    let xs ← items d rest
    return x :: xs

def list (d : Decoder α) : Decoder (List α)
  | .list vs => items d vs
  | v => .error (.invalidType v "a sequence")

def members : Decoder (List (String × Json))
  | .obj ms => .ok ms
  | v => .error (.invalidType v "a map")

end Decoder

/-- One field of a record under construction. -/
structure RecordField (σ : Type) where
  name : String
  required : Bool
  read : Json → σ → Except DecodeError σ

namespace RecordField

variable {σ : Type}

def of {α : Type} (name : String) (required : Bool) (d : Decoder α) (set : α → σ → σ) :
    RecordField σ :=
  ⟨name, required, fun v r => (d v).map fun x => set x r⟩

def readMembers (fields : List (RecordField σ)) :
    List (String × Json) → σ → Except DecodeError σ
  | [], r => .ok r
  | (n, v) :: rest, r =>
    match fields.find? fun f => f.name == n with
    | none => readMembers fields rest r
    | some f => do
      let r ← f.read v r
      readMembers fields rest r

/-- Reads listed fields; `typeName` and `count` appear when a required one is missing. -/
def readItems (typeName : String) (count : Nat) :
    Nat → List (RecordField σ) → List Json → σ → Except DecodeError σ
  | _, [], _, r => .ok r
  | i, f :: fs, [], r =>
    if f.required then
      .error (.invalidLength i (typeName ++ " with " ++ toString count ++ " elements"))
    else readItems typeName count (i + 1) fs [] r
  | i, f :: fs, v :: vs, r => do
    let r ← f.read v r
    readItems typeName count (i + 1) fs vs r

end RecordField

/-- Reads a record; `start` holds the defaults of the fields that are not required. Only an exact
reading refuses a list with more items than there are fields. -/
def Decoder.record {σ : Type} (typeName : String) (fields : List (RecordField σ)) (start : σ)
    (exact : Bool := true) : Decoder σ
  | .obj ms => do
    let r ← RecordField.readMembers fields ms start
    match fields.find? fun f => f.required && (findNamed? f.name ms).isNone with
    | some f => .error (.missingField f.name)
    | none => return r
  | .list vs => do
    let r ← RecordField.readItems typeName fields.length 0 fields vs start
    if exact && decide (fields.length < vs.length) then
      .error (.invalidLength vs.length "fewer elements in array")
    else return r
  | v => .error (.invalidType v typeName)

end SchemaAssembly
