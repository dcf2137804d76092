import SchemaAssembly.Number.Binary64

/-!
JSON values. An object is the list of its members in ascending order of their names, each name
once; `Json.object` builds that form from any list of members. Integers and floating-point numbers
are different values even where they are numerically equal.
-/

set_option autoImplicit false

namespace SchemaAssembly

inductive Json where
  | null
  | bool (b : Bool)
  | int (n : Int)
  | float (x : Binary64)
  | str (s : String)
  | list (items : List Json)
  | obj (members : List (String × Json))
  deriving Inhabited

/-- Names are compared by code points, which is also the order of their UTF-8 bytes. -/
def charsBefore : List Char → List Char → Bool
  | _, [] => false
  | [], _ :: _ => true
  | a :: as, b :: bs =>
    if a.toNat < b.toNat then true else if b.toNat < a.toNat then false else charsBefore as bs

def nameBefore (a b : String) : Bool := charsBefore a.toList b.toList

/-- Inserts into a list in ascending order of names; a value already there is replaced. -/
def insertNamed {α : Type} (name : String) (value : α) : List (String × α) → List (String × α)
  | [] => [(name, value)]
  | (n, v) :: rest =>
    if name = n then (name, value) :: rest
    else if nameBefore name n then (name, value) :: (n, v) :: rest
    else (n, v) :: insertNamed name value rest

/-- The value under a name in a list of pairs. -/
def findNamed? {α : Type} (name : String) : List (String × α) → Option α
  | [] => none
  | (n, v) :: rest => if n = name then some v else findNamed? name rest

namespace Json

/-- An object from members in any order; the last of equal names counts. -/
def object (members : List (String × Json)) : Json :=
  .obj (members.foldl (fun acc m => insertNamed m.1 m.2 acc) [])

def strings (items : List String) : Json := .list (items.map .str)

def ofString? : Option String → Json
  | none => .null
  | some s => .str s

def asString? : Json → Option String
  | .str s => some s
  | _ => none

def asList? : Json → Option (List Json)
  | .list items => some items
  | _ => none

def asObject? : Json → Option (List (String × Json))
  | .obj members => some members
  | _ => none

def asBool? : Json → Option Bool
  | .bool b => some b
  | _ => none

/-- The integer when it fits 64 bits with a sign. -/
def asInt64? : Json → Option Int
  | .int n => if -0x8000000000000000 ≤ n ∧ n < 0x8000000000000000 then some n else none
  | _ => none

/-- The integer when it is not negative. -/
def asNat? : Json → Option Nat
  | .int n => if 0 ≤ n then some n.toNat else none
  | _ => none

def asBinary64? : Json → Option Binary64
  | .int n => some (.ofInt n)
  | .float x => some x
  | _ => none

def isNull : Json → Bool
  | .null => true
  | _ => false

def get? (name : String) : Json → Option Json
  | .obj members => findNamed? name members
  | _ => none

mutual

/-- Equality of values: the two zeros of binary64 are equal. -/
def beq : Json → Json → Bool
  | .null, .null => true
  | .bool a, .bool b => a == b
  | .int a, .int b => a == b
  | .float a, .float b => a.units == b.units
  | .str a, .str b => a == b
  | .list as, .list bs => beqList as bs
  | .obj as, .obj bs => beqMembers as bs
  | _, _ => false

def beqList : List Json → List Json → Bool
  | [], [] => true
  | a :: as, b :: bs => beq a b && beqList as bs
  | _, _ => false

def beqMembers : List (String × Json) → List (String × Json) → Bool
  | [], [] => true
  | (n, a) :: as, (m, b) :: bs => n == m && (beq a b && beqMembers as bs)
  | _, _ => false

end

end Json

end SchemaAssembly
