import SchemaAssembly.Json.Value

/-!
Field coordinates: a parent type and a field, written `Type.field` and ordered by type, then field.
-/

set_option autoImplicit false

namespace SchemaAssembly

structure Coordinates where
  parentType : String
  field : String
  deriving DecidableEq, Inhabited

def splitOnce (sep : Char) (cs : List Char) : Option (List Char × List Char) :=
  match cs with
  | [] => none
  | c :: rest =>
    if c = sep then some ([], rest)
    else (splitOnce sep rest).map fun (a, b) => (c :: a, b)

namespace Coordinates

/-- The key of the look-up tables, which is also the written form. -/
def key (c : Coordinates) : String := c.parentType ++ "." ++ c.field

/-- Reads `Type.field`; everything after the first point is the field, and neither part is empty. -/
def parse? (s : String) : Option Coordinates :=
  match splitOnce '.' s.toList with
  | none => none
  | some (t, f) =>
    if t.isEmpty || f.isEmpty then none else some ⟨String.ofList t, String.ofList f⟩

def before (a b : Coordinates) : Bool :=
  nameBefore a.parentType b.parentType ||
    (a.parentType == b.parentType && nameBefore a.field b.field)

end Coordinates

abbrev CoordinateMap (α : Type) := List (Coordinates × α)

namespace CoordinateMap

variable {α : Type}

def get? (c : Coordinates) : CoordinateMap α → Option α
  | [] => none
  | (d, v) :: rest => if d = c then some v else get? c rest

/-- Inserts in order; a value already there is replaced. -/
def insert (c : Coordinates) (value : α) : CoordinateMap α → CoordinateMap α
  | [] => [(c, value)]
  | (d, v) :: rest =>
    if c = d then (c, value) :: rest
    else if c.before d then (c, value) :: (d, v) :: rest
    else (d, v) :: insert c value rest

def contains (c : Coordinates) (m : CoordinateMap α) : Bool := (get? c m).isSome

/-- Inserts unless the coordinates are taken. -/
def insertIfAbsent (c : Coordinates) (value : α) (m : CoordinateMap α) : CoordinateMap α :=
  if contains c m then m else insert c value m

def keys (m : CoordinateMap α) : List Coordinates := m.map (·.1)

end CoordinateMap

end SchemaAssembly
