import SchemaAssembly.Entries
import SchemaAssembly.Json.Value

/-!
The tables of a TOML document under construction. A table remembers how it came to be: a header
may complete a table that other headers only implied, dotted keys may extend a table that dotted
keys made, and nothing is defined twice.
-/

set_option autoImplicit false

namespace SchemaAssembly

namespace Toml

inductive Origin where
  | header
  | impliedByHeader
  | dottedKey
  deriving DecidableEq

/-- What a name in a table stands for. -/
inductive Item where
  | value (v : Json)
  | table (origin : Origin) (entries : List (String × Item))
  | tables (earlier : List (List (String × Item))) (last : List (String × Item))

abbrev Table := List (String × Item)

def Table.set (name : String) (item : Item) (t : Table) : Table := Entries.put name item t

/-- Enters a value under a dotted key, relative to the table of the current header. The table that
takes the value must come from dotted keys; on the way there tables that headers imply will do. -/
def Table.insertDotted (value : Json) : List String → String → Table → Option Table
  | [], name, t => if Entries.contains name t then none else some (t.set name (.value value))
  | part :: path, name, t =>
    match Entries.get? part t with
    | none => (insertDotted value path name []).map fun u => t.set part (.table .dottedKey u)
    | some (.table .dottedKey u) =>
      (insertDotted value path name u).map fun w => t.set part (.table .dottedKey w)
    | some (.table .impliedByHeader u) =>
      if path.isEmpty then none
      else (insertDotted value path name u).map fun w => t.set part (.table .impliedByHeader w)
    | some _ => none

/-- Enters a table under a header path. `body` are the key lines below the header. -/
def Table.insertTable (fill : Table → Option Table) : List String → String → Table → Option Table
  | [], name, t =>
    match Entries.get? name t with
    | none => (fill []).map fun u => t.set name (.table .header u)
    | some (.table .impliedByHeader u) => (fill u).map fun w => t.set name (.table .header w)
    | some _ => none
  | part :: path, name, t =>
    match Entries.get? part t with
    | none =>
      (insertTable fill path name []).map fun u => t.set part (.table .impliedByHeader u)
    | some (.table origin u) =>
      (insertTable fill path name u).map fun w => t.set part (.table origin w)
    | some (.tables earlier last) =>
      (insertTable fill path name last).map fun w => t.set part (.tables earlier w)
    | some (.value _) => none

/-- Appends an element to the array of tables under a header path. -/
def Table.appendTable (fill : Table → Option Table) : List String → String → Table → Option Table
  | [], name, t =>
    match Entries.get? name t with
    | none => (fill []).map fun u => t.set name (.tables [] u)
    | some (.tables earlier last) =>
      (fill []).map fun u => t.set name (.tables (earlier ++ [last]) u)
    | some _ => none
  | part :: path, name, t =>
    match Entries.get? part t with
    | none =>
      (appendTable fill path name []).map fun u => t.set part (.table .impliedByHeader u)
    | some (.table origin u) =>
      (appendTable fill path name u).map fun w => t.set part (.table origin w)
    | some (.tables earlier last) =>
      (appendTable fill path name last).map fun w => t.set part (.tables earlier w)
    | some (.value _) => none

mutual

def Item.json : Item → Json
  | .value v => v
  | .table _ entries => .object (entriesJson entries)
  | .tables earlier last =>
    .list (elementsJson earlier ++ [.object (entriesJson last)])

def entriesJson : List (String × Item) → List (String × Json)
  | [] => []
  | (n, i) :: rest => (n, Item.json i) :: entriesJson rest

def elementsJson : List (List (String × Item)) → List Json
  | [] => []
  | t :: rest => .object (entriesJson t) :: elementsJson rest

end

def Table.json (t : Table) : Json := .object (entriesJson t)

end Toml

end SchemaAssembly
