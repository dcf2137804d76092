import SchemaAssembly.Json.Value

/-!
Paths as text, with `/` between their components. Two paths are the same when their components
are: repeated separators and inner `.` components do not count.
-/

set_option autoImplicit false

namespace SchemaAssembly

namespace Path

inductive Component where
  | root
  | current
  | parent
  | named (name : String)
  deriving DecidableEq

def splitAt (sep : Char) : List Char → List (List Char)
  | [] => [[]]
  | c :: rest =>
    if c = sep then [] :: splitAt sep rest
    else
      match splitAt sep rest with
      | [] => [[c]]
      | part :: parts => (c :: part) :: parts

def isAbsolute (p : String) : Bool := p.toList.head? == some '/'

def component? (part : List Char) : Option Component :=
  if part.isEmpty || part = ['.'] then none
  else if part = ['.', '.'] then some .parent
  else some (.named (String.ofList part))

def components (p : String) : List Component :=
  match splitAt '/' p.toList with
  | [] => []
  | first :: rest =>
    let head : List Component :=
      if rest.isEmpty && first.isEmpty then []
      else if first.isEmpty then [.root]
      else if first = ['.'] then [.current]
      else (component? first).toList
    head ++ rest.filterMap component?

def Component.rank : Component → Nat
  | .root => 0
  | .current => 1
  | .parent => 2
  | .named _ => 3

def componentBefore : Component → Component → Bool
  | .named a, .named b => nameBefore a b
  | a, b => decide (a.rank < b.rank)

/-- The order of paths, component by component. -/
def componentsBefore : List Component → List Component → Bool
  | _, [] => false
  | [], _ :: _ => true
  | a :: as, b :: bs => if a = b then componentsBefore as bs else componentBefore a b

/-- Appends a relative path; an absolute one replaces the base. -/
def join (base p : String) : String :=
  if isAbsolute p then p
  else if base.isEmpty || base.toList.getLast? == some '/' then base ++ p
  else base ++ "/" ++ p

/-- Drops separators and `.` components from the end of a reversed path. -/
def trimEnd : List Char → List Char
  | '/' :: rest => if rest.isEmpty then ['/'] else trimEnd rest
  | '.' :: '/' :: rest => if rest.isEmpty then ['/'] else trimEnd rest
  | cs => cs

/-- The path without its last component, unless it has none. -/
def parent? (p : String) : Option String :=
  match (components p).getLast? with
  | none | some .root => none
  | some _ =>
    let shortened := (trimEnd p.toList.reverse).dropWhile (· ≠ '/')
    some (String.ofList (trimEnd shortened).reverse)

end Path

end SchemaAssembly
