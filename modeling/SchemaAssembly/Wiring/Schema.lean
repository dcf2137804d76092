import SchemaAssembly.Wiring.Runtime

/-!
Assembled schemas: types with the code behind them.
-/

set_option autoImplicit false

namespace SchemaAssembly

/-- Which fields clients may see. -/
abbrev Visibility := Coordinates → Bool

namespace Visibility

def all : Visibility := fun _ => true

/-- Hides the fields through which clients look at the schema itself. -/
def noIntrospection : Visibility := fun c => c.field != "__schema" && c.field != "__type"

end Visibility

structure Schema where
  types : TypeRegistry
  code : CodeRegistry
  scalars : Entries ScalarType
  visibility : Visibility
  /-- The text that the schema was built from, without what federation adds. -/
  sdl : String

namespace Schema

def fetcher (s : Schema) (c : Coordinates) : Fetcher := s.code.fetcher c

def scalar? (s : Schema) (name : String) : Option ScalarType := s.scalars.get? name

/-- Fields that begin with two underscores need not exist to be visible. -/
def isVisible (s : Schema) (c : Coordinates) : Bool :=
  ("__".toList.isPrefixOf c.field.toList || (s.types.field? c).isSome) && s.visibility c

def resolveType (s : Schema) (abstractType : String) (value : Json) :
    Except ResolutionError String :=
  let q : TypeQuestion := ⟨value, abstractType, s.types⟩
  match s.code.resolver? abstractType with
  | some resolver => resolver.checked q
  | none => .error q.noType

end Schema

end SchemaAssembly
