import SchemaAssembly.Scalar.Coercing
import SchemaAssembly.Text.Blank
import SchemaAssembly.Wiring.CodeRegistry
import SchemaAssembly.Wiring.Directive

/-!
Runtime wiring: scalars, directive wirings, and fetchers and resolvers bound by hand.
-/

set_option autoImplicit false

namespace SchemaAssembly

structure RuntimeWiring where
  scalars : Entries ScalarType := []
  directives : Entries DirectiveWiring := []
  /-- The wirings of all fields, in order of registration. -/
  globals : List DirectiveWiring := []
  fetchers : FetcherTable := []
  resolvers : Entries TypeResolver := []

namespace RuntimeWiring

/-- Adds a scalar; one of the same name is replaced. -/
def addScalar (w : RuntimeWiring) (s : ScalarType) : RuntimeWiring :=
  { w with scalars := w.scalars.put s.name s }

/-- Adds the wiring of a directive; under a blank name, a wiring of all fields. -/
def addDirective (w : RuntimeWiring) (name : String) (wiring : DirectiveWiring) : RuntimeWiring :=
  if isBlankText name then { w with globals := w.globals ++ [wiring] }
  else { w with directives := w.directives.put name wiring }

def bind (w : RuntimeWiring) (c : Coordinates) (f : Fetcher) : RuntimeWiring :=
  { w with fetchers := FetcherTable.put c f w.fetchers }

def setResolver (w : RuntimeWiring) (name : String) (resolver : TypeResolver) : RuntimeWiring :=
  { w with resolvers := Entries.put name resolver w.resolvers }

def hasScalar (w : RuntimeWiring) (name : String) : Bool := w.scalars.contains name

def hasDirective (w : RuntimeWiring) (name : String) : Bool := Entries.contains name w.directives

/-- The fetcher of a field inside the wirings of its directives, in the order of their uses, and
then inside those of all fields. Coordinates that name no field keep their fetcher. -/
def wrap (w : RuntimeWiring) (types : TypeRegistry) (c : Coordinates) (f : Fetcher) : Fetcher :=
  match types.field? c with
  | none => f
  | some field =>
    let named := field.directives.foldl
      (fun f use =>
        match Entries.get? use.name w.directives with
        | some wiring => wiring ⟨c, field, types, some use⟩ f
        | none => f) f
    w.globals.foldl (fun f wiring => wiring ⟨c, field, types, none⟩ f) named

def isWired (w : RuntimeWiring) (field : FieldDef) : Bool :=
  field.directives.any fun use => w.hasDirective use.name

def wiredFields (w : RuntimeWiring) (types : TypeRegistry) : List Coordinates :=
  types.types.flatMap fun d =>
    match d.body with
    | .object fields _ =>
      (fields.values.filter w.isWired).map fun field => ⟨d.name, field.name⟩
    | _ => []

end RuntimeWiring

/-- What a contributor may do with a runtime wiring. -/
inductive WiringCall where
  | addScalar (s : ScalarType)
  | addDirective (name : String) (wiring : DirectiveWiring)
  | bind (c : Coordinates) (f : Fetcher)
  | setResolver (name : String) (resolver : TypeResolver)

def WiringCall.apply (w : RuntimeWiring) : WiringCall → RuntimeWiring
  | addScalar s => w.addScalar s
  | addDirective name wiring => w.addDirective name wiring
  | bind c f => w.bind c f
  | setResolver name resolver => w.setResolver name resolver

end SchemaAssembly
