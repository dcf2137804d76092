import SchemaAssembly.Wiring.Schema

/-!
Summaries of assembled schemas, as text and as JSON.
-/

set_option autoImplicit false

namespace SchemaAssembly

structure FieldSummary where
  coordinates : Coordinates
  /-- Whether a fetcher is bound; otherwise the field reads a property of its parent. -/
  bound : Bool
  visible : Bool

structure SchemaSummary where
  /-- The keyword and the name of every type that is not built in. -/
  types : List (String × String)
  fields : List FieldSummary
  /-- In ascending order. -/
  scalars : List String
  federated : Bool

def insertName (name : String) : List String → List String
  | [] => [name]
  | n :: rest => if nameBefore n name then n :: insertName name rest else name :: n :: rest

namespace SchemaSummary

def ofSchema (s : Schema) : SchemaSummary :=
  let own := (s.types.declared.filter fun d => d.origin != builtinOrigin).map (·.definition)
  { types := own.map fun d => (d.keyword, d.name)
    fields := own.flatMap fun d =>
      ((d.fields?.getD []).keys).map fun f =>
        let c : Coordinates := ⟨d.name, f⟩
        ⟨c, s.code.isBound c, s.isVisible c⟩
    scalars := (s.scalars.values.map (·.name)).foldr insertName []
    federated := s.types.contains "_Service" }

def json (s : SchemaSummary) : Json :=
  .object [
    ("types", .list (s.types.map fun t => .object [("kind", .str t.1), ("name", .str t.2)])),
    ("fields", .list (s.fields.map fun f => .object [
      ("coordinates", .str f.coordinates.key), ("bound", .bool f.bound),
      ("visible", .bool f.visible)])),
    ("scalars", .strings s.scalars),
    ("federated", .bool s.federated)]

def lines (s : SchemaSummary) : List String :=
  ["Types"] ++ s.types.map (fun t => "  " ++ t.1 ++ " " ++ t.2) ++ ["Fields"] ++
    s.fields.map (fun f =>
      "  " ++ f.coordinates.key ++ " " ++ (if f.bound then "bound" else "property") ++
        (if f.visible then "" else " (hidden)")) ++
    (if s.scalars.isEmpty then [] else ["Scalars " ++ String.intercalate ", " s.scalars]) ++
    (if s.federated then ["Federation enabled"] else [])

end SchemaSummary

end SchemaAssembly
