import SchemaAssembly.Fetcher.Basic

/-!
Directive wirings put fetchers around those of the fields that carry a directive, or around those
of all fields.
-/

set_option autoImplicit false

namespace SchemaAssembly

/-- A field whose fetcher is wrapped. -/
structure WiredField where
  coordinates : Coordinates
  field : FieldDef
  types : TypeRegistry
  /-- The use of the directive; none for wirings of all fields. -/
  directive : Option DirectiveUse

abbrev DirectiveWiring := WiredField → Fetcher → Fetcher

end SchemaAssembly
