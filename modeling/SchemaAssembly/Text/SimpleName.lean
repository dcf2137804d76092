/-!
Simple names: the last part of a name whose parts are separated by two colons.
-/

set_option autoImplicit false

namespace SchemaAssembly

def untilColons : List Char → List Char
  | ':' :: ':' :: _ => []
  | [] => []
  | c :: rest => c :: untilColons rest

/-- The part after the last two colons in a row, or the whole name. -/
def simpleName (name : String) : String :=
  String.ofList (untilColons name.toList.reverse).reverse

end SchemaAssembly
