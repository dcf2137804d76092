/-!
References to types. A reference is non-null unless wrapped in `option`; the written form puts `!`
after what is non-null and brackets around list items.
-/

set_option autoImplicit false

namespace SchemaAssembly

inductive TypeRef where
  | named (name : String)
  | option (inner : TypeRef)
  | list (item : TypeRef)
  deriving DecidableEq, Inhabited

namespace TypeRef

def innermost : TypeRef → String
  | named name => name
  | option inner => inner.innermost
  | list item => item.innermost

def isNullable : TypeRef → Bool
  | option _ => true
  | _ => false

def text : TypeRef → String
  | named name => name ++ "!"
  | list item => "[" ++ item.text ++ "]!"
  | option (named name) => name
  | option (list item) => "[" ++ item.text ++ "]"
  | option (option inner) => text (option inner)

end TypeRef

end SchemaAssembly
