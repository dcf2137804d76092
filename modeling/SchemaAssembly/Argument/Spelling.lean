import SchemaAssembly.Text.LetterCase

/-!
Spelling of names with underscores: every uppercase letter becomes lowercase, with an underscore
before it unless it starts the name.
-/

set_option autoImplicit false

namespace SchemaAssembly

/-- The spelling of one character; `first` tells whether it starts the name. -/
def spellChar (first : Bool) (c : Char) : List Char :=
  if isUppercase c then (if first then lowerChars c else '_' :: lowerChars c) else [c]

def spellChars : List Char → List Char
  | [] => []
  | c :: rest => spellChar true c ++ rest.flatMap (spellChar false)

def snakeCase (name : String) : String := String.ofList (spellChars name.toList)

end SchemaAssembly
