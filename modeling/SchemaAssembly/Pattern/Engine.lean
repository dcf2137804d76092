import SchemaAssembly.Pattern.Reader

/-!
Engines for patterns. The program takes them as they come; the standard one reads the part of the
pattern language that `Pattern` describes.
-/

set_option autoImplicit false

namespace SchemaAssembly

/-- Makes a test from a pattern, or none from a text that is no pattern. A text passes the test if
the pattern is found somewhere in it. -/
abbrev PatternEngine := String → Option (String → Bool)

def PatternEngine.standard : PatternEngine := fun source =>
  (Pattern.ofText? source).map Pattern.isFoundIn

end SchemaAssembly
