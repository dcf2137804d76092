import SchemaAssembly.Text.Category

/-!
Text shown as a literal in a message: between double quotes, with short escapes for the common
control characters and `\u{…}` for everything that does not print by itself.
-/

set_option autoImplicit false

namespace SchemaAssembly

/-- Marks and joiners that combine with the character before them without being marks by category. -/
def otherExtenderRanges : List (Nat × Nat) := [
  (0x9be, 0x9be), (0x9d7, 0x9d7), (0xb3e, 0xb3e), (0xb57, 0xb57), (0xbbe, 0xbbe), (0xbd7, 0xbd7),
  (0xcc2, 0xcc2), (0xcd5, 0xcd6), (0xd3e, 0xd3e), (0xd57, 0xd57), (0xdcf, 0xdcf), (0xddf, 0xddf),
  (0x1b35, 0x1b35), (0x200c, 0x200c), (0x302e, 0x302f), (0xff9e, 0xff9f), (0x1133e, 0x1133e),
  (0x11357, 0x11357), (0x114b0, 0x114b0), (0x114bd, 0x114bd), (0x115af, 0x115af),
  (0x11930, 0x11930), (0x1d165, 0x1d165), (0x1d16e, 0x1d172), (0xe0020, 0xe007f)]

def combines (n : Nat) : Bool :=
  Category.nonspacingMark.holds n || Category.enclosingMark.holds n || inRanges otherExtenderRanges n

/-- Control, format, separator and unassigned characters do not print; the space does. -/
def isPrintable (n : Nat) : Bool :=
  if n = 0x20 then true
  else if n < 0x20 then false
  else if n < 0x7f then true
  else !(Category.control.holds n || Category.format.holds n || Category.surrogate.holds n ||
    Category.privateUse.holds n || Category.lineSeparator.holds n ||
    Category.paragraphSeparator.holds n || Category.spaceSeparator.holds n ||
    Category.unassigned.holds n)

/-- A character inside a literal. -/
def literalChar (c : Char) : List Char :=
  if c = '"' then ['\\', '"']
  else if c = '\\' then ['\\', '\\']
  else if c = '\x00' then ['\\', '0']
  else if c = '\t' then ['\\', 't']
  else if c = '\n' then ['\\', 'n']
  else if c = '\r' then ['\\', 'r']
  else if !combines c.toNat && isPrintable c.toNat then [c]
  else '\\' :: 'u' :: '\x7b' :: Nat.toDigits 16 c.toNat ++ ['\x7d']

def literal (s : String) : String :=
  String.ofList ('"' :: s.toList.flatMap literalChar ++ ['"'])

def literalList (items : List String) : String :=
  "[" ++ String.intercalate ", " (items.map literal) ++ "]"

end SchemaAssembly
