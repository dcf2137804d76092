import SchemaAssembly.Pattern.CharSet

/-!
Named character properties: general categories with their short and long names, a few properties,
and the larger scripts. Names are compared without case, blanks, hyphens and underscores, and
without a leading `is`.
-/

set_option autoImplicit false

namespace SchemaAssembly

/-- The form in which names are compared. -/
def propertyName (s : String) : String :=
  let cs := (s.toList.filter fun c => c != ' ' && c != '_' && c != '-').map Char.toLower
  match cs with
  | 'i' :: 's' :: rest => if rest = ['c'] then "isc" else String.ofList rest
  | _ => String.ofList cs

namespace CharSet

def generalCategory? : String → Option CharSet
  | "lu" | "uppercaseletter" => some (category .uppercaseLetter)
  | "ll" | "lowercaseletter" => some (category .lowercaseLetter)
  | "lt" | "titlecaseletter" => some (category .titlecaseLetter)
  | "lc" | "casedletter" =>
    some (ofCategories [.uppercaseLetter, .lowercaseLetter, .titlecaseLetter])
  | "lm" | "modifierletter" => some (category .modifierLetter)
  | "lo" | "otherletter" => some (category .otherLetter)
  | "l" | "letter" => some (ofCategories letters)
  | "mn" | "nonspacingmark" => some (category .nonspacingMark)
  | "mc" | "spacingmark" => some (category .spacingMark)
  | "me" | "enclosingmark" => some (category .enclosingMark)
  | "m" | "mark" | "combiningmark" => some (ofCategories marks)
  | "nd" | "decimalnumber" | "digit" => some (category .decimalNumber)
  | "nl" | "letternumber" => some (category .letterNumber)
  | "no" | "othernumber" => some (category .otherNumber)
  | "n" | "number" => some (ofCategories [.decimalNumber, .letterNumber, .otherNumber])
  | "pc" | "connectorpunctuation" => some (category .connectorPunctuation)
  | "pd" | "dashpunctuation" => some (category .dashPunctuation)
  | "ps" | "openpunctuation" => some (category .openPunctuation)
  | "pe" | "closepunctuation" => some (category .closePunctuation)
  | "pi" | "initialpunctuation" => some (category .initialPunctuation)
  | "pf" | "finalpunctuation" => some (category .finalPunctuation)
  | "po" | "otherpunctuation" => some (category .otherPunctuation)
  | "p" | "punctuation" | "punct" =>
    some (ofCategories [.connectorPunctuation, .dashPunctuation, .openPunctuation,
      .closePunctuation, .initialPunctuation, .finalPunctuation, .otherPunctuation])
  | "sm" | "mathsymbol" => some (category .mathSymbol)
  | "sc" | "currencysymbol" => some (category .currencySymbol)
  | "sk" | "modifiersymbol" => some (category .modifierSymbol)
  | "so" | "othersymbol" => some (category .otherSymbol)
  | "s" | "symbol" =>
    some (ofCategories [.mathSymbol, .currencySymbol, .modifierSymbol, .otherSymbol])
  | "zs" | "spaceseparator" => some (category .spaceSeparator)
  | "zl" | "lineseparator" => some (category .lineSeparator)
  | "zp" | "paragraphseparator" => some (category .paragraphSeparator)
  | "z" | "separator" =>
    some (ofCategories [.spaceSeparator, .lineSeparator, .paragraphSeparator])
  | "cc" | "control" | "cntrl" => some (category .control)
  | "cf" | "format" => some (category .format)
  | "co" | "privateuse" => some (category .privateUse)
  | "cn" | "unassigned" => some (category .unassigned)
  | "c" | "other" => some (ofCategories [.control, .format, .privateUse, .surrogate, .unassigned])
  | "any" => some (range 0 0x10ffff)
  | "ascii" => some (range 0 0x7f)
  | "assigned" => some (complement (category .unassigned))
  | _ => none

def otherLowercaseRanges : List (Nat × Nat) := [
  (0xaa, 0xaa), (0xba, 0xba), (0x2b0, 0x2b8), (0x2c0, 0x2c1), (0x2e0, 0x2e4), (0x345, 0x345),
  (0x37a, 0x37a), (0x10fc, 0x10fc), (0x1d2c, 0x1d6a), (0x1d78, 0x1d78), (0x1d9b, 0x1dbf),
  (0x2071, 0x2071), (0x207f, 0x207f), (0x2090, 0x209c), (0x2170, 0x217f), (0x24d0, 0x24e9),
  (0x2c7c, 0x2c7d), (0xa69c, 0xa69d), (0xa770, 0xa770), (0xa7f2, 0xa7f4), (0xa7f8, 0xa7f9),
  (0xab5c, 0xab5f), (0xab69, 0xab69), (0x10780, 0x10780), (0x10783, 0x10785),
  (0x10787, 0x107b0), (0x107b2, 0x107ba), (0x1e030, 0x1e06d)]

/-- Properties that hold or do not hold, by name. -/
def binaryProperty? : String → Option CharSet
  | "alphabetic" | "alpha" => some (union alphabetic (category .spacingMark))
  | "whitespace" | "wspace" | "space" => some blanks
  | "uppercase" | "upper" => some (union (category .uppercaseLetter) (ranges otherUppercaseRanges))
  | "lowercase" | "lower" => some (union (category .lowercaseLetter) (ranges otherLowercaseRanges))
  | "asciihexdigit" | "ahex" => asciiClass? "xdigit"
  | _ => none

def script? : String → Option CharSet
  | "latin" | "latn" => some (ranges [
    (0x41, 0x5a), (0x61, 0x7a), (0xaa, 0xaa), (0xba, 0xba), (0xc0, 0xd6), (0xd8, 0xf6),
    (0xf8, 0x2b8), (0x2e0, 0x2e4), (0x1d00, 0x1d25), (0x1d2c, 0x1d5c), (0x1d62, 0x1d65),
    (0x1d6b, 0x1d77), (0x1d79, 0x1dbe), (0x1e00, 0x1eff), (0x2071, 0x2071), (0x207f, 0x207f),
    (0x2090, 0x209c), (0x212a, 0x212b), (0x2132, 0x2132), (0x214e, 0x214e), (0x2160, 0x2188),
    (0x2c60, 0x2c7f), (0xa722, 0xa787), (0xa78b, 0xa7ca), (0xa7d0, 0xa7d1), (0xa7d3, 0xa7d3),
    (0xa7d5, 0xa7d9), (0xa7f2, 0xa7ff), (0xab30, 0xab5a), (0xab5c, 0xab64), (0xab66, 0xab69),
    (0xfb00, 0xfb06), (0xff21, 0xff3a), (0xff41, 0xff5a), (0x10780, 0x10785),
    (0x10787, 0x107b0), (0x107b2, 0x107ba), (0x1df00, 0x1df1e), (0x1df25, 0x1df2a)])
  | "greek" | "grek" => some (ranges [
    (0x370, 0x373), (0x375, 0x377), (0x37a, 0x37d), (0x37f, 0x37f), (0x384, 0x384),
    (0x386, 0x386), (0x388, 0x38a), (0x38c, 0x38c), (0x38e, 0x3a1), (0x3a3, 0x3e1),
    (0x3f0, 0x3ff), (0x1d26, 0x1d2a), (0x1d5d, 0x1d61), (0x1d66, 0x1d6a), (0x1dbf, 0x1dbf),
    (0x1f00, 0x1f15), (0x1f18, 0x1f1d), (0x1f20, 0x1f45), (0x1f48, 0x1f4d), (0x1f50, 0x1f57),
    (0x1f59, 0x1f59), (0x1f5b, 0x1f5b), (0x1f5d, 0x1f5d), (0x1f5f, 0x1f7d), (0x1f80, 0x1fb4),
    (0x1fb6, 0x1fc4), (0x1fc6, 0x1fd3), (0x1fd6, 0x1fdb), (0x1fdd, 0x1fef), (0x1ff2, 0x1ff4),
    (0x1ff6, 0x1ffe), (0x2126, 0x2126), (0xab65, 0xab65), (0x10140, 0x1018e),
    (0x101a0, 0x101a0), (0x1d200, 0x1d245)])
  | "cyrillic" | "cyrl" => some (ranges [
    (0x400, 0x484), (0x487, 0x52f), (0x1c80, 0x1c88), (0x1d2b, 0x1d2b), (0x1d78, 0x1d78),
    (0x2de0, 0x2dff), (0xa640, 0xa69f), (0xfe2e, 0xfe2f), (0x1e030, 0x1e06d), (0x1e08f, 0x1e08f)])
  | "hebrew" | "hebr" => some (ranges [
    (0x591, 0x5c7), (0x5d0, 0x5ea), (0x5ef, 0x5f4), (0xfb1d, 0xfb36), (0xfb38, 0xfb3c),
    (0xfb3e, 0xfb3e), (0xfb40, 0xfb41), (0xfb43, 0xfb44), (0xfb46, 0xfb4f)])
  | "thai" => some (ranges [(0xe01, 0xe3a), (0xe40, 0xe5b)])
  | "han" | "hani" => some (ranges [
    (0x2e80, 0x2e99), (0x2e9b, 0x2ef3), (0x2f00, 0x2fd5), (0x3005, 0x3005), (0x3007, 0x3007),
    (0x3021, 0x3029), (0x3038, 0x303b), (0x3400, 0x4dbf), (0x4e00, 0x9fff), (0xf900, 0xfa6d),
    (0xfa70, 0xfad9), (0x16fe2, 0x16fe3), (0x16ff0, 0x16ff1), (0x20000, 0x2a6df),
    (0x2a700, 0x2b739), (0x2b740, 0x2b81d), (0x2b820, 0x2cea1), (0x2ceb0, 0x2ebe0),
    (0x2ebf0, 0x2ee5d), (0x2f800, 0x2fa1d), (0x30000, 0x3134a), (0x31350, 0x323af)])
  | "hiragana" | "hira" => some (ranges [
    (0x3041, 0x3096), (0x309d, 0x309f), (0x1b001, 0x1b11f), (0x1b132, 0x1b132),
    (0x1b150, 0x1b152), (0x1f200, 0x1f200)])
  | "katakana" | "kana" => some (ranges [
    (0x30a1, 0x30fa), (0x30fd, 0x30ff), (0x31f0, 0x31ff), (0x32d0, 0x32fe), (0x3300, 0x3357),
    (0xff66, 0xff6f), (0xff71, 0xff9d), (0x1aff0, 0x1aff3), (0x1aff5, 0x1affb),
    (0x1affd, 0x1affe), (0x1b000, 0x1b000), (0x1b120, 0x1b122), (0x1b155, 0x1b155),
    (0x1b164, 0x1b167)])
  | "hangul" | "hang" => some (ranges [
    (0x1100, 0x11ff), (0x302e, 0x302f), (0x3131, 0x318e), (0x3200, 0x321e), (0x3260, 0x327e),
    (0xa960, 0xa97c), (0xac00, 0xd7a3), (0xd7b0, 0xd7c6), (0xd7cb, 0xd7fb), (0xffa0, 0xffbe),
    (0xffc2, 0xffc7), (0xffca, 0xffcf), (0xffd2, 0xffd7), (0xffda, 0xffdc)])
  | _ => none

/-- The set behind a property written alone. -/
def property? (name : String) : Option CharSet :=
  let n := propertyName name
  if n = "cf" ∨ n = "sc" ∨ n = "lc" then generalCategory? n
  else ((binaryProperty? n).or (generalCategory? n)).or (script? n)

/-- The set of characters for which a property has a value. -/
def propertyValue? (property value : String) : Option CharSet :=
  match propertyName property with
  | "generalcategory" | "gc" => generalCategory? (propertyName value)
  | "script" | "sc" | "scriptextensions" | "scx" => script? (propertyName value)
  | _ => none

end CharSet

end SchemaAssembly
