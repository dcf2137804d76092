import SchemaAssembly.Url.Host

/-!
Absolute URLs: reading by the rules of the living standard and writing in normal form, with
default ports dropped, dot segments resolved and everything unsafe percent-encoded.
-/

set_option autoImplicit false

namespace SchemaAssembly

/-- A URL in normal form; the parts are already encoded. -/
structure Url where
  scheme : String
  /-- User information, host and port; absent for URLs without `//`. -/
  authority : Option String
  path : String
  query : Option String
  fragment : Option String

namespace Url

inductive SchemeKind where
  | file
  | special
  | other
  deriving DecidableEq

def SchemeKind.isSpecial : SchemeKind → Bool
  | other => false
  | _ => true

def schemeKind (scheme : String) : SchemeKind :=
  if scheme = "file" then .file
  else if ["http", "https", "ws", "wss", "ftp"].contains scheme then .special
  else .other

def defaultPort? : String → Option Nat
  | "http" | "ws" => some 80
  | "https" | "wss" => some 443
  | "ftp" => some 21
  | _ => none

def fragmentSet : List Char := " \"<>`".toList

def pathSet : List Char := fragmentSet ++ "#?\x7b\x7d".toList

def userSet : List Char := pathSet ++ "/:;=@[\\]^|".toList

def querySet (special : Bool) : List Char := " \"#<>".toList ++ (if special then ['\''] else [])

/-- Drops control characters and blanks at both ends, and tabs and line breaks anywhere. -/
def cleaned (s : String) : List Char :=
  let blank (c : Char) : Bool := decide (c.toNat ≤ 0x20)
  let inner := ((s.toList.dropWhile blank).reverse.dropWhile blank).reverse
  inner.filter fun c => c ≠ '\t' && c ≠ '\n' && c ≠ '\r'

def isSchemeChar (c : Char) : Bool := c.isAlphanum || c = '+' || c = '-' || c = '.'

def readScheme (cs : List Char) : Option (String × List Char) :=
  match cs with
  | c :: _ =>
    if c.isAlpha then
      let scheme := cs.takeWhile isSchemeChar
      match cs.drop scheme.length with
      | ':' :: rest => some (String.ofList (scheme.map Char.toLower), rest)
      | _ => none
    else none
  | [] => none

def endsAuthority (special : Bool) (c : Char) : Bool :=
  c = '/' || c = '?' || c = '#' || (special && c = '\\')

/-- Splits at the last `@` of the authority. -/
def splitUserInfo (special : Bool) (cs : List Char) : Option (List Char × List Char) :=
  let authority := cs.takeWhile (!endsAuthority special ·)
  let host := (authority.reverse.takeWhile (· ≠ '@')).length
  if host < authority.length then
    let user := authority.length - host - 1
    some (cs.take user, cs.drop (user + 1))
  else none

/-- User name and password, encoded, with the `@` unless both are empty. -/
def userInfoText (user : List Char) : List Char :=
  let name := user.takeWhile (· ≠ ':')
  let password := (user.drop name.length).drop 1
  let encode := List.flatMap (percentEncode userSet)
  let encodedPassword := if password.isEmpty then [] else ':' :: encode password
  if name.isEmpty && password.isEmpty then [] else encode name ++ encodedPassword ++ ['@']

/-- The host text: up to a port or the end of the authority, brackets keeping their colons. -/
def takeHost (special : Bool) (inside : Bool) : List Char → List Char
  | [] => []
  | c :: rest =>
    if (c = ':' && !inside) || endsAuthority special c then []
    else c :: takeHost special (if c = '[' then true else if c = ']' then false else inside) rest

def readPort (cs : List Char) : Except Fault (Option Nat × List Char) :=
  let ds := cs.takeWhile Char.isDigit
  let port := ds.foldl (fun n c => n * 10 + (c.toNat - '0'.toNat)) 0
  let rest := cs.drop ds.length
  if 65535 < port then .error .invalidPort
  else
    match rest with
    | c :: _ =>
      if c = '/' ∨ c = '\\' ∨ c = '?' ∨ c = '#' then
        .ok (if ds.isEmpty then none else some port, rest)
      else .error .invalidPort
    | [] => .ok (if ds.isEmpty then none else some port, rest)

def isDriveLetter (seg : List Char) : Bool :=
  match seg with
  | [c, d] => c.isAlpha && (d = ':' || d = '|')
  | _ => false

def isNormalDriveLetter (seg : List Char) : Bool :=
  match seg with
  | [c, ':'] => c.isAlpha
  | _ => false

def isSingleDot (seg : List Char) : Bool :=
  seg = ['.'] || seg.map Char.toLower = ['%', '2', 'e']

def isDoubleDot (seg : List Char) : Bool :=
  let s := seg.map Char.toLower
  s = ['.', '.'] || s = ['.', '%', '2', 'e'] || s = ['%', '2', 'e', '.'] ||
    s = ['%', '2', 'e', '%', '2', 'e']

/-- Adds a segment to the reversed path; the last one when no separator follows it. -/
def addSegment (file last : Bool) (path : List (List Char)) (seg : List Char) :
    List (List Char) :=
  if isDoubleDot seg then
    let shorter := match path with
      | top :: below => if file && isNormalDriveLetter top then path else below
      | [] => []
    if last then [] :: shorter else shorter
  else if isSingleDot seg then (if last then [] :: path else path)
  else if file && isDriveLetter seg then [seg.headD 'c', ':'] :: path
  else seg :: path

/-- Reads segments; `seg` is the current one, reversed. Gives the reversed path and the rest. -/
def readSegments (kind : SchemeKind) (path : List (List Char)) (seg : List Char) :
    List Char → List (List Char) × List Char
  | [] => (addSegment (kind == .file) true path seg.reverse, [])
  | c :: rest =>
    if c = '/' || (kind.isSpecial && c = '\\') then
      readSegments kind (addSegment (kind == .file) false path seg.reverse) [] rest
    else if c = '?' || c = '#' then
      (addSegment (kind == .file) true path seg.reverse, c :: rest)
    else readSegments kind path ((percentEncode pathSet c).reverse ++ seg) rest

def segmentsText (path : List (List Char)) : List Char := path.reverse.flatMap ('/' :: ·)

def readPath (kind : SchemeKind) (cs : List Char) : List Char × List Char :=
  let (path, rest) := readSegments kind [] [] cs
  let text := segmentsText path
  if kind == .file then ('/' :: text.dropWhile (· = '/'), rest) else (text, rest)

/-- The path that starts here. Special URLs always have one. -/
def readPathStart (kind : SchemeKind) (cs : List Char) : List Char × List Char :=
  match cs with
  | c :: rest =>
    if c = '/' || (kind.isSpecial && c = '\\') then readPath kind rest
    else if !kind.isSpecial && (c = '?' || c = '#') then ([], cs)
    else readPath kind cs
  | [] => if kind.isSpecial then (['/'], []) else ([], [])

def readTail (special : Bool) (cs : List Char) : Option String × Option String :=
  let encode (set cs : List Char) : String := String.ofList (cs.flatMap (percentEncode set))
  match cs with
  | '?' :: rest =>
    let query := rest.takeWhile (· ≠ '#')
    let fragment := match rest.drop query.length with
      | '#' :: f => some (encode fragmentSet f)
      | _ => none
    (some (encode (querySet special) query), fragment)
  | '#' :: f => (none, some (encode fragmentSet f))
  | _ => (none, none)

def finish (scheme : String) (authority : Option String) (path : List Char) (rest : List Char) :
    Url :=
  let (query, fragment) := readTail (schemeKind scheme).isSpecial rest
  ⟨scheme, authority, String.ofList path, query, fragment⟩

/-- What follows `//`. -/
def readAuthority (scheme : String) (cs : List Char) : Except Fault Url := do
  let kind := schemeKind scheme
  let special := kind.isSpecial
  let (user, cs) ← match splitUserInfo special cs with
    | none => pure ([], cs)
    | some (user, rest) =>
      match user, rest with
      | [], c :: _ =>
        if endsAuthority special c then throw .emptyHost else pure ([], rest)
      | _, _ => pure (userInfoText user, rest)
  let hostText := takeHost special false cs
  let rest := cs.drop hostText.length
  if special && hostText.isEmpty then throw .emptyHost
  let host ← if special then readHost hostText else readOpaqueHost hostText
  if host.isEmpty && rest.head? == some ':' then throw .emptyHost
  let (port, rest) ← match rest with
    | ':' :: r => readPort r
    | _ => pure (none, rest)
  if host.isEmpty && !user.isEmpty then throw .emptyHost
  let portText := match port with
    | some p => if defaultPort? scheme == some p then "" else ":" ++ toString p
    | none => ""
  let (path, rest) := readPathStart kind rest
  return finish scheme (some (String.ofList user ++ host.text ++ portText)) path rest

/-- A file URL: the host is optional, and a drive letter displaces it. -/
def readFile (cs : List Char) : Except Fault Url := do
  let isSlash (c : Char) : Bool := c = '/' || c = '\\'
  match cs with
  | a :: b :: rest =>
    if isSlash a && isSlash b then
      let hostText := rest.takeWhile fun c => !(isSlash c || c = '?' || c = '#')
      if isDriveLetter hostText then
        let (path, tail) := readPath .file rest
        return finish "file" (some "") path tail
      let host ← if hostText.isEmpty then pure "" else do
        let h ← readHost hostText
        pure (if h == .name "localhost".toList then "" else h.text)
      let (path, tail) := readPathStart .file (rest.drop hostText.length)
      let hasDrive := (Path.splitAt '/' path).any isNormalDriveLetter
      return finish "file" (some (if hasDrive then "" else host)) path tail
    else
      let (path, tail) := readPath .file (if isSlash a then b :: rest else cs)
      return finish "file" (some "") path tail
  | [a] =>
    let (path, tail) := readPath .file (if isSlash a then [] else cs)
    return finish "file" (some "") path tail
  | [] => return finish "file" (some "") ['/'] []

def parse (s : String) : Except Fault Url := do
  match readScheme (cleaned s) with
  | none => throw .relativeWithoutBase
  | some (scheme, rest) =>
    match schemeKind scheme with
    | .file => readFile rest
    | .special => readAuthority scheme (rest.dropWhile fun c => c = '/' || c = '\\')
    | .other =>
      match rest with
      | '/' :: '/' :: more => readAuthority scheme more
      | '/' :: more =>
        let (path, tail) := readPath .other more
        let path := match path with
          | '/' :: '/' :: _ => '/' :: '.' :: path
          | _ => path
        return finish scheme none path tail
      | _ =>
        let opaquePath := rest.takeWhile fun c => c ≠ '?' && c ≠ '#'
        return finish scheme none (opaquePath.flatMap (percentEncode []))
          (rest.drop opaquePath.length)

def text (u : Url) : String :=
  u.scheme ++ ":" ++
    (match u.authority with
     | some a => "//" ++ a
     | none => "") ++
    u.path ++
    (match u.query with
     | some q => "?" ++ q
     | none => "") ++
    (match u.fragment with
     | some f => "#" ++ f
     | none => "")

end Url

end SchemaAssembly
