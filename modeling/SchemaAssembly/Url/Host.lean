import SchemaAssembly.Files.Path
import SchemaAssembly.Json.Reader

/-!
Hosts of URLs: domain names, IPv4 and IPv6 addresses, and the opaque hosts of schemes that are not
special.
-/

set_option autoImplicit false

namespace SchemaAssembly

namespace Url

inductive Fault where
  | relativeWithoutBase
  | emptyHost
  | invalidPort
  | invalidIpv4
  | invalidIpv6
  | invalidDomain
  | invalidDomainCharacter
  deriving DecidableEq

def Fault.message : Fault → String
  | relativeWithoutBase => "relative URL without a base"
  | emptyHost => "empty host"
  | invalidPort => "invalid port number"
  | invalidIpv4 => "invalid IPv4 address"
  | invalidIpv6 => "invalid IPv6 address"
  | invalidDomain => "invalid international domain name"
  | invalidDomainCharacter => "invalid domain character"

inductive Host where
  | name (text : List Char)
  | ipv4 (address : Nat)
  | ipv6 (pieces : List Nat)
  deriving DecidableEq

def utf8 (c : Char) : List Nat := (String.singleton c).toUTF8.toList.map UInt8.toNat

def upperHex (n : Nat) : Char := ((Nat.toDigits 16 n).head?.getD '0').toUpper

def percentBytes (c : Char) : List Char :=
  (utf8 c).flatMap fun b => ['%', upperHex (b / 16), upperHex (b % 16)]

/-- Escapes control characters, characters beyond ASCII and those of `set`. -/
def percentEncode (set : List Char) (c : Char) : List Char :=
  if c.toNat < 0x20 || 0x7f ≤ c.toNat || set.contains c then percentBytes c else [c]

/-- The bytes after undoing percent escapes. -/
def percentDecode : List Char → List Nat
  | '%' :: a :: b :: rest =>
    match hexNumber? [a, b] with
    | some n => n :: percentDecode rest
    | none => utf8 '%' ++ percentDecode (a :: b :: rest)
  | c :: rest => utf8 c ++ percentDecode rest
  | [] => []

inductive Ipv4Number where
  | none
  | tooLarge
  | value (n : Nat)

/-- A part of an address: decimal, octal after `0`, hexadecimal after `0x`. -/
def ipv4Number (cs : List Char) : Ipv4Number :=
  let (base, body) := match cs with
    | '0' :: 'x' :: rest | '0' :: 'X' :: rest => (16, rest)
    | '0' :: c :: rest => (8, c :: rest)
    | _ => (10, cs)
  let ok (c : Char) : Bool := match hexValue? c with
    | some d => decide (d < base)
    | Option.none => false
  if cs.isEmpty then .none
  else if !body.all ok then .none
  else
    let n := body.foldl (fun n c => n * base + (hexValue? c).getD 0) 0
    if n < 0x100000000 then .value n else .tooLarge

def endsInNumber (domain : List Char) : Bool :=
  let parts := Path.splitAt '.' domain
  let last := match parts.reverse with
    | [] :: before :: _ => some before
    | [] :: [] => Option.none
    | part :: _ => some part
    | [] => Option.none
  match last with
  | Option.none => false
  | some part =>
    (!part.isEmpty && part.all Char.isDigit) ||
      match ipv4Number part with
      | .none => false
      | _ => true

def readIpv4 (domain : List Char) : Except Fault Nat :=
  let parts := Path.splitAt '.' domain
  let parts := if parts.getLast? = some [] then parts.dropLast else parts
  if 4 < parts.length then .error .invalidIpv4
  else
    let numbers := parts.mapM fun p => match ipv4Number p with
      | .value n => some n
      | _ => Option.none
    match numbers with
    | Option.none => .error .invalidIpv4
    | some ns =>
      match ns.reverse with
      | [] => .error .invalidIpv4
      | last :: before =>
        if Nat.pow 256 (4 - before.length) ≤ last ∨ before.any (255 < ·) then .error .invalidIpv4
        else
          let high := before.reverse.foldl (fun n p => n * 256 + p) 0
          .ok (high * Nat.pow 256 (4 - before.length) + last)

def ipv4Text (n : Nat) : String :=
  String.intercalate "." ([n / 16777216, n / 65536 % 256, n / 256 % 256, n % 256].map toString)

/-- The dotted part at the end of an address, as two pieces. -/
def readDottedPieces (cs : List Char) : Option (List Nat) :=
  let parts := Path.splitAt '.' cs
  let number (p : List Char) : Option Nat :=
    if p.isEmpty || !p.all Char.isDigit || (p.head? == some '0' && 1 < p.length) then none
    else
      let n := p.foldl (fun n c => n * 10 + (c.toNat - '0'.toNat)) 0
      if n < 256 then some n else none
  match parts.mapM number with
  | some [a, b, c, d] => some [a * 256 + b, c * 256 + d]
  | _ => none

/-- Reads pieces; `seen` are those before, `gap` the count of pieces before the `::`. -/
def readPieces : Nat → List Nat → Option Nat → List Char → Option (List Nat × Option Nat)
  | 0, _, _, _ => none
  | fuel + 1, seen, gap, cs =>
    match cs with
    | [] => some (seen, gap)
    | ':' :: rest =>
      if seen.length = 8 ∨ gap.isSome then none
      else readPieces fuel (seen ++ [0]) (some (seen.length + 1)) rest
    | _ =>
      if seen.length = 8 then none
      else
        let ds := (cs.takeWhile fun c => (hexValue? c).isSome).take 4
        let value := (hexNumber? ds).getD 0
        match cs.drop ds.length with
        | [] => some (seen ++ [value], gap)
        | ':' :: [] => none
        | ':' :: rest => readPieces fuel (seen ++ [value]) gap rest
        | '.' :: _ =>
          if ds.isEmpty ∨ 6 < seen.length then none
          else (readDottedPieces cs).map fun two => (seen ++ two, gap)
        | _ => none

def readIpv6 (cs : List Char) : Except Fault (List Nat) :=
  let found := match cs with
    | [] | [_] => none
    | ':' :: ':' :: rest => readPieces (rest.length + 1) [0] (some 1) rest
    | ':' :: _ => none
    | _ => readPieces (cs.length + 1) [] none cs
  match found with
  | none => .error .invalidIpv6
  | some (pieces, gap) =>
    match gap with
    | some k => .ok (pieces.take k ++ List.replicate (8 - pieces.length) 0 ++ pieces.drop k)
    | none => if pieces.length = 8 then .ok pieces else .error .invalidIpv6

/-- The start and length of the first longest run of zeros. -/
def longestZeros : Nat → List Nat → Nat × Nat
  | _, [] => (0, 0)
  | i, p :: rest =>
    let own := ((p :: rest).takeWhile (· = 0)).length
    let later := longestZeros (i + 1) rest
    if later.2 ≤ own then (i, own) else later

def hexText (n : Nat) : String := String.ofList (Nat.toDigits 16 n)

def ipv6Text (pieces : List Nat) : String :=
  let (start, count) := longestZeros 0 pieces
  let join (ps : List Nat) : String := String.intercalate ":" (ps.map hexText)
  if count < 2 then join pieces
  else join (pieces.take start) ++ "::" ++ join (pieces.drop (start + count))

def bracketed? (cs : List Char) : Option (Except Fault Host) :=
  match cs with
  | '[' :: rest =>
    some (if rest.getLast? = some ']' then (readIpv6 rest.dropLast).map .ipv6
      else .error .invalidIpv6)
  | _ => none

def isForbiddenInDomain (b : Nat) : Bool :=
  decide (b ≤ 0x20 ∨ 0x7f ≤ b) || ("%#/:<>?@[\\]^|".toList.any fun c => c.toNat == b)

/-- The host of a special scheme; a domain name is put into lower case. -/
def readHost (cs : List Char) : Except Fault Host :=
  match bracketed? cs with
  | some r => r
  | none =>
    let bytes := percentDecode cs
    if bytes.any isForbiddenInDomain then .error .invalidDomain
    else
      let domain := bytes.map fun b => (Char.ofNat b).toLower
      if domain.isEmpty then .error .emptyHost
      else if endsInNumber domain then (readIpv4 domain).map .ipv4
      else .ok (.name domain)

/-- The host of any other scheme, kept but for escapes. -/
def readOpaqueHost (cs : List Char) : Except Fault Host :=
  match bracketed? cs with
  | some r => r
  | none =>
    if cs.any fun c => "\x00\t\n\r #/:<>?@[\\]^|".toList.contains c then
      .error .invalidDomainCharacter
    else .ok (.name (cs.flatMap (percentEncode [])))

def Host.text : Host → String
  | name cs => String.ofList cs
  | ipv4 n => ipv4Text n
  | ipv6 ps => "[" ++ ipv6Text ps ++ "]"

def Host.isEmpty : Host → Bool
  | name cs => cs.isEmpty
  | _ => false

end Url

end SchemaAssembly
