import SchemaAssembly.Text.Blank

/-!
Dates and times as scalars: an RFC 3339 date-time, a date, a time with offset and a local time.
Each reader gives a value or the first fault it meets; each value has one written form.
-/

set_option autoImplicit false

namespace SchemaAssembly

inductive TemporalFault where
  | outOfRange
  | invalid
  | tooShort
  | tooLong
  deriving DecidableEq

def TemporalFault.message : TemporalFault → String
  | outOfRange => "input is out of range"
  | invalid => "input contains invalid characters"
  | tooShort => "premature end of input"
  | tooLong => "trailing input"

structure CalendarDate where
  year : Int
  month : Nat
  day : Nat
  deriving DecidableEq

/-- A time of day; second 60 is a leap second. -/
structure TimeOfDay where
  hour : Nat
  minute : Nat
  second : Nat
  nanosecond : Nat
  deriving DecidableEq

/-- An offset from UTC of less than a day, in minutes. -/
structure UtcOffset where
  negative : Bool
  hours : Nat
  minutes : Nat
  deriving DecidableEq

namespace Temporal

abbrev Reading (α : Type) := Except TemporalFault (α × List Char)

def isLeap (year : Int) : Bool :=
  year % 4 == 0 && (year % 100 != 0 || year % 400 == 0)

def monthLength (year : Int) (month : Nat) : Nat :=
  if month = 2 then (if isLeap year then 29 else 28)
  else if month = 4 ∨ month = 6 ∨ month = 9 ∨ month = 11 then 30
  else 31

/-- A date of the calendar, within the years that are kept. -/
def date? (year : Int) (month day : Nat) : Except TemporalFault CalendarDate :=
  if -262143 ≤ year ∧ year ≤ 262142 ∧ 1 ≤ month ∧ month ≤ 12 ∧ 1 ≤ day ∧
      day ≤ monthLength year month then
    .ok ⟨year, month, day⟩
  else .error .outOfRange

def time? (hour minute second nanosecond : Nat) : Except TemporalFault TimeOfDay :=
  if hour < 24 ∧ minute < 60 ∧ second ≤ 60 then .ok ⟨hour, minute, second, nanosecond⟩
  else .error .outOfRange

def digit? (c : Char) : Except TemporalFault Nat :=
  if c.isDigit then .ok (c.toNat - '0'.toNat) else .error .invalid

def readDigit : List Char → Except TemporalFault (Nat × List Char)
  | [] => .error .tooShort
  | c :: rest => (digit? c).map (·, rest)

def readTwo (cs : List Char) : Except TemporalFault (Nat × List Char) := do
  let (a, cs) ← readDigit cs
  let (b, cs) ← readDigit cs
  return (a * 10 + b, cs)

def readFour (cs : List Char) : Except TemporalFault (Nat × List Char) := do
  let (a, cs) ← readTwo cs
  let (b, cs) ← readTwo cs
  return (a * 100 + b, cs)

def expect (c : Char) : List Char → Except TemporalFault (List Char)
  | [] => .error .tooShort
  | d :: rest => if c = d then .ok rest else .error .invalid

def digitsValue (ds : List Char) : Nat := ds.foldl (fun n c => n * 10 + (c.toNat - '0'.toNat)) 0

/-- At least one digit and at most `limit`. -/
def readNumber (limit : Option Nat) (cs : List Char) : Except TemporalFault (Nat × List Char) :=
  let run := cs.takeWhile Char.isDigit
  let ds := match limit with
    | some n => run.take n
    | none => run
  if ds.isEmpty then .error (if cs.isEmpty then .tooShort else .invalid)
  else .ok (digitsValue ds, cs.drop ds.length)

/-- The fraction of a second after its point; digits after the ninth are dropped. -/
def readFraction (cs : List Char) : Except TemporalFault (Nat × List Char) :=
  let run := cs.takeWhile Char.isDigit
  if run.isEmpty then .error (if cs.isEmpty then .tooShort else .invalid)
  else
    let ds := run.take 9
    .ok (digitsValue ds * Nat.pow 10 (9 - ds.length), cs.drop run.length)

def readOptionalFraction : List Char → Except TemporalFault (Nat × List Char)
  | '.' :: rest => readFraction rest
  | cs => .ok (0, cs)

/-- `Z`, or a sign with hours and minutes. -/
def readOffset (cs : List Char) : Except TemporalFault (UtcOffset × List Char) := do
  match cs with
  | [] => throw .tooShort
  | c :: rest =>
    if c = 'Z' ∨ c = 'z' then return (⟨false, 0, 0⟩, rest)
    if c ≠ '+' ∧ c ≠ '-' ∧ c ≠ '−' then throw .invalid
    match rest with
    | [] => throw .tooShort
    | [d] => throw (if d.toNat < 128 then .tooShort else .invalid)
    | _ =>
      let (hours, rest) ← readTwo rest
      let rest ← expect ':' rest
      match rest with
      | [] => throw .tooShort
      | [d] => throw (if d.toNat < 128 then .tooShort else .invalid)
      | a :: b :: tail =>
        let m ← digit? a
        let n ← digit? b
        if 6 ≤ m then throw .outOfRange
        let total := hours * 60 + (m * 10 + n)
        return (⟨decide (c ≠ '+' ∧ 0 < total), hours, m * 10 + n⟩, tail)

/-- A date, `T`, `t` or a blank, a time and an offset; nothing else. -/
def readDateTime (s : String) : Except TemporalFault (CalendarDate × TimeOfDay × UtcOffset) := do
  if s.utf8ByteSize < 19 then throw .tooShort
  let (year, cs) ← readFour s.toList
  let cs ← expect '-' cs
  let (month, cs) ← readTwo cs
  let cs ← expect '-' cs
  let (day, cs) ← readTwo cs
  let date ← date? year month day
  let cs ← match cs with
    | c :: rest => if c = 'T' ∨ c = 't' ∨ c = ' ' then pure rest else throw .invalid
    | [] => throw .tooShort
  let (hour, cs) ← readTwo cs
  let cs ← expect ':' cs
  let (minute, cs) ← readTwo cs
  let cs ← expect ':' cs
  let (second, cs) ← readTwo cs
  let (nanosecond, cs) ← readOptionalFraction cs
  let time ← time? hour minute second nanosecond
  let (offset, cs) ← readOffset cs
  if 24 ≤ offset.hours then throw .outOfRange
  if cs.isEmpty then return (date, time, offset) else throw .tooLong

/-- A number after white space, within bounds. -/
def readPart (limit low high : Nat) (cs : List Char) : Except TemporalFault (Nat × List Char) := do
  let (n, rest) ← readNumber (some limit) (trimStart cs)
  if low ≤ n ∧ n ≤ high then return (n, rest) else throw .outOfRange

/-- A year of up to four digits, or of any length after a sign. -/
def readYear (cs : List Char) : Except TemporalFault (Int × List Char) := do
  let (year, rest) ← match trimStart cs with
    | '-' :: body => (readNumber none body).map fun (n, r) => (-(n : Int), r)
    | '+' :: body => (readNumber none body).map fun (n, r) => ((n : Int), r)
    | body => (readNumber (some 4) body).map fun (n, r) => ((n : Int), r)
  if -0x80000000 ≤ year ∧ year < 0x80000000 then return (year, rest) else throw .outOfRange

def readDate (s : String) : Except TemporalFault CalendarDate := do
  let (year, cs) ← readYear s.toList
  let cs ← expect '-' cs
  let (month, cs) ← readPart 2 1 12 cs
  let cs ← expect '-' cs
  let (day, cs) ← readPart 2 1 31 cs
  if cs.isEmpty then date? year month day else throw .tooLong

def readLocalTime (s : String) : Except TemporalFault TimeOfDay := do
  let (hour, cs) ← readPart 2 0 23 s.toList
  let cs ← expect ':' cs
  let (minute, cs) ← readPart 2 0 59 cs
  let cs ← expect ':' cs
  let (second, cs) ← readPart 2 0 60 cs
  let (nanosecond, cs) ← readOptionalFraction cs
  if cs.isEmpty then time? hour minute second nanosecond else throw .tooLong

/-- Decimal digits, padded with zeros in front. -/
def padded (width n : Nat) : String :=
  let ds := Nat.toDigits 10 n
  String.ofList (List.replicate (width - ds.length) '0' ++ ds)

/-- Four digits; years outside 0 to 9999 have a sign. -/
def yearText (year : Int) : String :=
  if 0 ≤ year ∧ year ≤ 9999 then padded 4 year.toNat
  else (if year < 0 then "-" else "+") ++ padded 4 year.natAbs

def dateText (d : CalendarDate) : String :=
  yearText d.year ++ "-" ++ padded 2 d.month ++ "-" ++ padded 2 d.day

/-- Nothing, or a point and three, six or nine digits. -/
def fractionText (nanosecond : Nat) : String :=
  if nanosecond = 0 then ""
  else if nanosecond % 1000000 = 0 then "." ++ padded 3 (nanosecond / 1000000)
  else if nanosecond % 1000 = 0 then "." ++ padded 6 (nanosecond / 1000)
  else "." ++ padded 9 nanosecond

def timeText (t : TimeOfDay) : String :=
  padded 2 t.hour ++ ":" ++ padded 2 t.minute ++ ":" ++ padded 2 t.second ++
    fractionText t.nanosecond

def offsetText (o : UtcOffset) : String :=
  (if o.negative then "-" else "+") ++ padded 2 o.hours ++ ":" ++ padded 2 o.minutes

def dateTimeText (d : CalendarDate) (t : TimeOfDay) (o : UtcOffset) : String :=
  dateText d ++ "T" ++ timeText t ++
    (if o.hours = 0 ∧ o.minutes = 0 then "Z" else offsetText o)

end Temporal

inductive TemporalKind where
  | dateTime
  | date
  | time
  | localTime
  deriving DecidableEq

namespace TemporalKind

def name : TemporalKind → String
  | dateTime => "DateTime"
  | date => "Date"
  | time => "Time"
  | localTime => "LocalTime"

/-- The written form of what the text stands for. A time is read as that of a fixed day. -/
def normalize (kind : TemporalKind) (s : String) : Except TemporalFault String :=
  match kind with
  | dateTime => (Temporal.readDateTime s).map fun (d, t, o) => Temporal.dateTimeText d t o
  | date => (Temporal.readDate s).map Temporal.dateText
  | time => (Temporal.readDateTime ("1970-01-01T" ++ s)).map fun (_, t, o) =>
      Temporal.timeText t ++ Temporal.offsetText o
  | localTime => (Temporal.readLocalTime s).map Temporal.timeText

end TemporalKind

end SchemaAssembly
