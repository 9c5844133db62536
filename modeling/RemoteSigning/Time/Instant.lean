import RemoteSigning.Number.Power
import RemoteSigning.Text.Blank
import RemoteSigning.Time.Calendar
/-!
# Instants and their text

An instant in universal time, to the nanosecond. `Instant.toRfc3339` writes the profile of RFC 3339;
`Instant.ofRfc3339` reads a wider one, with blanks between the parts, years of any length after a
sign, and any offset below a day.
-/

namespace RemoteSigning.Time

open Text

/-- An instant. From `10 ^ 9` on the nanoseconds belong to a leap second, which follows the second
they are counted with. -/
structure Instant where
  /-- Seconds from the start of 1970. -/
  seconds : Int
  nanos : Nat
deriving DecidableEq, Repr

def Instant.le (a b : Instant) : Bool :=
  a.seconds < b.seconds || (a.seconds == b.seconds && a.nanos ≤ b.nanos)

/-- The instant at the start of a second, if it lies in the calendar. -/
def Instant.ofSeconds? (seconds : Int) : Option Instant :=
  if inCalendar seconds then some ⟨seconds, 0⟩ else none

/-- Why a text is no instant. -/
inductive InstantError where
  /-- A part is too large or the date does not exist. -/
  | outOfRange
  /-- A character cannot stand where it does. -/
  | invalid
  | tooShort
  | tooLong
  /-- In universal time the instant lies outside the calendar. -/
  | impossible
deriving DecidableEq, Repr

def InstantError.message : InstantError → String
  | .outOfRange => "input is out of range"
  | .invalid => "input contains invalid characters"
  | .tooShort => "premature end of input"
  | .tooLong => "trailing input"
  | .impossible => "no possible date and time matching input"

def digit? (c : Char) : Option Nat :=
  if '0' ≤ c && c ≤ '9' then some (c.toNat - 48) else none

/-- The greatest number that is read. -/
def greatestNumber : Nat := 2 ^ 63 - 1

/-- Reads up to `width` further digits after the value `n`. -/
def readMore (n : Nat) : Nat → List Char → Except InstantError (Nat × List Char)
  | 0, cs => .ok (n, cs)
  | _, [] => .ok (n, [])
  | width + 1, c :: cs =>
    match digit? c with
    | none => .ok (n, c :: cs)
    | some d =>
      if greatestNumber < n * 10 + d then .error .outOfRange else readMore (n * 10 + d) width cs

/-- Reads a number of one to `width` digits. -/
def readNumber (width : Nat) : List Char → Except InstantError (Nat × List Char)
  | [] => .error .tooShort
  | c :: cs => if (digit? c).isSome then readMore 0 width (c :: cs) else .error .invalid

/-- Reads a number of one or two digits within bounds, after blanks. -/
def readPart (low high : Nat) (cs : List Char) : Except InstantError (Nat × List Char) := do
  let (n, cs) ← readNumber 2 (trimLeft cs)
  if n < low ∨ high < n then throw .outOfRange
  return (n, cs)

/-- Reads a year: up to four digits, or any number after a sign. -/
def readYear (cs : List Char) : Except InstantError (Int × List Char) := do
  let (y, cs) ←
    match trimLeft cs with
    | '-' :: cs => do let (n, cs) ← readNumber cs.length cs; pure (-(n : Int), cs)
    | '+' :: cs => do let (n, cs) ← readNumber cs.length cs; pure ((n : Int), cs)
    | cs => do let (n, cs) ← readNumber 4 cs; pure ((n : Int), cs)
  if y < -2 ^ 31 ∨ 2 ^ 31 ≤ y then throw .outOfRange
  return (y, cs)

/-- Reads one given character, after blanks. -/
def readMark (mark : Char) (cs : List Char) : Except InstantError (List Char) :=
  match trimLeft cs with
  | [] => .error .tooShort
  | c :: cs => if c = mark then .ok cs else .error .invalid

/-- Reads the fraction of a second in nanoseconds, if there is one. Digits after the ninth do not
count. -/
def readFraction (cs : List Char) : Except InstantError (Nat × List Char) :=
  match cs with
  | '.' :: cs => do
    let (n, rest) ← readNumber 9 cs
    let width := cs.length - rest.length
    return (n * 10 ^ (9 - width), rest.dropWhile fun c => (digit? c).isSome)
  | cs => .ok (0, cs)

def readTwoDigits : List Char → Except InstantError (Nat × Nat × List Char)
  | a :: b :: cs =>
    match digit? a, digit? b with
    | some m, some n => .ok (m, n, cs)
    | _, _ => .error .invalid
  | [c] => if 128 ≤ c.toNat then .error .invalid else .error .tooShort
  | [] => .error .tooShort

/-- Reads the hours and minutes of an offset, in seconds. -/
def readOffsetDigits (cs : List Char) : Except InstantError (Int × List Char) := do
  let (h, h', cs) ← readTwoDigits cs
  let cs := cs.dropWhile fun c => c == ':' || isBlank c
  let (m, m', cs) ← readTwoDigits cs
  if 6 ≤ m then throw .outOfRange
  return (((h * 10 + h') * 3600 + (m * 10 + m') * 60 : Nat), cs)

/-- Reads an offset from universal time in seconds. -/
def readOffset (cs : List Char) : Except InstantError (Int × List Char) :=
  match cs with
  | u :: t :: c :: rest =>
    if (u.toLower, t.toLower, c.toLower) = ('u', 't', 'c') then .ok (0, rest) else sign cs
  | _ => sign cs
where
  sign : List Char → Except InstantError (Int × List Char)
    | [] => .error .tooShort
    | c :: cs =>
      if c = 'Z' ∨ c = 'z' then .ok (0, cs)
      else if c = '+' then readOffsetDigits cs
      else if c = '-' ∨ c = '\u2212' then do
        let (n, cs) ← readOffsetDigits cs
        return (-n, cs)
      else .error .invalid

def Instant.ofRfc3339 (text : String) : Except InstantError Instant := do
  let (year, cs) ← readYear text.toList
  let cs ← readMark '-' cs
  let (month, cs) ← readPart 1 12 cs
  let cs ← readMark '-' cs
  let (day, cs) ← readPart 1 31 cs
  let cs ←
    match cs with
    | [] => throw .tooShort
    | c :: cs => if c = 't' ∨ c = 'T' ∨ c = ' ' then pure cs else throw .invalid
  let (hour, cs) ← readPart 0 23 cs
  let cs ← readMark ':' cs
  let (minute, cs) ← readPart 0 59 cs
  let cs ← readMark ':' cs
  let (second, cs) ← readPart 0 60 cs
  let (fraction, cs) ← readFraction cs
  let (offset, cs) ← readOffset (trimLeft cs)
  if !(trimLeft cs).isEmpty then throw .tooLong
  let date : Date := ⟨year, month, day⟩
  if !date.isValid then throw .outOfRange
  if offset ≤ -secondsPerDay ∨ secondsPerDay ≤ offset then throw .outOfRange
  let local' := date.toDays * secondsPerDay + (hour * 3600 + minute * 60 + min second 59 : Nat)
  let seconds := local' - offset
  if !inCalendar seconds then throw .impossible
  return ⟨seconds, if second = 60 then fraction + 10 ^ 9 else fraction⟩

/-- The digits of a number, with zeros in front up to a width. -/
def padded (width n : Nat) : List Char :=
  let ds := Nat.toDigits 10 n
  List.replicate (width - ds.length) '0' ++ ds

/-- Four digits for a year from `0` to `9999`, otherwise a sign and at least four digits. -/
def yearText (y : Int) : List Char :=
  if 0 ≤ y ∧ y ≤ 9999 then padded 4 y.toNat
  else (if y < 0 then '-' else '+') :: padded 4 y.natAbs

def Date.text (d : Date) : List Char :=
  yearText d.year ++ '-' :: padded 2 d.month ++ '-' :: padded 2 d.day

def Instant.date (t : Instant) : Date := Date.ofDays (Int.fdiv t.seconds secondsPerDay)

/-- The seconds since the start of the instant's day. -/
def Instant.secondOfDay (t : Instant) : Nat := (Int.fmod t.seconds secondsPerDay).toNat

/-- The time of day, with colons. A leap second is the sixty-first of its minute. -/
def Instant.timeText (t : Instant) : List Char :=
  let s := t.secondOfDay
  let second := s % 60 + if 10 ^ 9 ≤ t.nanos then 1 else 0
  padded 2 (s / 3600) ++ ':' :: padded 2 (s / 60 % 60) ++ ':' :: padded 2 second

/-- The fraction of a second with a point, in no, three, six or nine digits. -/
def fractionText (nanos : Nat) : List Char :=
  if nanos = 0 then []
  else if nanos % 1000000 = 0 then '.' :: padded 3 (nanos / 1000000)
  else if nanos % 1000 = 0 then '.' :: padded 6 (nanos / 1000)
  else '.' :: padded 9 nanos

/-- The instant in universal time. -/
def Instant.toRfc3339 (t : Instant) : String :=
  String.ofList (t.date.text ++ 'T' :: t.timeText ++ fractionText (t.nanos % 10 ^ 9) ++ ['Z'])

def Instant.toPlainText (t : Instant) : String :=
  String.ofList (t.date.text ++ ' ' :: t.timeText) ++ " UTC"

end RemoteSigning.Time
