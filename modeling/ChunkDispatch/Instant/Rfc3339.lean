import ChunkDispatch.Instant
import ChunkDispatch.Instant.Calendar
import ChunkDispatch.Text.Blank
import ChunkDispatch.Text.Integer

/-!
# The text of an instant

An instant is written in universal time as RFC 3339 lays down, `2020-01-02T03:04:05.250Z`, with a
fraction of no, 3, 6 or 9 digits: the fewest that lose nothing.  A year outside 0 to 9999 has a
sign.  What is read (`Instant.parse?`) may also have blanks between its parts, fewer digits than
two in a part, a space for the `T`, any number of digits in its fraction, of which nine count, and
any offset from universal time of less than a day.
-/

namespace ChunkDispatch

open Text

namespace Instant

/-! ### Writing -/

/-- A year: four digits, or a sign and at least four digits. -/
def yearText (year : Int) : String :=
  if year < 0 then "-" ++ Integer.padded 4 year.natAbs
  else if 9999 < year then "+" ++ Integer.padded 4 year.natAbs
  else Integer.padded 4 year.natAbs

/-- A date: year, month and day with hyphens between them. -/
def dateText (d : Date) : String :=
  yearText d.year ++ "-" ++ Integer.padded 2 d.month ++ "-" ++ Integer.padded 2 d.day

/-- A fraction of a second in nanoseconds: no, 3, 6 or 9 digits after a point. -/
def fractionText (nano : Nat) : String :=
  if nano = 0 then ""
  else if nano % 1000000 = 0 then "." ++ Integer.padded 3 (nano / 1000000)
  else if nano % 1000 = 0 then "." ++ Integer.padded 6 (nano / 1000)
  else "." ++ Integer.padded 9 nano

/-- A time of the day; in a leap second the seconds are one more than they were before it. -/
def clockText (second nano : Nat) : String :=
  let leap := nano / 1000000000
  Integer.padded 2 (second / 3600) ++ ":" ++ Integer.padded 2 (second / 60 % 60) ++ ":" ++
    Integer.padded 2 (second % 60 + leap) ++ fractionText (nano % 1000000000)

/-- The date an instant falls on. -/
def date (t : Instant) : Date :=
  Date.ofDayNumber (t.second / 86400)

/-- The seconds of an instant since the start of its day. -/
def secondOfDay (t : Instant) : Nat :=
  (t.second % 86400).toNat

/-- The text of an instant in records. -/
def render (t : Instant) : String :=
  dateText t.date ++ "T" ++ clockText t.secondOfDay t.nano ++ "Z"

/-- The text of an instant for people. -/
def renderSpaced (t : Instant) : String :=
  dateText t.date ++ " " ++ clockText t.secondOfDay t.nano ++ " UTC"

/-! ### Reading -/

/-- Digits at the start of a text, at least one and at most `width`, and what follows them. -/
def readDigits? (width : Nat) (cs : List Char) : Option (List Char × List Char) :=
  let ds := (cs.take width).takeWhile Char.isDigit
  if ds.isEmpty then none else some (ds, cs.drop ds.length)

/-- A number of at most `width` digits after blanks. -/
def readNumber? (width : Nat) (cs : List Char) : Option (Nat × List Char) :=
  (readDigits? width (dropBlanks cs)).map (fun (ds, rest) => (Nat.ofDigitChars 10 ds 0, rest))

/-- The mark `c` after blanks. -/
def readMark? (c : Char) (cs : List Char) : Option (List Char) :=
  match dropBlanks cs with
  | c' :: rest => if c' = c then some rest else none
  | [] => none

/-- A year after blanks: four digits at most, or any number of them after a sign. -/
def readYear? (cs : List Char) : Option (Int × List Char) :=
  match dropBlanks cs with
  | '-' :: rest =>
    (readDigits? rest.length rest).map (fun (ds, rest) => (-(Nat.ofDigitChars 10 ds 0 : Int), rest))
  | '+' :: rest =>
    (readDigits? rest.length rest).map (fun (ds, rest) => ((Nat.ofDigitChars 10 ds 0 : Int), rest))
  | cs => (readDigits? 4 cs).map (fun (ds, rest) => ((Nat.ofDigitChars 10 ds 0 : Int), rest))

/-- The nanoseconds of a fraction, if one follows. -/
def readFraction? : List Char → Option (Nat × List Char)
  | '.' :: cs =>
    (readDigits? 9 cs).map (fun (ds, rest) =>
      (Nat.ofDigitChars 10 (ds ++ List.replicate (9 - ds.length) '0') 0,
        rest.dropWhile Char.isDigit))
  | cs => some (0, cs)

/-- Two digits. -/
def readTwoDigits? : List Char → Option (Nat × List Char)
  | c :: c' :: rest =>
    if c.isDigit && c'.isDigit then some (Nat.ofDigitChars 10 [c, c'] 0, rest) else none
  | _ => none

/-- The offset of a clock from universal time, in seconds, and what follows it. -/
def readOffset? (cs : List Char) : Option (Int × List Char) :=
  if (cs.take 3).map Char.toUpper = ['U', 'T', 'C'] then some (0, cs.drop 3)
  else
    match cs with
    | [] => none
    | sign :: rest =>
      if sign = 'Z' ∨ sign = 'z' then some (0, rest)
      else if sign = '+' ∨ sign = '-' ∨ sign = '\u2212' then do
        let (hours, rest) ← readTwoDigits? rest
        let (minutes, rest) ← readTwoDigits? (rest.dropWhile (fun c => c = ':' || isBlank c))
        if minutes < 60 ∧ hours < 24 then
          let seconds : Int := hours * 3600 + minutes * 60
          some (if sign = '+' then seconds else -seconds, rest)
        else none
      else none

/-- The first year of the calendar in which instants are read. -/
def minYear : Int := -262143

/-- The last year of the calendar in which instants are read. -/
def maxYear : Int := 262142

/-- The day with a number lies in the calendar in which instants are read. -/
def inCalendar (day : Int) : Bool :=
  Date.dayNumber ⟨minYear, 1, 1⟩ ≤ day ∧ day ≤ Date.dayNumber ⟨maxYear, 12, 31⟩

/--
The instant at which clocks `offset` seconds ahead of universal time show a date and time.  Both
days, the one shown and the one in universal time, have to lie in the calendar.
-/
def ofClock? (d : Date) (hour minute second nano : Nat) (offset : Int) : Option Instant :=
  if d.isValid ∧ inCalendar d.dayNumber ∧ hour < 24 ∧ minute < 60 ∧ second ≤ 60 then
    let full := if second = 60 then 59 else second
    let leap := if second = 60 then 1000000000 else 0
    let shown := d.dayNumber * 86400 + (hour * 3600 + minute * 60 + full : Nat) - offset
    if h : nano + leap < 2000000000 then
      if inCalendar (shown / 86400) then some ⟨shown, ⟨_, h⟩⟩ else none
    else none
  else none

/-- The instant a text stands for. -/
def parse? (s : String) : Option Instant := do
  let (year, cs) ← readYear? s.toList
  let (month, cs) ← readNumber? 2 (← readMark? '-' cs)
  let (day, cs) ← readNumber? 2 (← readMark? '-' cs)
  let cs ← match cs with
    | 'T' :: rest | 't' :: rest | ' ' :: rest => some rest
    | _ => none
  let (hour, cs) ← readNumber? 2 cs
  let (minute, cs) ← readNumber? 2 (← readMark? ':' cs)
  let (second, cs) ← readNumber? 2 (← readMark? ':' cs)
  let (nano, cs) ← readFraction? cs
  let (offset, cs) ← readOffset? (dropBlanks cs)
  if (dropBlanks cs).isEmpty then
    ofClock? ⟨year, month, day⟩ hour minute second nano offset
  else none

end Instant

end ChunkDispatch
