/-
Instants of time as texts, in the form of RFC 3339: `1970-01-01T00:00:00Z`,
with an optional fraction of a second and an offset from universal time.
Instants are written from a count of milliseconds since the year 1970.

Reading is generous: numbers may be short, blanks may stand before them and
before the marks between them, and the year may have a sign. It has to lie
within some 262 thousand years of the year zero, here as well as in universal
time.
-/
import CacheLayer.Text.Blank
import CacheLayer.Text.Numeral

namespace CacheLayer.Text.Timestamp

/-- The year has a 29th of February. -/
def isLeap (year : Int) : Bool :=
  year % 4 == 0 && (year % 100 != 0 || year % 400 == 0)

/-- The number of days of a month. -/
def daysIn (year : Int) (month : Nat) : Nat :=
  if month = 2 then (if isLeap year then 29 else 28)
  else if month ∈ [4, 6, 9, 11] then 30
  else 31

/-- The date that lies `days` days after the first day of a month. The steps bound how many months
are passed. -/
def dateAfter : Nat → Nat → Nat → Nat → Nat × Nat × Nat
  | 0, year, month, _ => (year, month, 1)
  | steps + 1, year, month, days =>
    if days < daysIn year month then (year, month, days + 1)
    else if month < 12 then dateAfter steps year (month + 1) (days - daysIn year month)
    else dateAfter steps (year + 1) 1 (days - daysIn year month)

/-- A year as it is written: in four digits, or behind a sign if it has more. -/
def yearText (year : Nat) : String :=
  if year ≤ 9999 then padded 4 year else "+" ++ toString year

/-- The instant after so many milliseconds. -/
def ofMillis (ms : Nat) : String :=
  let seconds := ms / 1000
  let days := seconds / 86400
  let (year, month, day) := dateAfter (days + 1) 1970 1 days
  let fraction := if ms % 1000 = 0 then "" else "." ++ padded 3 (ms % 1000)
  yearText year ++ "-" ++ padded 2 month ++ "-" ++ padded 2 day ++ "T" ++
    padded 2 (seconds / 3600 % 24) ++ ":" ++ padded 2 (seconds / 60 % 60) ++ ":" ++
    padded 2 (seconds % 60) ++ fraction ++ "Z"

/-! ## Reading -/

/-- Text without the blanks at its front. -/
def skipBlanks (cs : List Char) : List Char := cs.dropWhile isBlank

/-- Reads a number of at least one and at most `width` digits. -/
def number? (width : Nat) (cs : List Char) : Option (Nat × List Char) :=
  let ds := (cs.take width).takeWhile Char.isDigit
  if ds.isEmpty then none
  else some (ds.foldl (fun n c => n * 10 + (c.toNat - '0'.toNat)) 0, cs.drop ds.length)

/-- Reads one of some characters. -/
def mark? (marks : List Char) : List Char → Option (List Char)
  | c :: cs => if c ∈ marks then some cs else none
  | [] => none

/-- Reads a year: up to four digits, or any number of them behind a sign. -/
def year? (cs : List Char) : Option (Int × List Char) :=
  match cs with
  | '-' :: cs => (number? cs.length cs).map fun (n, cs) => (-(n : Int), cs)
  | '+' :: cs => (number? cs.length cs).map fun (n, cs) => (n, cs)
  | cs => (number? 4 cs).map fun (n, cs) => (n, cs)

/-- Reads what follows a mark: a number of one or two digits. -/
def part? (mark : Char) (cs : List Char) : Option (Nat × List Char) := do
  number? 2 (skipBlanks (← mark? [mark] (skipBlanks cs)))

structure Date where
  year : Int
  month : Nat
  day : Nat

/-- The years that instants can have. -/
def isYear (year : Int) : Bool := -262143 ≤ year && year ≤ 262142

/-- Reads a date of the calendar. -/
def date? (cs : List Char) : Option (Date × List Char) := do
  let (year, cs) ← year? (skipBlanks cs)
  let (month, cs) ← part? '-' cs
  let (day, cs) ← part? '-' cs
  guard (1 ≤ month ∧ month ≤ 12 ∧ 1 ≤ day ∧ day ≤ daysIn year month)
  return (⟨year, month, day⟩, cs)

/-- Reads a time of day as a number of seconds; a minute may have a leap second, which counts as
the second before it. -/
def time? (cs : List Char) : Option (Nat × List Char) := do
  let (hour, cs) ← number? 2 (skipBlanks cs)
  let (minute, cs) ← part? ':' cs
  let (second, cs) ← part? ':' cs
  guard (hour < 24 ∧ minute < 60 ∧ second ≤ 60)
  let seconds := hour * 3600 + minute * 60 + min second 59
  match cs with
  | '.' :: cs =>
    let (_, cs) ← number? cs.length cs
    return (seconds, cs)
  | cs => return (seconds, cs)

/-- Reads exactly two digits. -/
def twoDigits? (cs : List Char) : Option (Nat × List Char) :=
  if ((cs.take 2).filter Char.isDigit).length = 2 then number? 2 cs else none

/-- Reads how many seconds a clock is ahead of universal time, or one of the names of universal
time. -/
def offset? (cs : List Char) : Option (Int × List Char) :=
  if (cs.take 3).map Char.toUpper = ['U', 'T', 'C'] then some (0, cs.drop 3)
  else
    match mark? ['Z', 'z'] cs with
    | some cs => some (0, cs)
    | none => do
      let (hours, rest) ← twoDigits? (← mark? ['+', '-', '\u2212'] cs)
      let (minutes, rest) ← twoDigits? (rest.dropWhile fun c => c == ':' || isBlank c)
      guard (hours < 24 ∧ minutes < 60)
      let seconds : Int := hours * 3600 + minutes * 60
      return (if cs.head? = some '+' then seconds else -seconds, rest)

/-- The year in universal time: on the first and the last day of a year it may be another one. -/
def universalYear (date : Date) (time : Nat) (offset : Int) : Int :=
  if time - offset < 0 ∧ date.month = 1 ∧ date.day = 1 then date.year - 1
  else if 86400 ≤ time - offset ∧ date.month = 12 ∧ date.day = 31 then date.year + 1
  else date.year

/-- The text is an instant. -/
def isInstant (s : String) : Bool :=
  let rest? := do
    let (date, cs) ← date? s.toList
    let cs ← mark? ['T', 't', ' '] cs
    let (time, cs) ← time? cs
    let (offset, cs) ← offset? (skipBlanks cs)
    guard (isYear date.year ∧ isYear (universalYear date time offset))
    return skipBlanks cs
  rest? == some []

end CacheLayer.Text.Timestamp
