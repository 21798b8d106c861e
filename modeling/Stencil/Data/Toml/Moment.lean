import Stencil.Number.Decimal

/-!
# Dates and times

A moment of a TOML text: a date, a time of day, or both, and then perhaps the offset from universal
time. Fields are in the ranges of the calendar, and a written moment has one spelling.
-/

namespace Stencil.Toml

/-- A day of the calendar. -/
structure Date where
  year : Nat
  month : Nat
  day : Nat
  deriving DecidableEq

/-- A time of day. -/
structure DayTime where
  hour : Nat
  minute : Nat
  second : Nat
  nanosecond : Nat
  deriving DecidableEq

/-- An offset from universal time. -/
inductive Zone where
  | universal
  | offset (minutes : Int)
  deriving DecidableEq

/-- A date, a time of day, or both. -/
inductive Moment where
  | date (d : Date)
  | dayTime (t : DayTime)
  | dateTime (d : Date) (t : DayTime) (zone : Option Zone)
  deriving DecidableEq

/-- The number spelt by exactly `count` digits at the front of a text. -/
def digits? (count : Nat) (s : List Char) : Option (Nat × List Char) :=
  let front := s.take count
  if front.length = count ∧ front.all Char.isDigit then some (Number.ofDigits front, s.drop count)
  else none

/-- Two digits behind a given character. -/
def pair? (mark : Char) : List Char → Option (Nat × List Char)
  | c :: s => if c = mark then digits? 2 s else none
  | [] => none

namespace Date

/-- Whether a year has a leap day. -/
def isLeapYear (year : Nat) : Bool := year % 4 == 0 && (year % 100 != 0 || year % 400 == 0)

/-- The number of days in a month. -/
def daysIn (year month : Nat) : Nat :=
  if month = 2 then if isLeapYear year then 29 else 28
  else if [4, 6, 9, 11].contains month then 30
  else 31

/-- Whether there is such a day. -/
def isValid (d : Date) : Bool :=
  decide (1 ≤ d.month ∧ d.month ≤ 12 ∧ 1 ≤ d.day ∧ d.day ≤ daysIn d.year d.month)

/-- A date at the beginning of a text. -/
def prefix? (s : List Char) : Option (Date × List Char) := do
  let (year, s) ← digits? 4 s
  let (month, s) ← pair? '-' s
  let (day, s) ← pair? '-' s
  let d : Date := ⟨year, month, day⟩
  if d.isValid then some (d, s) else none

end Date

namespace DayTime

/-- The sixtieth second is that of a leap second. -/
def isValid (t : DayTime) : Bool := decide (t.hour ≤ 23 ∧ t.minute ≤ 59 ∧ t.second ≤ 60)

/-- Billionths of a second from the digits behind the point; digits past the ninth have no effect. -/
def nanoseconds (digits : List Char) : Nat :=
  Number.ofDigits ((digits ++ List.replicate 9 '0').take 9)

/-- The seconds of a time with their fraction, both zero where they are left out. -/
def seconds? : List Char → Option (Nat × Nat × List Char)
  | ':' :: s => do
    let (second, s) ← digits? 2 s
    match s with
    | '.' :: s =>
      let digits := s.takeWhile Char.isDigit
      if digits.isEmpty then none else some (second, nanoseconds digits, s.dropWhile Char.isDigit)
    | s => some (second, 0, s)
  | s => some (0, 0, s)

/-- A time of day at the beginning of a text. -/
def prefix? (s : List Char) : Option (DayTime × List Char) := do
  let (hour, s) ← digits? 2 s
  let (minute, s) ← pair? ':' s
  let (second, nanosecond, s) ← seconds? s
  let t : DayTime := ⟨hour, minute, second, nanosecond⟩
  if t.isValid then some (t, s) else none

end DayTime

namespace Zone

/-- The greatest offset from universal time, in minutes. -/
def maxOffset : Nat := 24 * 60

/-- An offset in hours and minutes, to the end of the text. -/
def offset? (negative : Bool) (s : List Char) : Option Zone := do
  let (hours, s) ← digits? 2 s
  let (minutes, s) ← pair? ':' s
  let total := 60 * hours + minutes
  if s.isEmpty ∧ minutes ≤ 59 ∧ total ≤ maxOffset then
    some (offset (if negative then -(total : Int) else total))
  else none

/-- The zone that a text spells; an empty text spells none. -/
def ofText? : List Char → Option (Option Zone)
  | [] => some none
  | c :: s =>
    if (c = 'Z' ∨ c = 'z') ∧ s.isEmpty then some (some universal)
    else if c = '+' then (offset? false s).map some
    else if c = '-' then (offset? true s).map some
    else none

end Zone

/-- A number with zeros in front of it, to a width of at least `width`. -/
def zeroPadded (width n : Nat) : String := .ofList (n.repr.toList.leftpad width '0')

namespace Moment

/-- Whether a character may stand between a date and a time of day. -/
def isDateMark (c : Char) : Bool := c == 'T' || c == 't' || c == ' '

/-- The moment that a whole text stands for. -/
def ofText? (s : List Char) : Option Moment :=
  match Date.prefix? s with
  | some (d, []) => some (date d)
  | some (d, c :: s) =>
    if isDateMark c then do
      let (t, s) ← DayTime.prefix? s
      let zone ← Zone.ofText? s
      return dateTime d t zone
    else none
  | none =>
    match DayTime.prefix? s with
    | some (t, []) => some (dayTime t)
    | _ => none

/-- A date as it is printed. -/
def dateText (d : Date) : String :=
  zeroPadded 4 d.year ++ "-" ++ zeroPadded 2 d.month ++ "-" ++ zeroPadded 2 d.day

/-- A fraction is written without the zeros at its end. -/
def fractionText (nanosecond : Nat) : String :=
  if nanosecond = 0 then ""
  else "." ++ .ofList ((zeroPadded 9 nanosecond).toList.reverse.dropWhile (· == '0')).reverse

/-- A time of day as it is printed. -/
def dayTimeText (t : DayTime) : String :=
  zeroPadded 2 t.hour ++ ":" ++ zeroPadded 2 t.minute ++ ":" ++ zeroPadded 2 t.second ++
    fractionText t.nanosecond

/-- An offset as it is printed. -/
def zoneText : Zone → String
  | .universal => "Z"
  | .offset minutes =>
    (if minutes < 0 then "-" else "+") ++ zeroPadded 2 (minutes.natAbs / 60) ++ ":" ++
      zeroPadded 2 (minutes.natAbs % 60)

/-- A moment as it is printed. -/
def text : Moment → String
  | date d => dateText d
  | dayTime t => dayTimeText t
  | dateTime d t zone => dateText d ++ "T" ++ dayTimeText t ++ (zone.map zoneText).getD ""

end Moment

end Stencil.Toml
