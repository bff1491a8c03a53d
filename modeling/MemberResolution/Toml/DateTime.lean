import MemberResolution.Toml.Number

/-!
# Dates and times

A point in time is a date, a time of day, or both with a T or a blank between
them and possibly an offset from universal time. Days exist in their month,
leap years follow the Gregorian rule, and a minute may have a leap second.
-/

namespace MemberResolution.Toml
set_option autoImplicit false

structure Date where
  year : Nat
  month : Nat
  day : Nat
  deriving DecidableEq

/-- A time of day; `fraction` holds the digits after the seconds. -/
structure TimeOfDay where
  hour : Nat
  minute : Nat
  second : Nat
  fraction : List Char
  deriving DecidableEq

/-- A date, a time or both; `offset` is in minutes and stands only with both. -/
structure DateTime where
  date : Option Date := none
  time : Option TimeOfDay := none
  offset : Option Int := none
  deriving DecidableEq

def isLeapYear (year : Nat) : Bool := year % 4 == 0 && (year % 100 != 0 || year % 400 == 0)

def daysInMonth (year month : Nat) : Nat :=
  if month = 2 then if isLeapYear year then 29 else 28
  else if month = 4 ∨ month = 6 ∨ month = 9 ∨ month = 11 then 30
  else 31

/-- The date is in the calendar. -/
def Date.exists (d : Date) : Bool :=
  1 ≤ d.month && d.month ≤ 12 && 1 ≤ d.day && d.day ≤ daysInMonth d.year d.month

namespace Reader

/-- A number of exactly `count` digits. -/
def fixedNumber (count : Nat) : Reader Nat :=
  numeral 10 <$> (List.replicate count ()).mapM fun _ => satisfy Char.isDigit

/-- A number of two digits that is at most `greatest`. -/
def twoDigits (greatest : Nat) : Reader Nat := do
  let n ← fixedNumber 2
  if n ≤ greatest then return n else failure

def date : Reader Date := do
  let year ← fixedNumber 4
  char '-'
  let month ← fixedNumber 2
  char '-'
  let day ← fixedNumber 2
  let date : Date := { year, month, day }
  if date.exists then return date else failure

def timeOfDay : Reader TimeOfDay := do
  let hour ← twoDigits 23
  char ':'
  let minute ← twoDigits 59
  char ':'
  let second ← twoDigits 60
  let fraction ← optional (char '.' *> takeWhile1 Char.isDigit)
  return { hour, minute, second, fraction := fraction.getD [] }

/-- The distance from universal time in minutes. -/
def offset : Reader Int :=
  (discard (satisfy fun c => c == 'Z' || c == 'z') *> pure 0) <|> do
    let mark ← satisfy fun c => c == '+' || c == '-'
    let hours ← twoDigits 23
    char ':'
    let minutes ← twoDigits 59
    let distance : Int := 60 * hours + minutes
    return if mark == '-' then -distance else distance

/-- What may follow a date: a time and the offset it is given in. -/
def timeAfterDate : Reader (TimeOfDay × Option Int) := do
  let _ ← satisfy fun c => c == 'T' || c == 't' || c == ' '
  let time ← timeOfDay
  return (time, ← optional offset)

def dateTime : Reader DateTime :=
  (do
    let date ← date
    match ← optional timeAfterDate with
    | some (time, offset) => return { date, time, offset }
    | none => return { date }) <|>
  (do return { time := ← timeOfDay })

end Reader
end MemberResolution.Toml
