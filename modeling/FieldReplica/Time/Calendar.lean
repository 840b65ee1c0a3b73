/-!
# The calendar

Days of the proleptic Gregorian calendar. Days are counted from 1970-01-01, and years are whole
numbers, the year before year 1 being year 0.
-/
namespace FieldReplica.Time

def isLeap (year : Int) : Bool := year % 4 = 0 ∧ (year % 100 ≠ 0 ∨ year % 400 = 0)

def monthLengths (year : Int) : List Nat :=
  [31, if isLeap year then 29 else 28, 31, 30, 31, 30, 31, 31, 30, 31, 30, 31]

/-- The days from 0001-01-01 to the first day of a year. -/
def daysBefore (year : Int) : Int :=
  365 * (year - 1) + (year - 1) / 4 - (year - 1) / 100 + (year - 1) / 400

/-- The days from 0001-01-01 to 1970-01-01. -/
def epoch : Int := 719162

/-- A date by its parts. -/
structure Date where
  year : Int
  month : Nat
  day : Nat
deriving DecidableEq, Repr

/-- The day of the year, from zero, of a day of a month; none if there is no such day. -/
def dayOfYear : List Nat → Nat → Nat → Option Nat
  | [], _, _ => none
  | _ :: _, 0, _ => none
  | len :: _, 1, day => if 1 ≤ day ∧ day ≤ len then some (day - 1) else none
  | len :: rest, month + 1, day => (dayOfYear rest month day).map (len + ·)

/-- The month, and the day in it, of a day of the year counted from zero. -/
def monthAndDay : List Nat → Nat → Nat × Nat
  | [], n => (0, n)
  | len :: rest, n =>
    if n < len then (1, n + 1)
    else
      let (month, day) := monthAndDay rest (n - len)
      (month + 1, day)

/-- The count of the day with a date, none if there is no such date. -/
def Date.toDay? (d : Date) : Option Int :=
  (dayOfYear (monthLengths d.year) d.month d.day).map fun n => daysBefore d.year + n - epoch

/-- The year of a day counted from 0001-01-01: the mean year gives it to within one. -/
def yearOf (n : Int) : Int :=
  let guess := n * 400 / 146097 + 1
  if n < daysBefore guess then guess - 1
  else if daysBefore (guess + 1) ≤ n then guess + 1
  else guess

def Date.ofDay (day : Int) : Date :=
  let n := day + epoch
  let year := yearOf n
  let (month, d) := monthAndDay (monthLengths year) (n - daysBefore year).toNat
  ⟨year, month, d⟩

end FieldReplica.Time
