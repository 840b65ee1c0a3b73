import FieldReplica.Text.Blank
import FieldReplica.Time.Calendar

/-!
# Instants

A point of time in UTC to the nanosecond, and its text as RFC 3339 has it. An instant is written
with `Z` and with 0, 3, 6 or 9 fraction digits, the fewest that are exact; a year outside 0 to 9999
has a sign. Reading is more lenient: parts may have fewer digits, white space may stand before a part
and before the offset, and the offset's colon may be left out. A leap second is the second `:60` of a
minute. The nanoseconds of an instant may pass a whole second elsewhere too, but its text has only the
next second for them.
-/
namespace FieldReplica.Time

/-- The first day that an instant may lie on, in the year -262143. -/
def minDay : Int := daysBefore (-262143) - epoch

/-- The last day that an instant may lie on, in the year 262142. -/
def maxDay : Int := daysBefore 262143 - 1 - epoch

/-- A day counted from 1970-01-01, a second of that day, and nanoseconds, which may pass a whole
second. -/
structure Instant where
  day : Int
  second : Nat
  nano : Nat
  day_mem : minDay ≤ day ∧ day ≤ maxDay
  second_lt : second < 86400
  nano_lt : nano < 2000000000
deriving DecidableEq, Repr

namespace Instant

/-- An instant by its parts, none if they are out of bounds. Nanoseconds pass a whole second only in the
last second of a minute, as a clock shows them: that is a leap second. -/
def make? (day : Int) (second nano : Nat) : Option Instant :=
  if h : (minDay ≤ day ∧ day ≤ maxDay) ∧ second < 86400 ∧ nano < 2000000000 ∧
      (1000000000 ≤ nano → second % 60 = 59) then
    some ⟨day, second, nano, h.1, h.2.1, h.2.2.1⟩
  else none

/-- The start of 1970. -/
def start : Instant :=
  ⟨0, 0, 0, by decide, by decide, by decide⟩

instance : Inhabited Instant := ⟨start⟩

/-- Which of two instants is earlier, by day, second and nanosecond. -/
def compare (a b : Instant) : Ordering :=
  (Ord.compare a.day b.day).then ((Ord.compare a.second b.second).then (Ord.compare a.nano b.nano))

instance : Ord Instant := ⟨compare⟩

/-- The digits of a number, with leading zeros up to a width. -/
def padded (width n : Nat) : List Char :=
  let ds := Nat.toDigits 10 n
  List.replicate (width - ds.length) '0' ++ ds

def yearText (year : Int) : List Char :=
  if 0 ≤ year ∧ year ≤ 9999 then padded 4 year.toNat
  else (if year < 0 then '-' else '+') :: padded 4 year.natAbs

/-- The point and the fewest digits of 0, 3, 6 and 9 that show the nanoseconds exactly. -/
def fractionText (nano : Nat) : List Char :=
  if nano = 0 then []
  else if nano % 1000000 = 0 then '.' :: padded 3 (nano / 1000000)
  else if nano % 1000 = 0 then '.' :: padded 6 (nano / 1000)
  else '.' :: padded 9 nano

def dateText (d : Date) : List Char :=
  yearText d.year ++ '-' :: padded 2 d.month ++ '-' :: padded 2 d.day

/-- The hour and the minute of a second of the day. -/
def clockText (second : Nat) : List Char :=
  padded 2 (second / 3600) ++ ':' :: padded 2 (second / 60 % 60)

/-- The date and the minute of an instant. -/
def minuteText (t : Instant) : List Char :=
  dateText (Date.ofDay t.day) ++ ' ' :: clockText t.second

def toChars (t : Instant) : List Char :=
  let leap := 1000000000 ≤ t.nano
  dateText (Date.ofDay t.day) ++ 'T' :: clockText t.second ++
    ':' :: padded 2 (t.second % 60 + if leap then 1 else 0) ++
    fractionText (if leap then t.nano - 1000000000 else t.nano) ++ ['Z']

def toText (t : Instant) : String := String.ofList t.toChars

/-! ### Reading -/

/-- At least one and at most `width` digits, and the text after them. -/
def digits? (width : Nat) (cs : List Char) : Option (List Char × List Char) :=
  match (cs.take width).takeWhile Char.isDigit with
  | [] => none
  | ds => some (ds, cs.drop ds.length)

/-- A number of at most `width` digits after white space. -/
def number? (width : Nat) (cs : List Char) : Option (Nat × List Char) :=
  (digits? width (Text.trimStart cs)).map fun (ds, rest) => (Nat.ofDigitChars 10 ds 0, rest)

/-- A year after white space: at most four digits, or a sign and any number of digits. -/
def year? (cs : List Char) : Option (Int × List Char) :=
  match Text.trimStart cs with
  | '-' :: cs => (digits? cs.length cs).map fun (ds, rest) => (-(Nat.ofDigitChars 10 ds 0 : Int), rest)
  | '+' :: cs => (digits? cs.length cs).map fun (ds, rest) => ((Nat.ofDigitChars 10 ds 0 : Int), rest)
  | cs => (digits? 4 cs).map fun (ds, rest) => ((Nat.ofDigitChars 10 ds 0 : Int), rest)

/-- The text after a separator that white space may precede. -/
def separator? (sep : Char) (cs : List Char) : Option (List Char) :=
  match Text.trimStart cs with
  | c :: rest => if c = sep then some rest else none
  | [] => none

/-- A point and the nanoseconds that its digits make; digits after the ninth do not count. -/
def fraction? : List Char → Option (Nat × List Char)
  | '.' :: cs =>
    (digits? 9 cs).map fun (ds, rest) =>
      (Nat.ofDigitChars 10 ds 0 * Nat.pow 10 (9 - ds.length), rest.dropWhile Char.isDigit)
  | cs => some (0, cs)

/-- Two digits, of which the first is at most `top`. -/
def pair? (top : Char) : List Char → Option (Nat × List Char)
  | a :: b :: rest =>
    if a.isDigit ∧ a ≤ top ∧ b.isDigit then some (Nat.ofDigitChars 10 [a, b] 0, rest) else none
  | _ => none

/-- Hours and minutes of an offset after its sign, in minutes. -/
def offsetMinutes? (cs : List Char) : Option (Nat × List Char) := do
  let (hours, cs) ← pair? '9' cs
  let (minutes, cs) ← pair? '5' (cs.dropWhile fun c => c = ':' || Text.isBlank c)
  return (hours * 60 + minutes, cs)

/-- The offset from UTC in minutes. -/
def offset? : List Char → Option (Int × List Char)
  | c :: cs =>
    if c = 'Z' ∨ c = 'z' then some (0, cs)
    else if c = '+' then (offsetMinutes? cs).map fun (n, rest) => ((n : Int), rest)
    else if c = '-' ∨ c = '\u2212' then (offsetMinutes? cs).map fun (n, rest) => (-(n : Int), rest)
    else none
  | [] => none

/-- The offset, for which the letters `UTC` in either case may also stand. -/
def zone? : List Char → Option (Int × List Char)
  | a :: b :: c :: rest =>
    if a.toUpper = 'U' ∧ b.toUpper = 'T' ∧ c.toUpper = 'C' then some (0, rest)
    else offset? (a :: b :: c :: rest)
  | cs => offset? cs

/-- The instant that a local date and time with an offset denote. -/
def ofLocal? (date : Date) (hour minute second nano : Nat) (offset : Int) : Option Instant := do
  let day ← date.toDay?
  if day < minDay ∨ maxDay < day ∨ 24 ≤ hour ∨ 60 ≤ minute ∨ 61 ≤ second ∨
      1440 ≤ offset.natAbs then none
  let (second, nano) := if second = 60 then (59, nano + 1000000000) else (second, nano)
  let minutes : Int := hour * 60 + minute - offset
  make? (day + minutes / 1440) ((minutes % 1440).toNat * 60 + second) nano

def ofChars? (cs : List Char) : Option Instant := do
  let (year, cs) ← year? cs
  let (month, cs) ← number? 2 (← separator? '-' cs)
  let (day, cs) ← number? 2 (← separator? '-' cs)
  let cs ← match cs with
    | c :: cs => if c = 'T' ∨ c = 't' ∨ c = ' ' then some cs else none
    | [] => none
  let (hour, cs) ← number? 2 cs
  let (minute, cs) ← number? 2 (← separator? ':' cs)
  let (second, cs) ← number? 2 (← separator? ':' cs)
  let (nano, cs) ← fraction? cs
  let (offset, cs) ← zone? (Text.trimStart cs)
  if Text.trimStart cs = [] then ofLocal? ⟨year, month, day⟩ hour minute second nano offset else none

def ofText? (s : String) : Option Instant := ofChars? s.toList

end Instant
end FieldReplica.Time
