import FieldReplica.Toml.Strings

/-!
# Reading numbers, dates and times

Digits may have single underscores between them. An integer is decimal, or hexadecimal, octal or binary after
its mark, and of at most 64 bits; a number with a fraction or an exponent is a double. A date is one of the
calendar, and may have a time after it.
-/
namespace FieldReplica.Toml

/-- More digits of a number, where an underscore stands before a digit. -/
def moreDigits (isDigit : Char → Bool) : Reader (List Char)
  | '_' :: c :: cs =>
    if isDigit c then do
      let (ds, rest) ← moreDigits isDigit cs
      return (c :: ds, rest)
    else Reader.fail.settled.expecting ["digit"] (c :: cs)
  | ['_'] => Reader.fail.settled.expecting ["digit"] []
  | c :: cs =>
    if isDigit c then do
      let (ds, rest) ← moreDigits isDigit cs
      return (c :: ds, rest)
    else .ok ([], c :: cs)
  | [] => .ok ([], [])

def digitRun (isDigit : Char → Bool) : Reader (List Char)
  | c :: cs => if isDigit c then moreDigits isDigit (c :: cs) else .error (.here (c :: cs))
  | [] => .error (.here [])

/-- Whether a number is negative, and the text after its sign. -/
def takeSign : List Char → Bool × List Char
  | '+' :: cs => (false, cs)
  | '-' :: cs => (true, cs)
  | cs => (false, cs)

/-- The sign and the digits of a decimal number, which has no leading zeros. -/
def decimalDigits : Reader (Bool × List Char) := Reader.reading "integer" fun cs => do
  let (negative, cs) := takeSign cs
  match cs with
  | '0' :: rest => return ((negative, ['0']), rest)
  | cs =>
    let (ds, rest) ← digitRun Char.isDigit cs
    return ((negative, ds), rest)

/-- The value of digits in a base. -/
def digitsValue (base : Nat) (ds : List Char) : Nat :=
  ds.foldl (fun n d => n * base + (Url.hexValue? d).getD 0) 0

/-- A whole number, if it has at most 64 bits. -/
def bounded (n : Int) : Except String Int :=
  if Int64.maxValue.toInt < n then .error "number too large to fit in target type"
  else if n < Int64.minValue.toInt then .error "number too small to fit in target type"
  else .ok n

/-- A number in another base than ten, after its mark. -/
def inBase (base : Nat) (what : String) : Reader Int :=
  let isDigit := fun c => ((Url.hexValue? c).filter (· < base)).isSome
  Reader.settled (((digitRun isDigit).reading what).refine fun ds => bounded (digitsValue base ds))

def integer : Reader Int
  | '0' :: 'x' :: cs => inBase 16 "hexadecimal integer" cs
  | '0' :: 'o' :: cs => inBase 8 "octal integer" cs
  | '0' :: 'b' :: cs => inBase 2 "binary integer" cs
  | cs => do
    let ((negative, ds), rest) ← decimalDigits cs
    let n : Int := digitsValue 10 ds
    match bounded (if negative then -n else n) with
    | .ok n => return (n, rest)
    | .error cause => throw { Trouble.because cs cause with settled := true }

/-- The double nearest to `digits * 10 ^ power`; none if it is beyond every double. -/
def nearest (negative : Bool) (digits : Nat) (power : Int) : Option Number.Binary64 :=
  let size : Int := (Nat.toDigits 10 digits).length
  if digits = 0 ∨ power + size < -400 then some (.zero negative)
  else if 400 < power + size then none
  else if 0 ≤ power then Number.Binary64.round negative (digits * Nat.pow 10 power.toNat) 1
  else Number.Binary64.round negative digits (Nat.pow 10 (-power).toNat)

def exponent : Reader Int := fun cs => do
  let (negative, cs) := takeSign cs
  let (ds, rest) ← (digitRun Char.isDigit).settled cs
  let n : Int := digitsValue 10 ds
  return (if negative then -n else n, rest)

/-- The exponent at the start of a text, if there is one. -/
def exponent? (cs : List Char) : Except Trouble (Option Int × List Char) :=
  match cs with
  | c :: rest =>
    if c = 'e' ∨ c = 'E' then do
      let (n, rest) ← exponent rest
      return (some n, rest)
    else .ok (none, cs)
  | [] => .ok (none, [])

def fractional : Reader Real := fun cs => do
  let ((negative, whole), rest) ← decimalDigits cs
  let (fraction, power, rest) ← match rest with
    | '.' :: rest =>
      let (fraction, rest) ← (digitRun Char.isDigit).settled.expecting ["digit"] rest
      let (power, rest) ← exponent? rest
      pure (fraction, power.getD 0, rest)
    | rest =>
      match ← exponent? rest with
      | (some power, rest) => pure ([], power, rest)
      | (none, rest) => throw (.here rest)
  match nearest negative (digitsValue 10 (whole ++ fraction)) (power - fraction.length) with
  | some x => return (.finite x, rest)
  | none =>
    if negative then return (.infinite true, rest) else throw { Trouble.here cs with settled := true }

def special : Reader Real := fun cs =>
  let (negative, rest) := takeSign cs
  match rest with
  | 'i' :: 'n' :: 'f' :: rest => .ok (.infinite negative, rest)
  | 'n' :: 'a' :: 'n' :: rest => .ok (.notANumber, rest)
  | rest => .error (.here rest)

def real : Reader Real := (fractional.orElse special).reading "floating-point number"

/-! ### Dates and times -/

/-- A fixed count of digits, as a number within bounds. -/
def digitsWithin (count low high : Nat) : Reader Nat := fun cs =>
  let ds := (cs.take count).takeWhile Char.isDigit
  let n := digitsValue 10 ds
  if ds.length < count then .error (.here (cs.drop ds.length))
  else if low ≤ n ∧ n ≤ high then .ok (n, cs.drop count)
  else .error (.because cs "value is out of range")

def daysIn (year month : Nat) : Nat :=
  if month = 2 then
    if year % 4 = 0 ∧ (year % 100 ≠ 0 ∨ year % 400 = 0) then 29 else 28
  else if month = 4 ∨ month = 6 ∨ month = 9 ∨ month = 11 then 30
  else 31

def date : Reader Unit := fun cs => do
  let (year, cs) ← digitsWithin 4 0 9999 cs
  let (_, cs) ← Reader.char '-' cs
  let (month, cs) ← (digitsWithin 2 1 12).settled cs
  let (_, cs) ← (Reader.char '-').settled cs
  let (_, cs) ← (digitsWithin 2 1 (daysIn year month)).settled cs
  return ((), cs)

def time : Reader Unit := fun cs => do
  let (_, cs) ← digitsWithin 2 0 23 cs
  let (_, cs) ← Reader.char ':' cs
  let (_, cs) ← (digitsWithin 2 0 59).settled cs
  let (_, cs) ← (Reader.char ':').settled cs
  let (_, cs) ← (digitsWithin 2 0 60).settled cs
  match cs with
  | '.' :: c :: cs => if c.isDigit then return ((), cs.dropWhile Char.isDigit) else return ((), '.' :: c :: cs)
  | cs => return ((), cs)

/-- The distance from universal time, if it is given. -/
def timeOffset : Reader Unit
  | 'Z' :: cs => .ok ((), cs)
  | 'z' :: cs => .ok ((), cs)
  | '+' :: cs => hours cs
  | '-' :: cs => hours cs
  | cs => .ok ((), cs)
where
  hours : Reader Unit := Reader.settled fun cs => do
    let (_, cs) ← digitsWithin 2 0 23 cs
    let (_, cs) ← Reader.char ':' cs
    let (_, cs) ← digitsWithin 2 0 59 cs
    return ((), cs)

/-- A time after a date, if there is one. -/
def timeAfterDate : Reader Unit := fun cs =>
  match cs with
  | c :: rest =>
    if c = 'T' ∨ c = 't' ∨ c = ' ' then
      match time rest with
      | .ok (_, rest) => timeOffset rest
      | .error t => if t.settled then .error t else .ok ((), cs)
    else .ok ((), cs)
  | [] => .ok ((), [])

def moment : Reader Unit :=
  Reader.orElse
    (Reader.reading "date-time" fun cs => do
      let (_, cs) ← date cs
      timeAfterDate cs)
    (time.reading "time")

end FieldReplica.Toml
