import FieldReplica.Json.Document

/-!
# Reading JSON text

The document of a text. White space is blank, tab, line feed and carriage return. A whole number
below `2 ^ 64`, or not below `-2 ^ 63` after a minus sign, is kept exactly; any other numeral becomes
a double. The numeral's digits form one whole number as long as it stays below `2 ^ 64`, and that
number is scaled once by the power of ten that is left.
-/
namespace FieldReplica

/-- A numeral by its parts: the sign, the digits before and after the point, and the exponent. -/
structure Numeral where
  negative : Bool
  whole : List Char
  fraction : List Char
  exponent : Option (Bool × List Char)

namespace Numeral

/-- Digits taken into a number while it stays below `2 ^ 64`, and how many digits were left. -/
def absorb : Nat → List Char → Nat × Nat
  | n, [] => (n, 0)
  | n, c :: cs =>
    let next := n * 10 + (c.toNat - '0'.toNat)
    if next < UInt64.size then absorb next cs else (n, (c :: cs).length)

/-- `x` divided by a power of ten, in steps that stay within the doubles. -/
def scaleDown (x : Number.Binary64) (k : Nat) : Number.Binary64 :=
  if k ≤ 308 then (x.div (.pow10 k)).getD x
  else if x.isZero then x
  else scaleDown ((x.div (.pow10 308)).getD x) (k - 308)
termination_by k
decreasing_by omega

/-- The double for a whole number times a power of ten; none if it is beyond every double. -/
def scale (n : Nat) (power : Int) : Option Number.Binary64 :=
  let x := Number.Binary64.ofNat n
  if power < 0 then some (scaleDown x (-power).toNat)
  else if power ≤ 308 then x.mul (.pow10 power.toNat)
  else if x.isZero then some x
  else none

/-- The written exponent, bounded to 32 bits; none if its digits do not fit. -/
def power? (digits : List Char) : Option Nat :=
  let n := Nat.ofDigitChars 10 digits 0
  if n ≤ Int32.maxValue.toInt then some n else none

/-- The double that a numeral with a point or an exponent, or with too many digits, denotes. -/
def toFloat? (x : Numeral) : Option Number.Binary64 :=
  let (n, left) := absorb 0 x.whole
  let (n, lost) := absorb n x.fraction
  let start : Int := left - (x.fraction.length - lost : Nat)
  let magnitude :=
    match x.exponent with
    | none => scale n start
    | some (down, digits) =>
      match power? digits with
      | some p => scale n (if down then start - p else start + p)
      | none => if n ≠ 0 ∧ !down then none else some (.zero false)
  magnitude.map fun m => if x.negative then m.neg else m

/-- The number that a numeral denotes; none if it is beyond every double. -/
def toNumber? (x : Numeral) : Option JsonNumber :=
  if x.fraction = [] ∧ x.exponent.isNone then
    let n := Nat.ofDigitChars 10 x.whole 0
    if !x.negative ∧ n < UInt64.size then some (.int n)
    else if x.negative ∧ 0 < n ∧ Int64.minValue.toInt ≤ -n then some (.int (-(n : Int)))
    else x.toFloat?.map .float
  else x.toFloat?.map .float

end Numeral

namespace Json

/-- The kind of character that may stand between the parts of a JSON text. -/
def isBlank (c : Char) : Bool := c = ' ' || c = '\n' || c = '\t' || c = '\r'

def skipBlank (cs : List Char) : List Char := cs.dropWhile isBlank

/-- The text after a given beginning. -/
def after? : List Char → List Char → Option (List Char)
  | [], cs => some cs
  | _ :: _, [] => none
  | p :: ps, c :: cs => if p = c then after? ps cs else none

/-- A non-empty run of digits and what follows it. -/
def digitRun? (cs : List Char) : Option (List Char × List Char) :=
  match cs.takeWhile Char.isDigit with
  | [] => none
  | ds => some (ds, cs.dropWhile Char.isDigit)

/-- The digits before the point: one zero, or a run that does not start with zero. -/
def wholePart? (cs : List Char) : Option (List Char × List Char) :=
  match digitRun? cs with
  | some ('0' :: _ :: _, _) => none
  | r => r

/-- The digits after a point, if there is a point. -/
def fractionPart? : List Char → Option (List Char × List Char)
  | '.' :: cs => digitRun? cs
  | cs => some ([], cs)

def exponentPart? : List Char → Option (Option (Bool × List Char) × List Char)
  | c :: cs =>
    if c = 'e' ∨ c = 'E' then
      let (down, cs) := match cs with
        | '+' :: cs => (false, cs)
        | '-' :: cs => (true, cs)
        | cs => (false, cs)
      (digitRun? cs).map fun (ds, rest) => (some (down, ds), rest)
    else some (none, c :: cs)
  | [] => some (none, [])

/-- A numeral at the start of a text. -/
def numeral? (cs : List Char) : Option (Numeral × List Char) := do
  let (negative, cs) := match cs with
    | '-' :: cs => (true, cs)
    | cs => (false, cs)
  let (whole, cs) ← wholePart? cs
  let (fraction, cs) ← fractionPart? cs
  let (exponent, cs) ← exponentPart? cs
  return (⟨negative, whole, fraction, exponent⟩, cs)

def hexValue? (c : Char) : Option Nat :=
  if '0' ≤ c ∧ c ≤ '9' then some (c.toNat - '0'.toNat)
  else if 'a' ≤ c ∧ c ≤ 'f' then some (c.toNat - 'a'.toNat + 10)
  else if 'A' ≤ c ∧ c ≤ 'F' then some (c.toNat - 'A'.toNat + 10)
  else none

/-- The code unit of four hexadecimal digits. -/
def codeUnit? : List Char → Option (Nat × List Char)
  | a :: b :: c :: d :: rest => do
    let a ← hexValue? a
    let b ← hexValue? b
    let c ← hexValue? c
    let d ← hexValue? d
    return (((a * 16 + b) * 16 + c) * 16 + d, rest)
  | _ => none

/-- The character of a one-letter escape. -/
def shortEscape? (c : Char) : Option Char :=
  match c with
  | '"' => some '"'
  | '\\' => some '\\'
  | '/' => some '/'
  | 'b' => some (Char.ofNat 8)
  | 'f' => some (Char.ofNat 12)
  | 'n' => some '\n'
  | 'r' => some '\r'
  | 't' => some '\t'
  | _ => none

/-- A unit of a text between quotes: a character that stands for itself or has a letter escape, or a
code unit given by its digits. -/
inductive TextUnit where
  | char (c : Char)
  | unit (n : Nat)

/-- The units of a text up to its closing quote; none if the text does not close or has a control
character or an unknown escape. -/
def textUnits? : Nat → List Char → Option (List TextUnit × List Char)
  | 0, _ => none
  | _ + 1, [] => none
  | n + 1, c :: cs =>
    if c = '"' then some ([], cs)
    else if c = '\\' then
      match cs with
      | 'u' :: cs => do
        let (u, cs) ← codeUnit? cs
        let (us, rest) ← textUnits? n cs
        return (.unit u :: us, rest)
      | e :: cs => do
        let c ← shortEscape? e
        let (us, rest) ← textUnits? n cs
        return (.char c :: us, rest)
      | [] => none
    else if c.toNat < 0x20 then none
    else do
      let (us, rest) ← textUnits? n cs
      return (.char c :: us, rest)

/-- The characters of text units, a pair of surrogates being one character; none if a surrogate
stands alone. -/
def joinUnits? : List TextUnit → Option (List Char)
  | [] => some []
  | .char c :: us => (joinUnits? us).map (c :: ·)
  | .unit high :: us =>
    if high < 0xD800 ∨ 0xDFFF < high then (joinUnits? us).map (Char.ofNat high :: ·)
    else
      match us with
      | .unit low :: rest =>
        if high < 0xDC00 ∧ 0xDC00 ≤ low ∧ low ≤ 0xDFFF then
          (joinUnits? rest).map
            (Char.ofNat (0x10000 + (high - 0xD800) * 0x400 + (low - 0xDC00)) :: ·)
        else none
      | _ => none

/-- A text after its opening quote: what it says, none if half of a surrogate pair is missing. -/
def text? (cs : List Char) : Option (Option String × List Char) := do
  let (units, rest) ← textUnits? (cs.length + 1) cs
  return ((joinUnits? units).map String.ofList, rest)

def maxDepth : Nat := 127

mutual

/-- The document at the start of a text and the text after it, which is none after a broken place. -/
def readValue : Nat → Nat → List Char → Doc × Option (List Char)
  | 0, _, _ => (.broken, none)
  | fuel + 1, depth, cs =>
    match skipBlank cs with
    | '"' :: cs =>
      match text? cs with
      | some (s, rest) => (.string s, some rest)
      | none => (.broken, none)
    | '[' :: cs =>
      let (items, rest) := readItems fuel (depth + 1) true cs
      (.array (decide (maxDepth < depth + 1)) items rest.isSome, rest)
    | '\x7b' :: cs =>
      let (members, rest) := readMembers fuel (depth + 1) true cs
      (.object (decide (maxDepth < depth + 1)) members rest.isSome, rest)
    | 'n' :: cs => readWord .null ['u', 'l', 'l'] cs
    | 't' :: cs => readWord (.bool true) ['r', 'u', 'e'] cs
    | 'f' :: cs => readWord (.bool false) ['a', 'l', 's', 'e'] cs
    | cs =>
      match numeral? cs with
      | some (x, rest) => (.number x.toNumber?, some rest)
      | none => (.broken, none)
where
  /-- A word of which the first letter has been read. -/
  readWord (d : Doc) (word cs : List Char) : Doc × Option (List Char) :=
    match after? word cs with
    | some rest => (d, some rest)
    | none => (.broken, none)

/-- The items of a list up to its closing bracket; `first` before the first item. -/
def readItems : Nat → Nat → Bool → List Char → List Doc × Option (List Char)
  | 0, _, _, _ => ([], none)
  | fuel + 1, depth, first, cs =>
    match skipBlank cs with
    | ']' :: rest => if first then ([], some rest) else ([], none)
    | cs =>
      match readValue fuel depth cs with
      | (d, none) => ([d], none)
      | (d, some rest) =>
        match skipBlank rest with
        | ',' :: rest =>
          let (ds, rest) := readItems fuel depth false rest
          (d :: ds, rest)
        | ']' :: rest => ([d], some rest)
        | _ => ([d], none)

/-- The members of an object up to its closing brace; `first` before the first member. -/
def readMembers :
    Nat → Nat → Bool → List Char → List (Option String × Doc) × Option (List Char)
  | 0, _, _, _ => ([], none)
  | fuel + 1, depth, first, cs =>
    match skipBlank cs with
    | '\x7d' :: rest => if first then ([], some rest) else ([], none)
    | '"' :: cs =>
      match text? cs with
      | none => ([], none)
      | some (k, rest) =>
        match skipBlank rest with
        | ':' :: rest =>
          match readValue fuel depth rest with
          | (d, none) => ([(k, d)], none)
          | (d, some rest) =>
            match skipBlank rest with
            | ',' :: rest =>
              let (ms, rest) := readMembers fuel depth false rest
              ((k, d) :: ms, rest)
            | '\x7d' :: rest => ([(k, d)], some rest)
            | _ => ([(k, d)], none)
        | _ => ([(k, .broken)], none)
    | _ => ([], none)

end

/-- The document of a text, and whether nothing but blanks follows it. -/
def read (s : String) : Doc × Bool :=
  let cs := s.toList
  let (d, rest) := readValue (2 * cs.length + 2) 0 cs
  (d, rest.any fun rest => (skipBlank rest).isEmpty)

def parse? (s : String) : Option Json :=
  let (d, finished) := read s
  if finished then d.toJson? else none

end Json
end FieldReplica
