import FieldReplica.Json.Basic
import FieldReplica.Number.Shortest

/-!
# JSON text

The compact text of a value: no blanks, the members of an object in their order, and in a text only
the quote, the backslash and the control characters escaped. A double is written with the fewest
digits that read back, positionally from `1e-5` up to `1e16` and with an exponent outside.
-/
namespace FieldReplica.Json

def hexDigit (n : Nat) : Char := Nat.digitChar (n % 16)

/-- What stands for a character inside a JSON text. -/
def escapeChar (c : Char) : List Char :=
  if c = '"' ∨ c = '\\' then ['\\', c]
  else if c = '\n' then ['\\', 'n']
  else if c = '\r' then ['\\', 'r']
  else if c = '\t' then ['\\', 't']
  else if c.toNat = 8 then ['\\', 'b']
  else if c.toNat = 12 then ['\\', 'f']
  else if c.toNat < 32 then ['\\', 'u', '0', '0', hexDigit (c.toNat / 16), hexDigit c.toNat]
  else [c]

def quoted (s : String) : List Char := '"' :: s.toList.flatMap escapeChar ++ ['"']

/-- The decimals of a double whose point stands after `point` digits; `point` counts from the first
digit and may lie outside the digits on either side. -/
def positional (digits : List Char) (point : Int) : List Char :=
  if point ≤ 0 then '0' :: '.' :: List.replicate (-point).toNat '0' ++ digits
  else if digits.length ≤ point then
    digits ++ List.replicate (point.toNat - digits.length) '0' ++ ['.', '0']
  else digits.take point.toNat ++ '.' :: digits.drop point.toNat

/-- One digit before the point, and the sign and digits of the power of ten. -/
def scientific (digits : List Char) (point : Int) : List Char :=
  let power := point - 1
  let sign := if power < 0 then '-' else '+'
  let whole := match digits with
    | [] => []
    | [d] => [d]
    | d :: rest => d :: '.' :: rest
  whole ++ 'e' :: sign :: Nat.toDigits 10 power.natAbs

def floatText (x : Number.Binary64) : List Char :=
  let sign := if x.negative then ['-'] else []
  if x.isZero then sign ++ ['0', '.', '0']
  else
    let d := Number.Shortest.decimal x
    let digits := Nat.toDigits 10 d.digits
    let point : Int := digits.length + d.exponent
    sign ++ if -5 < point ∧ point ≤ 16 then positional digits point else scientific digits point

def numberText : JsonNumber → List Char
  | .int n => (toString n).toList
  | .float x => floatText x

mutual

/-- The characters of a value's compact text. -/
def chars : Json → List Char
  | .null => ['n', 'u', 'l', 'l']
  | .bool true => ['t', 'r', 'u', 'e']
  | .bool false => ['f', 'a', 'l', 's', 'e']
  | .number n => numberText n
  | .string s => quoted s
  | .array items => '[' :: itemChars items ++ [']']
  | .object members => '\x7b' :: memberChars members ++ ['\x7d']

def itemChars : List Json → List Char
  | [] => []
  | [v] => chars v
  | v :: rest => chars v ++ ',' :: itemChars rest

def memberChars : List (String × Json) → List Char
  | [] => []
  | [(k, v)] => quoted k ++ ':' :: chars v
  | (k, v) :: rest => quoted k ++ ':' :: chars v ++ ',' :: memberChars rest

end

def render (v : Json) : String := String.ofList (chars v)

end FieldReplica.Json
