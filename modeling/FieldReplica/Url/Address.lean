import FieldReplica.Url.Encoding

/-!
# Numeric hosts

The two kinds of addresses that may stand for a host. An address of four octets may be written with
fewer numbers, the last of which fills the rest, in decimal, octal or hexadecimal. An address of eight
pieces may leave out one run of zeros and may end in an address of four octets; it is written with the
first longest run of at least two zeros left out.
-/
namespace FieldReplica.Url

def splitOn (sep : Char) : List Char → List (List Char)
  | [] => [[]]
  | c :: cs =>
    if c = sep then [] :: splitOn sep cs
    else
      match splitOn sep cs with
      | part :: rest => (c :: part) :: rest
      | [] => [[c]]

/-- The value of digits in a base; none if a character is no digit of it. -/
def digitsIn? (base : Nat) (cs : List Char) : Option Nat :=
  cs.foldl (fun acc c => acc.bind fun n => (hexValue? c).bind fun d =>
    if d < base then some (n * base + d) else none) (some 0)

def number? : List Char → Option Nat
  | [] => none
  | '0' :: 'x' :: cs => digitsIn? 16 cs
  | '0' :: 'X' :: cs => digitsIn? 16 cs
  | '0' :: c :: cs => digitsIn? 8 (c :: cs)
  | cs => digitsIn? 10 cs

namespace Ipv4

/-- The numbers of a text, between points; a last point does not count. -/
def parts (cs : List Char) : List (List Char) :=
  let ps := splitOn '.' cs
  if ps.getLast? = some [] then ps.dropLast else ps

/-- Whether a name ends in a number, so that it has to be an address. -/
def endsInNumber (cs : List Char) : Bool :=
  let ps := splitOn '.' cs
  let ps := if ps.getLast? = some [] then ps.dropLast else ps
  match ps.getLast? with
  | some last => (last ≠ [] && last.all Char.isDigit) || (number? last).isSome
  | none => false

def parse? (cs : List Char) : Option Nat := do
  let numbers ← (parts cs).mapM number?
  let last ← numbers.getLast?
  let front := numbers.dropLast
  if numbers.length > 4 ∨ front.any (255 < ·) ∨ 1 <<< (8 * (4 - front.length)) ≤ last then none
  else
    let high := front.foldl (fun acc n => acc * 256 + n) 0
    some (high <<< (8 * (4 - front.length)) + last)

def octets (n : Nat) : List Nat := [n >>> 24 % 256, n >>> 16 % 256, n >>> 8 % 256, n % 256]

def toChars (n : Nat) : List Char :=
  List.intercalate ['.'] ((octets n).map (Nat.toDigits 10))

/-- Whether an address is that of the machine itself. -/
def isLoopback (n : Nat) : Bool := n >>> 24 % 256 = 127

end Ipv4

namespace Ipv6

/-- The pieces read so far, and how many of them stand before the run of zeros that is left out. -/
structure Partial where
  pieces : List Nat
  gap : Option Nat

/-- The octets at the end of an address: four decimal numbers without leading zeros. -/
def tail? (cs : List Char) : Option (List Nat) := do
  let numbers ← (splitOn '.' cs).mapM fun part =>
    match part with
    | [] => none
    | '0' :: _ :: _ => none
    | part => (digitsIn? 10 part).filter (· ≤ 255)
  match numbers with
  | [a, b, c, d] => some [a * 256 + b, c * 256 + d]
  | _ => none

/-- Read pieces up to the end of a text. -/
def read? : Nat → List Char → Partial → Option Partial
  | 0, _, _ => none
  | _ + 1, [], p => some p
  | fuel + 1, ':' :: cs, p =>
    if p.pieces.length = 8 ∨ p.gap.isSome then none
    else read? fuel cs ⟨p.pieces ++ [0], some (p.pieces.length + 1)⟩
  | fuel + 1, cs, p =>
    if p.pieces.length = 8 then none
    else
      let digits := (cs.take 4).takeWhile fun c => (hexValue? c).isSome
      match cs.drop digits.length, digitsIn? 16 digits with
      | [], some n => some { p with pieces := p.pieces ++ [n] }
      | ':' :: rest, some n =>
        if rest = [] then none else read? fuel rest { p with pieces := p.pieces ++ [n] }
      | '.' :: _, _ =>
        if digits = [] ∨ 6 < p.pieces.length then none
        else (tail? cs).map fun ns => { p with pieces := p.pieces ++ ns }
      | _, _ => none

def parse? (cs : List Char) : Option (List Nat) := do
  if cs.length < 2 then none
  let p ← match cs with
    | ':' :: ':' :: rest => read? (cs.length + 1) rest ⟨[0], some 1⟩
    | ':' :: _ => none
    | cs => read? (cs.length + 1) cs ⟨[], none⟩
  match p.gap with
  | some g =>
    some (p.pieces.take g ++ List.replicate (8 - p.pieces.length) 0 ++ p.pieces.drop g)
  | none => if p.pieces.length = 8 then some p.pieces else none

def zeros (ps : List Nat) : Nat := (ps.takeWhile (· = 0)).length

/-- Where the first longest run of zeros starts and how long it is, among the runs from index `i`. -/
def longestRun (i : Nat) : List Nat → Nat × Nat
  | [] => (i, 0)
  | p :: ps =>
    let here := zeros (p :: ps)
    let (start, length) := longestRun (i + 1) ps
    if length ≤ here then (i, here) else (start, length)

def pieceText (ps : List Nat) : List Char := List.intercalate [':'] (ps.map (Nat.toDigits 16))

def toChars (ps : List Nat) : List Char :=
  let (start, length) := longestRun 0 ps
  if length < 2 then pieceText ps
  else pieceText (ps.take start) ++ [':', ':'] ++ pieceText (ps.drop (start + length))

/-- Whether an address is that of the machine itself. -/
def isLoopback (ps : List Nat) : Bool := ps = [0, 0, 0, 0, 0, 0, 0, 1]

end Ipv6
end FieldReplica.Url
