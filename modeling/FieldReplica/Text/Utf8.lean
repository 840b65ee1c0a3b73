/-!
# UTF-8

Octets and the text they encode. `decode?` refuses octets that are not well formed; `decodeLossy`
puts one replacement character in the place of each longest octet run that starts a character but
does not finish it.
-/
namespace FieldReplica.Text.Utf8

/-- A tail octet within the bounds that the octets before it leave. -/
def isTail (low high b : UInt8) : Bool := low ≤ b && b ≤ high

/-- The tail octets that a first octet asks for, each with its bounds. -/
def tails (b : UInt8) : Option (List (UInt8 × UInt8)) :=
  if b < 0x80 then some []
  else if b < 0xC2 then none
  else if b < 0xE0 then some [(0x80, 0xBF)]
  else if b = 0xE0 then some [(0xA0, 0xBF), (0x80, 0xBF)]
  else if b = 0xED then some [(0x80, 0x9F), (0x80, 0xBF)]
  else if b < 0xF0 then some [(0x80, 0xBF), (0x80, 0xBF)]
  else if b = 0xF0 then some [(0x90, 0xBF), (0x80, 0xBF), (0x80, 0xBF)]
  else if b < 0xF4 then some [(0x80, 0xBF), (0x80, 0xBF), (0x80, 0xBF)]
  else if b = 0xF4 then some [(0x80, 0x8F), (0x80, 0xBF), (0x80, 0xBF)]
  else none

/-- The octets that fill the bounds in turn, as far as they do, and whether all were filled. -/
def takeTails : List (UInt8 × UInt8) → List UInt8 → List UInt8 × Bool
  | [], _ => ([], true)
  | _ :: _, [] => ([], false)
  | (low, high) :: bounds, b :: bs =>
    if isTail low high b then
      let (taken, full) := takeTails bounds bs
      (b :: taken, full)
    else ([], false)

/-- The bits of a first octet that count towards the code point. -/
def leadBits (b : UInt8) : Nat :=
  if b < 0x80 then b.toNat
  else if b < 0xE0 then b.toNat % 0x20
  else if b < 0xF0 then b.toNat % 0x10
  else b.toNat % 0x08

def codePoint (lead : UInt8) (rest : List UInt8) : Char :=
  Char.ofNat (rest.foldl (fun acc b => acc * 64 + b.toNat % 64) (leadBits lead))

/-- One step of reading: a character or an ill-formed run, and how many octets follow the first. -/
def next (b : UInt8) (bs : List UInt8) : Option Char × Nat :=
  match tails b with
  | none => (none, 0)
  | some bounds =>
    let (taken, full) := takeTails bounds bs
    (if full then some (codePoint b taken) else none, taken.length)

/-- The characters and the ill-formed runs (`none`) of a list of octets. -/
def scan : List UInt8 → List (Option Char)
  | [] => []
  | b :: bs => (next b bs).1 :: scan (bs.drop (next b bs).2)
termination_by l => l.length
decreasing_by simp only [List.length_drop, List.length_cons]; omega

def decode? (bs : List UInt8) : Option String :=
  ((scan bs).mapM id).map String.ofList

/-- The text of any octets, with U+FFFD for each ill-formed run. -/
def decodeLossy (bs : List UInt8) : String :=
  String.ofList ((scan bs).map (·.getD '\uFFFD'))

def encode (s : String) : List UInt8 := s.toList.flatMap String.utf8EncodeChar

end FieldReplica.Text.Utf8
