import FieldReplica.Text.Utf8

/-!
# Percent encoding

A character outside ASCII, a control character, or a character of the set in force stands as the octets
of its UTF-8 form, each written as a percent sign and two hexadecimal digits. Every part of a URL has
its own set. A query made of pairs has a stricter form, in which a blank is a plus sign.
-/
namespace FieldReplica.Url

/-- The characters that a part of a URL cannot hold as they are, besides controls and all characters
outside ASCII. -/
structure EncodeSet where
  chars : List Char
deriving DecidableEq

namespace EncodeSet

/-- The set of an opaque path or host: controls only. -/
def control : EncodeSet := ⟨[]⟩

def fragment : EncodeSet := ⟨[' ', '"', '<', '>', '\x60']⟩

def query : EncodeSet := ⟨[' ', '"', '#', '<', '>']⟩

/-- The query of a URL with a special scheme. -/
def specialQuery : EncodeSet := ⟨query.chars ++ ['\x27']⟩

def path : EncodeSet := ⟨fragment.chars ++ ['#', '?', '\x7b', '\x7d']⟩

/-- A segment that is added to a path. -/
def pathSegment : EncodeSet := ⟨path.chars ++ ['/', '%']⟩

/-- A segment that is added to the path of a URL with a special scheme. -/
def specialPathSegment : EncodeSet := ⟨pathSegment.chars ++ ['\\']⟩

def userinfo : EncodeSet := ⟨path.chars ++ ['/', ':', ';', '=', '@', '[', '\\', ']', '^', '|']⟩

/-- Whether a character is encoded. -/
def has (s : EncodeSet) (c : Char) : Bool := c.toNat < 0x20 || 0x7F ≤ c.toNat || s.chars.contains c

end EncodeSet

def hexDigit (n : Nat) : Char := (Nat.digitChar n).toUpper

def encodeOctet (b : UInt8) : List Char := ['%', hexDigit (b.toNat / 16), hexDigit (b.toNat % 16)]

def encodeChar (s : EncodeSet) (c : Char) : List Char :=
  if s.has c then (String.utf8EncodeChar c).flatMap encodeOctet else [c]

def encode (s : EncodeSet) (cs : List Char) : List Char := cs.flatMap (encodeChar s)

def hexValue? (c : Char) : Option Nat :=
  if '0' ≤ c ∧ c ≤ '9' then some (c.toNat - '0'.toNat)
  else if 'a' ≤ c ∧ c ≤ 'f' then some (c.toNat - 'a'.toNat + 10)
  else if 'A' ≤ c ∧ c ≤ 'F' then some (c.toNat - 'A'.toNat + 10)
  else none

def octet? (a b : Char) : Option UInt8 := do
  let a ← hexValue? a
  let b ← hexValue? b
  return UInt8.ofNat (a * 16 + b)

/-- The octets of a text in which percent signs with two digits stand for octets. -/
def decodeOctets : List Char → List UInt8
  | [] => []
  | '%' :: a :: b :: rest =>
    match octet? a b with
    | some o => o :: decodeOctets rest
    | none => 0x25 :: decodeOctets (a :: b :: rest)
  | c :: rest => String.utf8EncodeChar c ++ decodeOctets rest

/-- Whether a character stands for itself in a query of pairs. -/
def isPairChar (c : Char) : Bool :=
  c.isAlphanum || c = '*' || c = '-' || c = '.' || c = '_'

def encodePairChar (c : Char) : List Char :=
  if isPairChar c then [c]
  else if c = ' ' then ['+']
  else (String.utf8EncodeChar c).flatMap encodeOctet

/-- A name or a value in a query of pairs. -/
def encodePairPart (cs : List Char) : List Char := cs.flatMap encodePairChar

def encodePair (p : String × String) : List Char :=
  encodePairPart p.1.toList ++ '=' :: encodePairPart p.2.toList

/-- The pairs of a query, with an ampersand between them. -/
def encodePairs : List (String × String) → List Char
  | [] => []
  | [p] => encodePair p
  | p :: rest => encodePair p ++ '&' :: encodePairs rest

end FieldReplica.Url
