/-!
# Base 64

Octets as text: three octets give four characters of six bits each, and the text is filled up with equals
signs to a multiple of four characters.
-/
namespace FieldReplica.Text.Base64

def digit (n : Nat) : Char :=
  if n < 26 then Char.ofNat ('A'.toNat + n)
  else if n < 52 then Char.ofNat ('a'.toNat + (n - 26))
  else if n < 62 then Char.ofNat ('0'.toNat + (n - 52))
  else if n = 62 then '+'
  else '/'

def quad (n : Nat) : List Char :=
  [digit (n >>> 18 % 64), digit (n >>> 12 % 64), digit (n >>> 6 % 64), digit (n % 64)]

def encode : List UInt8 → List Char
  | [] => []
  | [a] => (quad (a.toNat <<< 16)).take 2 ++ ['=', '=']
  | [a, b] => (quad (a.toNat <<< 16 + b.toNat <<< 8)).take 3 ++ ['=']
  | a :: b :: c :: rest => quad (a.toNat <<< 16 + b.toNat <<< 8 + c.toNat) ++ encode rest

end FieldReplica.Text.Base64
