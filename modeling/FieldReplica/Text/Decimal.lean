/-!
# Decimal numerals

Numerals of ASCII digits and the integers they denote. An unsigned numeral may start with a plus
sign and a signed one with either sign; a numeral whose value lies outside the wanted range is
refused. Reading what is written gives the number back.
-/
namespace FieldReplica.Text.Decimal

/-- The value of a non-empty run of digits. -/
def digits? (cs : List Char) : Option Nat :=
  if cs ≠ [] ∧ cs.all Char.isDigit then some (Nat.ofDigitChars 10 cs 0) else none

/-- A digit run that may follow a plus sign. -/
def natural? : List Char → Option Nat
  | '+' :: cs => digits? cs
  | cs => digits? cs

/-- A digit run that may follow a plus or a minus sign. -/
def integer? : List Char → Option Int
  | '-' :: cs => (digits? cs).map fun n => -(n : Int)
  | cs => (natural? cs).map fun n => (n : Int)

def uint64? (cs : List Char) : Option UInt64 :=
  (natural? cs).bind fun n => if n < UInt64.size then some (.ofNat n) else none

def int64? (cs : List Char) : Option Int64 :=
  (integer? cs).bind fun n => if Int64.minValue.toInt ≤ n ∧ n ≤ Int64.maxValue.toInt then some (.ofInt n) else none

/-- The digits of a number, without leading zeros. -/
def ofNat (n : Nat) : List Char := Nat.toDigits 10 n

private theorem digits?_ofNat (n : Nat) : digits? (ofNat n) = some n := by
  have ne : ofNat n ≠ [] := Nat.toDigits_ne_nil
  have all : (ofNat n).all Char.isDigit = true := by
    simp only [List.all_eq_true]
    exact fun c h => Nat.isDigit_of_mem_toDigits (by decide) (by decide) h
  simp only [digits?, ne, all, ne_eq, not_false_eq_true, and_self, if_true]
  rw [ofNat, Nat.ofDigitChars_toDigits (by decide) (by decide)]

theorem natural?_ofNat (n : Nat) : natural? (ofNat n) = some n := by
  have h := digits?_ofNat n
  unfold natural?
  split
  · rename_i cs e
    have : ('+' : Char).isDigit = true :=
      Nat.isDigit_of_mem_toDigits (b := 10) (n := n) (by decide) (by decide)
        (by rw [show Nat.toDigits 10 n = '+' :: cs from e]; simp)
    exact absurd this (by decide)
  · exact h

end FieldReplica.Text.Decimal
