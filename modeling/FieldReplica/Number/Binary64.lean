/-!
# Binary floating-point numbers of 64 bits

A finite double is a sign, a significand and a power of two. `round` gives the double nearest to a
quotient of natural numbers, a tie going to the even significand, so that products and quotients
of doubles are rounded once from their exact values.
-/
namespace FieldReplica.Number

/-- The number `significand * 2 ^ exponent`, negated if `negative`. The significand of a written
number stays below `2 ^ 53` and is at least `2 ^ 52` unless the exponent is the least one, `-1074`. -/
structure Binary64 where
  negative : Bool
  significand : Nat
  exponent : Int
deriving DecidableEq, Repr, Inhabited

namespace Binary64

def minExponent : Int := -1074

def maxExponent : Int := 971

def zero (negative : Bool) : Binary64 := ⟨negative, 0, minExponent⟩

def isZero (x : Binary64) : Bool := x.significand = 0

def neg (x : Binary64) : Binary64 := { x with negative := !x.negative }

/-- The quotient of `num` by `den * 2 ^ e`, as a fraction. -/
def unscale (num den : Nat) (e : Int) : Nat × Nat :=
  if 0 ≤ e then (num, den <<< e.toNat) else (num <<< (-e).toNat, den)

/-- The power of two that leaves 53 bits of `num / den`, where that is not below the least. -/
def exponentFor (num den : Nat) : Int :=
  let guess : Int := (num.log2 : Int) - (den.log2 : Int) - 53
  let (n, d) := unscale num den guess
  max minExponent (if 1 <<< 53 ≤ n / d then guess + 1 else guess)

/-- The nearest whole number to `num / den`, a tie going to the even one. -/
def divNearest (num den : Nat) : Nat :=
  let q := num / den
  let r := num % den
  if 2 * r < den ∨ (2 * r = den ∧ q % 2 = 0) then q else q + 1

/-- The double nearest to `num / den`; `none` beyond the greatest double. -/
def round (negative : Bool) (num den : Nat) : Option Binary64 :=
  if num = 0 then some (zero negative)
  else
    let e := exponentFor num den
    let (n, d) := unscale num den e
    let q := divNearest n d
    let (q, e) := if q = 1 <<< 53 then (1 <<< 52, e + 1) else (q, e)
    if maxExponent < e then none else some ⟨negative, q, e⟩

/-- The double nearest to a natural number of at most 64 bits. -/
def ofNat (n : Nat) : Binary64 := (round false n 1).getD (zero false)

def toFraction (x : Binary64) : Nat × Nat :=
  if 0 ≤ x.exponent then (x.significand <<< x.exponent.toNat, 1)
  else (x.significand, 1 <<< (-x.exponent).toNat)

/-- The rounded product; `none` beyond the greatest double. -/
def mul (x y : Binary64) : Option Binary64 :=
  let (a, b) := x.toFraction
  let (c, d) := y.toFraction
  round (x.negative != y.negative) (a * c) (b * d)

/-- The rounded quotient by a double that is not zero; `none` beyond the greatest double. -/
def div (x y : Binary64) : Option Binary64 :=
  let (a, b) := x.toFraction
  let (c, d) := y.toFraction
  round (x.negative != y.negative) (a * d) (b * c)

/-- The double nearest to a power of ten. -/
def pow10 (k : Nat) : Binary64 := ofNat (Nat.pow 10 k)

end Binary64
end FieldReplica.Number
