import FieldReplica.Number.Binary64

/-!
# The shortest decimal of a double

Among the decimals with the fewest digits that round to a given double, the one nearest to it. Ten
digit counts too few are ruled out by looking at the two neighbours of the double on the grid of
that many digits: if any point of a grid rounds to the double, one of these two does.
-/
namespace FieldReplica.Number.Shortest

/-- The digits of a number and the power of ten that they are multiplied by. -/
structure Decimal where
  digits : Nat
  exponent : Int
deriving DecidableEq, Repr

/-- The numbers that round to a double: the bounds are `low / den` and `high / den`, and belong to
the interval if `closed`. -/
structure Interval where
  low : Nat
  high : Nat
  den : Nat
  closed : Bool

/-- The numbers that round to `significand * 2 ^ exponent`: half a unit on either side, except that
the unit below a power of two is half as large. -/
def interval (x : Binary64) : Interval :=
  let m := x.significand
  let narrow := m = 1 <<< 52 ∧ Binary64.minExponent < x.exponent
  let low := if narrow then 4 * m - 1 else 4 * m - 2
  let high := 4 * m + 2
  let e := x.exponent - 2
  if 0 ≤ e then ⟨low <<< e.toNat, high <<< e.toNat, 1, m % 2 = 0⟩
  else ⟨low, high, 1 <<< (-e).toNat, m % 2 = 0⟩

def scaled (d : Nat) (k : Int) : Nat × Nat :=
  if 0 ≤ k then (d * Nat.pow 10 k.toNat, 1) else (d, Nat.pow 10 (-k).toNat)

/-- Whether `d * 10 ^ k` lies in the interval. -/
def Interval.holds (i : Interval) (d : Nat) (k : Int) : Bool :=
  let (n, q) := scaled d k
  if i.closed then i.low * q ≤ n * i.den ∧ n * i.den ≤ i.high * q
  else i.low * q < n * i.den ∧ n * i.den < i.high * q

/-- The point of the grid `10 ^ k` that stands for the double, if one of its neighbours rounds to it:
the nearer one, and of two equally near the even one. -/
def onGrid (x : Binary64) (k : Int) : Option Nat :=
  let (a, b) := x.toFraction
  let (num, den) := if 0 ≤ k then (a, b * Nat.pow 10 k.toNat) else (a * Nat.pow 10 (-k).toNat, b)
  let below := num / den
  let rest := num % den
  let i := interval x
  match i.holds below k, i.holds (below + 1) k with
  | false, false => none
  | true, false => some below
  | false, true => some (below + 1)
  | true, true =>
    if 2 * rest < den ∨ (2 * rest = den ∧ below % 2 = 0) then some below else some (below + 1)

/-- The power of ten of the leading digit, for a fraction that is not zero. -/
def magnitude (num den : Nat) : Int :=
  let guess : Int := ((Nat.toDigits 10 num).length : Int) - ((Nat.toDigits 10 den).length : Int)
  let (p, q) := scaled 1 guess
  if num * q < den * p then guess - 1 else guess

/-- The first grid, from `10 ^ k` on to finer ones, on which the double is found. -/
def search (x : Binary64) : Nat → Int → Option Decimal
  | 0, _ => none
  | n + 1, k =>
    match onGrid x k with
    | some d => some ⟨d, k⟩
    | none => search x n (k - 1)

def dropZeros : Nat → Decimal → Decimal
  | 0, d => d
  | n + 1, d =>
    if d.digits ≠ 0 ∧ d.digits % 10 = 0 then dropZeros n ⟨d.digits / 10, d.exponent + 1⟩ else d

/-- The shortest decimal that rounds to the magnitude of a double. -/
def decimal (x : Binary64) : Decimal :=
  if x.isZero then ⟨0, 0⟩
  else
    let (a, b) := x.toFraction
    dropZeros 18 ((search x 18 (magnitude a b)).getD ⟨0, 0⟩)

end FieldReplica.Number.Shortest
