/-!
# Labels outside ASCII in ASCII

A label is written as its ASCII characters, a hyphen, and one whole number for each other character. The
characters are put in by rising code point; the number says how many places, counted over the code
points passed by and the gaps of the text so far, lie between one insertion and the next. Numbers
have digits of weights that adapt to the numbers before, so that near insertions stay short.
-/
namespace FieldReplica.Url.Punycode

def digit (n : Nat) : Char :=
  if n < 26 then Char.ofNat ('a'.toNat + n) else Char.ofNat ('0'.toNat + (n - 26))

def digitValue? (c : Char) : Option Nat :=
  if 'a' ≤ c ∧ c ≤ 'z' then some (c.toNat - 'a'.toNat)
  else if 'A' ≤ c ∧ c ≤ 'Z' then some (c.toNat - 'A'.toNat)
  else if '0' ≤ c ∧ c ≤ '9' then some (c.toNat - '0'.toNat + 26)
  else none

/-- The value from which on a digit at place `k` is followed by another one. -/
def threshold (bias k : Nat) : Nat := max 1 (min 26 (k - bias))

private theorem threshold_pos (bias k : Nat) : 0 < threshold bias k := by
  unfold threshold
  omega

/-- The bias for a number of which `delta` is what is left after scaling. -/
def settle (delta k : Nat) : Nat :=
  if 455 < delta then settle (delta / 35) (k + 36) else k + 36 * delta / (delta + 38)
termination_by delta
decreasing_by omega

/-- The bias after the number `delta`, with `points` characters in the text. -/
def adapt (delta points : Nat) (isFirst : Bool) : Nat :=
  let delta := if isFirst then delta / 700 else delta / 2
  settle (delta + delta / points) 0

/-- The digits of a number from place `k` on. -/
def digits (bias k n : Nat) : List Char :=
  let t := threshold bias k
  if n < t then [digit n] else digit (t + (n - t) % (36 - t)) :: digits bias (k + 36) ((n - t) / (36 - t))
termination_by n
decreasing_by
  have := threshold_pos bias k
  have := Nat.div_le_self (n - threshold bias k) (36 - threshold bias k)
  omega

/-- What is written so far, the places passed since the last insertion, and how many characters are in. -/
structure Writer where
  out : List Char
  delta : Nat
  bias : Nat
  points : Nat

/-- Passes a character of the label while those of the code point `m` are put in. -/
def Writer.pass (plain m : Nat) (w : Writer) (c : Char) : Writer :=
  if c.toNat < m then { w with delta := w.delta + 1 }
  else if c.toNat = m then
    { out := w.out ++ digits w.bias 36 w.delta
      delta := 0
      bias := adapt w.delta (w.points + 1) (w.points = plain)
      points := w.points + 1 }
  else w

/-- Puts in the characters of rising code points, of which `n` is the first that may come. -/
def Writer.insertAll (label : List Char) (plain : Nat) : Nat → List Nat → Writer → Writer
  | _, [], w => w
  | n, m :: ms, w =>
    let w := { w with delta := w.delta + (m - n) * (w.points + 1) }
    let w := label.foldl (pass plain m) w
    insertAll label plain (m + 1) ms { w with delta := w.delta + 1 }

def encode (label : List Char) : List Char :=
  let plain := label.filter (·.toNat < 0x80)
  let others := (label.map Char.toNat).filter (0x80 ≤ ·)
  let start := if plain = [] then [] else plain ++ ['-']
  (Writer.insertAll label plain.length 0x80 (others.mergeSort.eraseReps) ⟨start, 0, 72, plain.length⟩).out

/-- A number from place `k` on, and what follows it. -/
def number? (bias : Nat) : Nat → List Char → Option (Nat × List Char)
  | _, [] => none
  | k, c :: cs => do
    let d ← digitValue? c
    let t := threshold bias k
    if d < t then return (d, cs)
    else
      let (n, rest) ← number? bias (k + 36) cs
      return (d + (36 - t) * n, rest)

/-- Puts characters into a text as the numbers say; `code` and `place` are where the last one went. -/
def insertAll? (fuel code place bias : Nat) (text cs : List Char) : Option (List Char) :=
  match fuel, cs with
  | _, [] => some text
  | 0, _ => none
  | fuel + 1, cs => do
    let (delta, rest) ← number? bias 36 cs
    let points := text.length + 1
    let code := code + (place + delta) / points
    let place := (place + delta) % points
    if code.isValidChar then
      insertAll? fuel code (place + 1) (adapt delta points (text.all (·.toNat < 0x80)))
        (text.insertIdx place (Char.ofNat code)) rest
    else none

def decode? (cs : List Char) : Option (List Char) :=
  let back := cs.reverse
  let plain := ((back.dropWhile (· ≠ '-')).drop 1).reverse
  let tail := if plain = [] then cs else (back.takeWhile (· ≠ '-')).reverse
  if plain.all (·.toNat < 0x80) then insertAll? tail.length 0x80 0 72 plain tail else none

end FieldReplica.Url.Punycode
