import Parlance.Decimal.Binary

/-! The decimal text of a double: the fewest digits that read back as the same number, written
without an exponent. Of two such decimals the nearer one is taken, and the upper one of a tie. -/

namespace Parlance.Decimal

/-- The positive rational `num / den` as a whole number of units `10 ^ k`, rounded down, together
with what is left over and the divisor that was used. -/
def onGrid (num den : Nat) (k : Int) : Nat × Nat × Nat :=
  let n := num * Nat.pow 10 (-k).toNat
  let d := den * Nat.pow 10 k.toNat
  (n / d, n % d, d)

/-- The greatest `k` with `10 ^ k ≤ num / den`, for numbers that doubles can hold. -/
def magnitude (num den : Nat) : Int :=
  ((Nat.toDigits 10 (num * Nat.pow 10 400 / den)).length : Int) - 401

/-- The numbers that read back as one double: from `low` to `high`, the ends included or not. All
three numbers are counted in parts of `den`. -/
structure Span where
  low : Nat
  middle : Nat
  high : Nat
  den : Nat
  closed : Bool

/-- The span of `m · 2 ^ q`, for a mantissa and an exponent of a double. A power of two has a
nearer neighbour below than above. -/
def Span.ofBinary (m : Nat) (q : Int) : Span :=
  let scale := Nat.pow 2 (q - 2).toNat
  let below := if m = Nat.pow 2 52 ∧ -1074 < q then 1 else 2
  { low := (4 * m - below) * scale, middle := 4 * m * scale, high := (4 * m + 2) * scale
    den := Nat.pow 2 (2 - q).toNat, closed := m % 2 == 0 }

def Span.holds (s : Span) (d : Nat) (k : Int) : Bool :=
  let n := d * s.den * Nat.pow 10 k.toNat
  let scale := Nat.pow 10 (-k).toNat
  if s.closed then s.low * scale ≤ n && n ≤ s.high * scale
  else s.low * scale < n && n < s.high * scale

/-- The neighbour of the span's middle on the grid `10 ^ k` that lies in the span, if any. -/
def Span.pick (s : Span) (k : Int) : Option Nat :=
  let (d, left, unit) := onGrid s.middle s.den k
  match s.holds d k, s.holds (d + 1) k with
  | true, true => some (if 2 * left < unit then d else d + 1)
  | true, false => some d
  | false, true => some (d + 1)
  | false, false => none

def Span.search (s : Span) : Nat → Int → Nat × Int
  | 0, k => ((onGrid s.middle s.den k).1, k)
  | tries + 1, k =>
    match s.pick k with
    | some d => (d, k)
    | none => s.search tries (k - 1)

/-- Digits `d` and an exponent `k` such that `d · 10 ^ k` is the shortest decimal that reads back
as `m · 2 ^ q`. Seventeen digits always suffice. -/
def shortest (m : Nat) (q : Int) : Nat × Int :=
  let s := Span.ofBinary m q
  s.search 17 (magnitude s.middle s.den)

def positional (d : Nat) (k : Int) : List Char :=
  let digits := Nat.toDigits 10 d
  if 0 ≤ k then digits ++ List.replicate k.toNat '0'
  else
    let places := (-k).toNat
    let padded := List.replicate (places + 1 - digits.length) '0' ++ digits
    let whole := padded.take (padded.length - places)
    let fraction := ((padded.drop (padded.length - places)).reverse.dropWhile (· == '0')).reverse
    if fraction.isEmpty then whole else whole ++ '.' :: fraction

def write (x : Float) : String :=
  match decode x with
  | .undefined => "NaN"
  | .infinite negative => if negative then "-inf" else "inf"
  | .finite negative m q =>
    let body := if m = 0 then ['0'] else positional (shortest m q).1 (shortest m q).2
    String.ofList (if negative then '-' :: body else body)

end Parlance.Decimal
