/-! Doubles taken apart into a sign, a mantissa and a binary exponent, and put together again. -/

namespace Parlance.Decimal

/-- A double: `finite negative m q` is the number `± m · 2 ^ q`. -/
inductive Binary where
  | undefined
  | infinite (negative : Bool)
  | finite (negative : Bool) (mantissa : Nat) (exponent : Int)
  deriving Repr, DecidableEq

def decode (x : Float) : Binary :=
  let bits := x.toBits.toNat
  let negative := decide (Nat.pow 2 63 ≤ bits)
  let exponent : Nat := bits / Nat.pow 2 52 % Nat.pow 2 11
  let fraction : Nat := bits % Nat.pow 2 52
  if exponent = 2047 then
    if fraction = 0 then .infinite negative else .undefined
  else if exponent = 0 then .finite negative fraction (-1074)
  else .finite negative (Nat.pow 2 52 + fraction) ((exponent : Int) - 1075)

/-- The double `± m · 2 ^ q`, for a number that a double holds exactly. -/
def encode (negative : Bool) (m : Nat) (q : Int) : Float :=
  let sign := if negative then Nat.pow 2 63 else 0
  let shift := min (52 - m.log2) (q + 1074).toNat
  let mantissa := m * Nat.pow 2 shift
  let exponent := (q - shift + 1075).toNat
  let magnitude :=
    if m = 0 then 0
    else if mantissa < Nat.pow 2 52 then mantissa
    else exponent * Nat.pow 2 52 + (mantissa - Nat.pow 2 52)
  Float.ofBits (UInt64.ofNat (sign + magnitude))

/-- The remainder of a division whose quotient is cut toward zero. It is exact, and it has the sign
of the dividend. -/
def remainder (a b : Float) : Float :=
  match decode a, decode b with
  | .finite negative m p, .finite _ n q =>
    if n = 0 then 0.0 / 0.0
    else
      let unit := min p q
      encode negative (m * Nat.pow 2 (p - unit).toNat % (n * Nat.pow 2 (q - unit).toNat)) unit
  | .finite .., .infinite _ => a
  | _, _ => 0.0 / 0.0

end Parlance.Decimal
