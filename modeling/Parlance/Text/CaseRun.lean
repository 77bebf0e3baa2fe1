/-! Case maps of Unicode as runs of code points that all move by one distance. -/

namespace Parlance.Text

/-- The code points `first`, `first + step`, …, `last`, each of which moves by `shift`. -/
structure CaseRun where
  first : Nat
  last : Nat
  step : Nat
  shift : Int
  deriving Repr, DecidableEq

def CaseRun.covers (r : CaseRun) (n : Nat) : Bool :=
  r.first ≤ n && n ≤ r.last && (n - r.first) % r.step == 0

/-- Follows the run that covers `c`, and leaves alone a character that no run covers. The runs come
in the order of their first code points. -/
def CaseRun.follow : List CaseRun → Char → Char
  | [], c => c
  | r :: rest, c =>
    if c.toNat < r.first then c
    else if r.covers c.toNat then Char.ofNat ((c.toNat : Int) + r.shift).toNat
    else follow rest c

def CaseRun.origins (runs : List CaseRun) (c : Char) : List Char :=
  runs.filterMap fun r =>
    let n := ((c.toNat : Int) - r.shift).toNat
    if r.covers n && (n : Int) + r.shift == c.toNat then some (Char.ofNat n) else none

end Parlance.Text
