import Mathlib.Data.Prod.Lex
import Mathlib.Order.Compare
import Mathlib.Data.Int.Order.Basic
import Parlance.Value.Basic

/-! The order of numbers. Every double except the undefined one has a rank in a linear order, the two
zeros have the same, and comparing doubles is comparing their ranks. -/

namespace Parlance.Decimal
open Float.Model (UnpackedFloat)

/-- First the sign and whether the number is infinite, then the exponent, then the mantissa. -/
abbrev Rank := ℤ ×ₗ ℤ ×ₗ ℤ

def Rank.of (size exponent mantissa : ℤ) : Rank := toLex (size, toLex (exponent, mantissa))

/-- The rank of a double that is taken apart. Below zero, larger exponents and mantissas come
first. -/
def unpackedRank? : UnpackedFloat → Option Rank
  | .notANumber => none
  | .infinity .negative => some (.of (-2) 0 0)
  | .finite .negative m q _ => some (.of (-1) (-q) (-m))
  | .zero _ => some (.of 0 0 0)
  | .finite .positive m q _ => some (.of 1 q m)
  | .infinity .positive => some (.of 2 0 0)

def rank? (x : Float) : Option Rank := unpackedRank? x.toModel.unpack

def compareRanks (r s : Option Rank) : Option Ordering := r.bind fun r => s.map fun s => compare r s

theorem compare_of (s q m s' q' m' : ℤ) :
    compare (Rank.of s q m) (Rank.of s' q' m') =
      (compare s s').then ((compare q q').then (compare m m')) := by
  simp only [Rank.of, Prod.Lex.compare_def, compareLex, compareOn]
  rfl

theorem compare_neg_neg (a b : ℤ) : compare (-a) (-b) = (compare a b).swap := by
  have hanti : StrictAnti fun n : ℤ => -n := fun _ _ h => Int.neg_lt_neg h
  rw [← cmp_eq_compare, ← cmp_eq_compare, cmp_swap]
  exact hanti.cmp_map_eq a b

theorem compare_natCast (a b : ℕ) : compare (a : ℤ) (b : ℤ) = compare a b := by
  have hmono : StrictMono fun n : ℕ => (n : ℤ) := fun _ _ h => Int.ofNat_lt.2 h
  rw [← cmp_eq_compare, ← cmp_eq_compare]
  exact hmono.cmp_map_eq a b

theorem compareRanks_of (s q m s' q' m' : ℤ) :
    compareRanks (some (.of s q m)) (some (.of s' q' m')) =
      some ((compare s s').then ((compare q q').then (compare m m'))) :=
  congrArg some (compare_of s q m s' q' m')

theorem unpacked_compare_eq (a b : UnpackedFloat) :
    a.compare b = compareRanks (unpackedRank? a) (unpackedRank? b) := by
  rcases a with ⟨_ | _⟩ | _ | ⟨_ | _⟩ | ⟨_ | _, m, q, _⟩ <;>
    rcases b with ⟨_ | _⟩ | _ | ⟨_ | _⟩ | ⟨_ | _, m', q', _⟩
  case finite.negative.finite.negative =>
    refine Eq.trans ?_ (compareRanks_of (-1) (-q) (-m) (-1) (-q') (-m')).symm
    rw [compare_neg_neg q, compare_neg_neg m, compare_natCast, ← Ordering.swap_then]
    rfl
  case finite.positive.finite.positive =>
    refine Eq.trans ?_ (compareRanks_of 1 q m 1 q' m').symm
    rw [compare_natCast]
    rfl
  all_goals rfl

theorem compareRanks_swap (r s : Option Rank) :
    compareRanks s r = (compareRanks r s).map Ordering.swap := by
  rcases r with _ | r <;> rcases s with _ | s <;> simp only [compareRanks, Option.bind_some,
    Option.map_some, Option.bind_none, Option.map_none]
  rw [← cmp_eq_compare, ← cmp_eq_compare, cmp_swap]

theorem compareRanks_eq_some {r s : Option Rank} {o : Ordering} :
    compareRanks r s = some o ↔ ∃ a b, r = some a ∧ s = some b ∧ compare a b = o := by
  rcases r with _ | r <;> rcases s with _ | s <;> simp [compareRanks]

theorem isNaN_iff {x : Float} : x.isNaN = true ↔ rank? x = none := by
  unfold rank? Float.isNaN Float.Model.isNaN
  rcases x.toModel.unpack with ⟨_ | _⟩ | _ | _ | ⟨_ | _, _, _, _⟩
  case notANumber => exact iff_of_true rfl rfl
  all_goals exact iff_of_false Bool.false_ne_true (Option.some_ne_none _)

theorem lt_iff {x y : Float} : x < y ↔ compareRanks (rank? x) (rank? y) = some .lt := by
  rw [rank?, rank?, ← unpacked_compare_eq]
  change decide (x.toModel < y.toModel) = true ↔ _
  rw [decide_eq_true_iff]
  change (x.toModel.unpack.compare y.toModel.unpack == some .lt) = true ↔ _
  rw [beq_iff_eq]

theorem beq_iff {x y : Float} :
    (x == y) = true ↔ compareRanks (rank? x) (rank? y) = some .eq := by
  rw [rank?, rank?, ← unpacked_compare_eq]
  change (x.toModel.unpack.compare y.toModel.unpack == some .eq) = true ↔ _
  rw [beq_iff_eq]

theorem compareNumbers_eq (x y : Float) :
    Value.compareNumbers x y = compareRanks (rank? x) (rank? y) := by
  have hgt := compareRanks_swap (rank? x) (rank? y)
  simp only [Value.compareNumbers, lt_iff, beq_iff, hgt]
  rcases compareRanks (rank? x) (rank? y) with _ | _ | _ | _ <;> rfl

end Parlance.Decimal
