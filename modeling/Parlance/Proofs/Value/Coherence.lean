import Mathlib.Data.List.Forall2
import Parlance.Engine.Operator
import Parlance.Proofs.Decimal.Rank

/-! Equality and order of values agree. Equality is symmetric and transitive, it stays inside one kind,
and a value is equal to itself unless it holds the undefined number. Comparing turns around with its
operands, and values that can be compared are equal exactly if neither comes first; so the operators
of scripts fit together. -/

namespace Parlance.Value
open Decimal (Rank rank?)

inductive Kind where
  | null | bool | number | text | list | object
  deriving DecidableEq

def kind : Value → Kind
  | null => .null
  | bool _ => .bool
  | number _ => .number
  | text _ => .text
  | list _ => .list
  | object _ => .object

/-- The undefined number, or a list that holds it at some depth. -/
inductive HoldsNaN : Value → Prop
  | number {x : Float} : x.isNaN = true → HoldsNaN (.number x)
  | list {items : List Value} {v : Value} : v ∈ items → HoldsNaN v → HoldsNaN (.list items)

inductive Comparable : Value → Value → Prop
  | numbers {x y : Float} : x.isNaN = false → y.isNaN = false → Comparable (.number x) (.number y)
  | texts (s t : String) : Comparable (.text s) (.text t)
  | bools (p q : Bool) : Comparable (.bool p) (.bool q)

theorem nested_induction {P : Value → Prop} (plain : ∀ v, v.kind ≠ .list → P v)
    (list : ∀ items, (∀ v ∈ items, P v) → P (.list items)) : ∀ v, P v
  | .list items => list items fun v _ => nested_induction plain list v
  | .null | .bool _ | .number _ | .text _ | .object _ => plain _ (by simp [kind])

/-! Equality. -/

inductive Alike : Value → Value → Prop
  | equal {v : Value} : v.kind ≠ .number → v.kind ≠ .list → Alike v v
  | numbers {x y : Float} {r : Rank} : rank? x = some r → rank? y = some r →
      Alike (.number x) (.number y)
  | lists {xs ys : List Value} : List.Forall₂ (fun x y => x.same y = true) xs ys →
      Alike (.list xs) (.list ys)

theorem sameAll_iff {xs ys : List Value} :
    sameAll xs ys = true ↔ List.Forall₂ (fun x y => x.same y = true) xs ys := by
  induction xs generalizing ys with
  | nil => cases ys <;> simp [sameAll]
  | cons x xs ih => cases ys <;> simp [sameAll, ih]

theorem same_number_iff {x y : Float} :
    (Value.number x).same (.number y) = true ↔ ∃ r, rank? x = some r ∧ rank? y = some r := by
  rw [same, Decimal.beq_iff, Decimal.compareRanks_eq_some]
  constructor
  · rintro ⟨r, s, hx, hy, h⟩
    exact ⟨r, hx, by rw [hy, compare_eq_iff_eq.1 h]⟩
  · rintro ⟨r, hx, hy⟩
    exact ⟨r, r, hx, hy, compare_eq_iff_eq.2 rfl⟩

theorem same_iff_alike {a b : Value} : a.same b = true ↔ Alike a b := by
  constructor
  · intro h
    -- Two values of different kinds are not the same.
    cases a <;> cases b <;> try contradiction
    case number.number =>
      obtain ⟨r, hx, hy⟩ := same_number_iff.1 h
      exact .numbers hx hy
    case list.list => exact .lists (sameAll_iff.1 (by rwa [same] at h))
    case null.null => exact .equal (by simp [kind]) (by simp [kind])
    all_goals
      simp only [same, beq_iff_eq] at h
      subst h
      exact .equal (by simp [kind]) (by simp [kind])
  · rintro (⟨hnumber, hlist⟩ | ⟨hx, hy⟩ | h)
    · cases a <;> simp_all [same, kind]
    · exact same_number_iff.2 ⟨_, hx, hy⟩
    · rw [same, sameAll_iff]
      exact h

theorem Alike.kind_eq {a b : Value} (h : Alike a b) : a.kind = b.kind := by
  cases h <;> rfl

theorem same_symm {a b : Value} (h : a.same b = true) : b.same a = true := by
  induction a using nested_induction generalizing b with
  | plain a ha =>
    rw [same_iff_alike] at h ⊢
    cases h with
    | equal hnumber hlist => exact .equal hnumber hlist
    | numbers hx hy => exact .numbers hy hx
    | lists => exact absurd rfl ha
  | list xs ih =>
    rw [same_iff_alike] at h ⊢
    cases h with
    | equal _ hlist => exact absurd rfl hlist
    | @lists _ ys h =>
      have hmem := (List.forall₂_and_left xs ys).2 ⟨fun _ hx => hx, h⟩
      have hback : List.Forall₂ (flip fun y x => y.same x = true) xs ys :=
        hmem.imp fun x _ hx => ih x hx.1 hx.2
      exact .lists hback.flip

theorem forall₂_comp {α : Type} {R : α → α → Prop} {xs ys zs : List α}
    (hR : ∀ x ∈ xs, ∀ y z, R x y → R y z → R x z) (h : List.Forall₂ R xs ys)
    (h' : List.Forall₂ R ys zs) : List.Forall₂ R xs zs := by
  induction h generalizing zs with
  | nil => exact h'
  | cons hxy _ ih =>
    cases h' with
    | cons hyz h' =>
      exact .cons (hR _ List.mem_cons_self _ _ hxy hyz)
        (ih (fun x hx => hR x (List.mem_cons_of_mem _ hx)) h')

theorem same_trans {a b c : Value} (h : a.same b = true) (h' : b.same c = true) :
    a.same c = true := by
  induction a using nested_induction generalizing b c with
  | plain a ha =>
    rw [same_iff_alike] at h h' ⊢
    cases h with
    | equal => exact h'
    | numbers hx hy =>
      cases h' with
      | equal hnumber => exact absurd rfl hnumber
      | numbers hy' hz => exact .numbers hx (by rw [hz, ← hy', hy])
    | lists => exact absurd rfl ha
  | list xs ih =>
    rw [same_iff_alike] at h h' ⊢
    cases h with
    | equal _ hlist => exact absurd rfl hlist
    | lists h =>
      cases h' with
      | equal _ hlist => exact absurd rfl hlist
      | lists h' =>
        exact .lists (forall₂_comp (fun x hx _ _ => ih x hx) h h')

theorem same_self_iff {a : Value} : a.same a = true ↔ ¬ a.HoldsNaN := by
  induction a using nested_induction with
  | plain a ha =>
    cases a with
    | number x =>
      have hnan : HoldsNaN (.number x) ↔ rank? x = none := by
        rw [← Decimal.isNaN_iff]
        exact ⟨fun | .number h => h, .number⟩
      rw [same_number_iff, hnan, ← ne_eq, Option.ne_none_iff_exists']
      simp only [and_self]
    | list => exact absurd rfl ha
    | _ => exact iff_of_true (by simp [same]) (by rintro ⟨⟩)
  | list xs ih =>
    have hlist : HoldsNaN (.list xs) ↔ ∃ v ∈ xs, HoldsNaN v :=
      ⟨fun | .list hv h => ⟨_, hv, h⟩, fun ⟨_, hv, h⟩ => .list hv h⟩
    rw [same, sameAll_iff, List.forall₂_same, hlist, not_exists]
    refine forall_congr' fun v => ?_
    rw [not_and]
    exact forall_congr' fun hv => ih v hv

/-! Order. -/

inductive Compares (o : Ordering) : Value → Value → Prop
  | numbers {x y : Float} {r s : Rank} : rank? x = some r → rank? y = some s → Ord.compare r s = o →
      Compares o (.number x) (.number y)
  | texts {s t : String} : Ord.compare s t = o → Compares o (.text s) (.text t)
  | bools {p q : Bool} : Ord.compare p q = o → Compares o (.bool p) (.bool q)

theorem compare_eq_some_iff {a b : Value} {o : Ordering} :
    a.compare b = some o ↔ Compares o a b := by
  constructor
  · intro h
    cases a <;> cases b <;> try contradiction
    case number.number x y =>
      rw [compare, Decimal.compareNumbers_eq, Decimal.compareRanks_eq_some] at h
      obtain ⟨r, s, hx, hy, h⟩ := h
      exact .numbers hx hy h
    case text.text => exact .texts (Option.some.inj h)
    case bool.bool => exact .bools (Option.some.inj h)
  · rintro (⟨hx, hy, h⟩ | h | h)
    · rw [compare, Decimal.compareNumbers_eq, hx, hy]
      exact congrArg some h
    · exact congrArg some h
    · exact congrArg some h

theorem Compares.swap {a b : Value} {o : Ordering} (h : Compares o a b) : Compares o.swap b a := by
  cases h with
  | numbers hx hy h => exact .numbers hy hx (by rw [Std.OrientedOrd.eq_swap, h])
  | texts h => exact .texts (by rw [Std.OrientedOrd.eq_swap, h])
  | bools h => exact .bools (by rw [Std.OrientedOrd.eq_swap, h])

theorem Compares.lt_trans {a b c : Value} (h : Compares .lt a b) (h' : Compares .lt b c) :
    Compares .lt a c := by
  cases h with
  | numbers hx hy h =>
    cases h' with
    | numbers hy' hz h' =>
      cases hy.symm.trans hy'
      exact .numbers hx hz (Std.TransCmp.lt_trans h h')
  | texts h =>
    cases h' with
    | texts h' => exact .texts (Std.TransCmp.lt_trans h h')
  | bools h =>
    cases h' with
    | bools h' => exact .bools (Std.TransCmp.lt_trans h h')

theorem compare_swap (a b : Value) : b.compare a = (a.compare b).map Ordering.swap := by
  refine Option.ext fun o => ?_
  rw [compare_eq_some_iff, Option.map_eq_some_iff]
  constructor
  · intro h
    exact ⟨o.swap, compare_eq_some_iff.2 h.swap, Ordering.swap_swap⟩
  · rintro ⟨o, h, rfl⟩
    exact (compare_eq_some_iff.1 h).swap

theorem comparable_iff {a b : Value} : Comparable a b ↔ ∃ o, a.compare b = some o := by
  have hrank {x : Float} : x.isNaN = false ↔ ∃ r, rank? x = some r := by
    rw [← Bool.not_eq_true, Decimal.isNaN_iff, ← ne_eq, Option.ne_none_iff_exists']
  simp only [compare_eq_some_iff]
  constructor
  · rintro (⟨hx, hy⟩ | _ | _)
    · obtain ⟨r, hx⟩ := hrank.1 hx
      obtain ⟨s, hy⟩ := hrank.1 hy
      exact ⟨_, .numbers hx hy rfl⟩
    · exact ⟨_, .texts rfl⟩
    · exact ⟨_, .bools rfl⟩
  · rintro ⟨o, ⟨hx, hy, _⟩ | _ | _⟩
    · exact .numbers (hrank.2 ⟨_, hx⟩) (hrank.2 ⟨_, hy⟩)
    · exact .texts _ _
    · exact .bools _ _

theorem Compares.eq_iff_same {a b : Value} {o : Ordering} (h : Compares o a b) :
    o = .eq ↔ a.same b = true := by
  cases h with
  | numbers hx hy h =>
    rw [same_number_iff, ← h, compare_eq_iff_eq]
    constructor
    · rintro rfl
      exact ⟨_, hx, hy⟩
    · rintro ⟨t, hx', hy'⟩
      rw [hx, Option.some_inj] at hx'
      rw [hy, Option.some_inj] at hy'
      rw [hx', hy']
  | texts h => rw [same, beq_iff_eq, ← h, Std.LawfulEqOrd.compare_eq_iff_eq]
  | bools h => rw [same, beq_iff_eq, ← h, Std.LawfulEqOrd.compare_eq_iff_eq]

/-! Operators. -/

section
variable {objects : Objects} {op : BinaryOp} {test : Ordering → Bool} {a b : Value}

theorem ordered_of_compares {o : Ordering} (h : Compares o a b) :
    ordered objects op test a b = .ok (.bool (test o)) := by
  rw [ordered, compare_eq_some_iff.2 h]

theorem ordered_fails_iff :
    (∃ fault, ordered objects op test a b = .error fault) ↔ ¬ Comparable a b := by
  rw [comparable_iff, ordered]
  cases a.compare b <;> simp [unsupported]

end

/-- Equality is symmetric, transitive, reflexive without the undefined number, and inside one kind.
Comparing turns around with its operands and is transitive, and it finds two values equal exactly if
they are comparable and the same. The operators fail together, and agree where they do not. -/
theorem same_compare_coherent (objects : Objects) (a b c : Value) :
    (a.same b = true → b.same a = true) ∧
    (a.same b = true → b.same c = true → a.same c = true) ∧
    (a.same a = true ↔ ¬ a.HoldsNaN) ∧
    (a.same b = true → a.kind = b.kind) ∧
    b.compare a = (a.compare b).map Ordering.swap ∧
    (a.compare b = some .eq → a.same b = true) ∧
    (Comparable a b → a.same b = true → a.compare b = some .eq) ∧
    (a.compare b = some .lt → b.compare c = some .lt → a.compare c = some .lt) ∧
    (Comparable a b → ∃ before equal : Bool,
      a.combine objects .lt b = .ok (.bool before) ∧ a.combine objects .eq b = .ok (.bool equal) ∧
      a.combine objects .le b = .ok (.bool (before || equal)) ∧
      a.combine objects .gt b = b.combine objects .lt a) ∧
    ∀ op ∈ [BinaryOp.lt, .gt, .le, .ge],
      (∃ fault, a.combine objects op b = .error fault) ↔ ¬ Comparable a b := by
  refine ⟨same_symm, same_trans, same_self_iff, fun h => (same_iff_alike.1 h).kind_eq,
    compare_swap a b, ?_, ?_, ?_, ?_, ?_⟩
  · intro h
    exact (compare_eq_some_iff.1 h).eq_iff_same.1 rfl
  · intro hab h
    obtain ⟨o, ho⟩ := comparable_iff.1 hab
    rw [ho, (compare_eq_some_iff.1 ho).eq_iff_same.2 h]
  · intro h h'
    exact compare_eq_some_iff.2 ((compare_eq_some_iff.1 h).lt_trans (compare_eq_some_iff.1 h'))
  · intro hab
    obtain ⟨o, ho⟩ := comparable_iff.1 hab
    have ho := compare_eq_some_iff.1 ho
    refine ⟨o.isLT, a.same b, ordered_of_compares ho, rfl, ?_, ?_⟩
    · have hle : o.isLE = (o.isLT || a.same b) := by
        rw [Bool.eq_iff_iff, Bool.or_eq_true, ← ho.eq_iff_same]
        cases o <;> decide
      rw [← hle]
      exact ordered_of_compares ho
    · have hgt : o.isGT = o.swap.isLT := by cases o <;> rfl
      calc a.combine objects .gt b = .ok (.bool o.isGT) := ordered_of_compares ho
        _ = .ok (.bool o.swap.isLT) := by rw [hgt]
        _ = b.combine objects .lt a := (ordered_of_compares ho.swap).symm
  · intro op hop
    simp only [List.mem_cons, List.not_mem_nil, or_false] at hop
    obtain rfl | rfl | rfl | rfl := hop <;> exact ordered_fails_iff

theorem same_compare_coherent_zeros :
    (Value.list [.number 0.0, .text "a"]).same (.list [.number (-0.0), .text "a"]) = true ∧
      (Value.list [.number (-0.0), .text "a"]).same (.list [.number 0.0, .text "a"]) = true := by
  have h : (Value.list [.number 0.0, .text "a"]).same (.list [.number (-0.0), .text "a"]) = true := by
    decide
  exact ⟨h, (same_compare_coherent #[] _ _ .null).1 h⟩

end Parlance.Value
