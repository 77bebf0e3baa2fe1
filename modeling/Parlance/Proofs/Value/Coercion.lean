import Parlance.Proofs.Value.Coherence

/-! The built-in types. Converting to one of them is a projection onto its kind of values, and what the
type of numbers accepts is what arithmetic accepts, as the same number. -/

namespace Parlance
open Value (Kind)

/-- The kind of values that a built-in type is for; `object` takes anything. -/
def TypeDef.ownKind? (t : TypeDef) : Option Kind :=
  match t.name with
  | "number" => some .number
  | "text" => some .text
  | "boolean" => some .bool
  | "list" => some .list
  | _ => none

namespace Coercion

/-- Values of the kind are left alone, and only they come out. -/
structure ProjectsOnto (c : Coercion) (k : Kind) : Prop where
  keeps : ∀ objects v, v.kind = k → c objects v = .ok v
  lands : ∀ objects v w, c objects v = .ok w → w.kind = k

theorem number_projects : ProjectsOnto number .number where
  keeps objects v hv := by
    cases v <;> cases hv
    rfl
  lands objects v w h := by
    cases v with
    | number x => cases h; rfl
    | bool b => cases h; rfl
    | text s =>
      simp only [number] at h
      split at h <;> cases h
      rfl
    | _ => cases h

theorem text_projects : ProjectsOnto text .text where
  keeps objects v hv := by
    cases v <;> cases hv
    rfl
  lands objects v w h := by
    cases v <;> cases h <;> rfl

theorem boolean_projects : ProjectsOnto boolean .bool where
  keeps objects v hv := by
    cases v <;> cases hv
    rfl
  lands objects v w h := by
    cases v with
    | number x => cases h; rfl
    | bool b => cases h; rfl
    | text s =>
      simp only [boolean] at h
      split at h
      · cases h; rfl
      · split at h <;> cases h
        rfl
    | _ => cases h

theorem list_projects : ProjectsOnto list .list where
  keeps objects v hv := by
    cases v <;> cases hv
    rfl
  lands objects v w h := by
    cases v <;> cases h
    rfl

end Coercion

theorem TypeDef.builtin_cases {t : TypeDef} (ht : t ∈ builtin) :
    t.coercion = .any ∧ t.ownKind? = none ∨
      ∃ k, t.coercion.ProjectsOnto k ∧ t.ownKind? = some k := by
  simp only [builtin, List.mem_cons, List.not_mem_nil, or_false] at ht
  obtain rfl | rfl | rfl | rfl | rfl := ht
  · exact .inl ⟨rfl, rfl⟩
  · exact .inr ⟨_, Coercion.number_projects, rfl⟩
  · exact .inr ⟨_, Coercion.text_projects, rfl⟩
  · exact .inr ⟨_, Coercion.boolean_projects, rfl⟩
  · exact .inr ⟨_, Coercion.list_projects, rfl⟩

theorem TypeDef.builtin_number {t : TypeDef} (ht : t ∈ builtin) (hname : t.name = "number") :
    t.coercion = .number := by
  simp only [builtin, List.mem_cons, List.not_mem_nil, or_false] at ht
  obtain rfl | rfl | rfl | rfl | rfl := ht <;> first | rfl | exact absurd hname (by decide)

theorem TypeDef.coerce_of_kind_ne {t : TypeDef} {objects : Objects} {v : Value}
    (hv : v.kind ≠ .null) : t.coerce objects v = t.coercion objects v := by
  cases v <;> first | exact absurd rfl hv | rfl

theorem TypeDef.coerce_any {t : TypeDef} (ht : t.coercion = .any) (objects : Objects) (v : Value) :
    t.coerce objects v = .ok v := by
  cases v <;> simp [coerce, Value.isNull, ht, Coercion.any]

theorem Value.eq_null_of_kind {v : Value} (h : v.kind = .null) : v = .null := by
  cases v <;> cases h
  rfl

theorem TypeDef.coerce_projects {t : TypeDef} {k : Kind} (ht : t.coercion.ProjectsOnto k)
    {objects : Objects} {v w : Value} (h : t.coerce objects v = .ok w) :
    (w = .null ∨ w.kind = k) ∧ t.coerce objects w = .ok w ∧ (v.kind = k → w = v) := by
  by_cases hv : v.kind = .null
  · cases Value.eq_null_of_kind hv
    cases h
    exact ⟨.inl rfl, rfl, fun _ => rfl⟩
  · rw [coerce_of_kind_ne hv] at h
    have hw : w.kind = k := ht.lands _ _ _ h
    have hagain : t.coerce objects w = .ok w := by
      by_cases hnull : w.kind = .null
      · cases Value.eq_null_of_kind hnull
        rfl
      · rw [coerce_of_kind_ne hnull]
        exact ht.keeps _ _ hw
    refine ⟨.inr hw, hagain, fun hk => ?_⟩
    rw [ht.keeps _ _ hk] at h
    exact (Except.ok.inj h).symm

/-- Arithmetic and the type of numbers have conversions of their own. -/
theorem Coercion.number_eq_ok_iff {objects : Objects} {v w : Value} (hv : v.kind ≠ .null) :
    number objects v = .ok w ↔ ∃ n, w = .number n ∧ v.toNumber = some n := by
  cases v with
  | null => exact absurd rfl hv
  | text s =>
    simp only [number, Value.toNumber]
    cases Value.readText s <;> simp [Except.toOption, eq_comm]
  | number x => simp [number, Value.toNumber, eq_comm]
  | bool b => simp [number, Value.toNumber, eq_comm]
  | list items => simp [number, Value.toNumber]
  | object id => simp [number, Value.toNumber]

namespace Value

def arithmetic? : BinaryOp → Option (Float → Float → Float)
  | .sub => some (· - ·)
  | .mul => some (· * ·)
  | .div => some (· / ·)
  | .mod => some Decimal.remainder
  | _ => none

section
variable {objects : Objects} {op : BinaryOp} {f : Float → Float → Float}
  (hop : arithmetic? op = some f)
include hop

theorem combine_eq_ok_iff {a b r : Value} :
    a.combine objects op b = .ok r ↔
      ∃ x y, a.toNumber = some x ∧ b.toNumber = some y ∧ r = .number (f x y) := by
  have hnumeric : a.combine objects op b = numeric objects op f a b := by
    cases op <;> cases hop <;> rfl
  rw [hnumeric, numeric]
  cases a.toNumber <;> cases b.toNumber <;> simp [unsupported, eq_comm]

theorem combine_ok_congr {a a' b b' r : Value} (ha : a.toNumber = a'.toNumber)
    (hb : b.toNumber = b'.toNumber) :
    a.combine objects op b = .ok r ↔ a'.combine objects op b' = .ok r := by
  rw [combine_eq_ok_iff hop, combine_eq_ok_iff hop, ha, hb]

theorem left_operand_iff {v : Value} :
    (∃ b r, v.combine objects op b = .ok r) ↔ ∃ n, v.toNumber = some n := by
  constructor
  · rintro ⟨b, r, h⟩
    obtain ⟨x, _, hx, _⟩ := (combine_eq_ok_iff hop).1 h
    exact ⟨x, hx⟩
  · rintro ⟨n, hn⟩
    exact ⟨.null, _, (combine_eq_ok_iff hop).2 ⟨n, _, hn, rfl, rfl⟩⟩

theorem right_operand_iff {v : Value} :
    (∃ b r, Value.combine objects op b v = .ok r) ↔ ∃ n, v.toNumber = some n := by
  constructor
  · rintro ⟨b, r, h⟩
    obtain ⟨_, y, _, hy, _⟩ := (combine_eq_ok_iff hop).1 h
    exact ⟨y, hy⟩
  · rintro ⟨n, hn⟩
    exact ⟨.null, _, (combine_eq_ok_iff hop).2 ⟨_, n, rfl, hn, rfl⟩⟩

end

end Value

/-- An accepted value becomes null or a value of the type's own kind, on which the type has no further
effect. What is not null is a number for the type of numbers exactly if it is one for arithmetic, and
then the operators cannot tell the two apart. -/
theorem builtin_coercions_agree (objects : Objects) (v : Value) :
    (∀ t ∈ TypeDef.builtin, ∀ w, t.coerce objects v = .ok w →
      (w = .null ∨ ∀ k ∈ t.ownKind?, w.kind = k) ∧ t.coerce objects w = .ok w ∧
        ∀ k ∈ t.ownKind?, v.kind = k → w = v) ∧
    (v ≠ .null → ∀ t ∈ TypeDef.builtin, t.name = "number" →
      (∀ n, t.coerce objects v = .ok (.number n) ↔ v.toNumber = some n) ∧
      ∀ op ∈ [BinaryOp.sub, .mul, .div, .mod],
        ((∃ w, t.coerce objects v = .ok w) ↔ ∃ b r, v.combine objects op b = .ok r) ∧
        ((∃ w, t.coerce objects v = .ok w) ↔ ∃ b r, Value.combine objects op b v = .ok r) ∧
        ∀ w, t.coerce objects v = .ok w → ∀ b r,
          (v.combine objects op b = .ok r ↔ w.combine objects op b = .ok r) ∧
          (b.combine objects op v = .ok r ↔ b.combine objects op w = .ok r)) := by
  constructor
  · intro t ht w h
    obtain ⟨hany, hkind⟩ | ⟨k, hk, hkind⟩ := TypeDef.builtin_cases ht
    · rw [TypeDef.coerce_any hany, Except.ok.injEq] at h
      subst h
      simp [hkind, TypeDef.coerce_any hany]
    · obtain ⟨hw, hagain, hkeep⟩ := TypeDef.coerce_projects hk h
      simp only [hkind, Option.mem_some, forall_eq']
      exact ⟨hw, hagain, hkeep⟩
  · intro hv t ht hname
    have hkind : v.kind ≠ .null := fun h => hv (Value.eq_null_of_kind h)
    have hcoerce (w : Value) :
        t.coerce objects v = .ok w ↔ ∃ n, w = .number n ∧ v.toNumber = some n := by
      rw [TypeDef.coerce_of_kind_ne hkind, TypeDef.builtin_number ht hname]
      exact Coercion.number_eq_ok_iff hkind
    have haccepts : (∃ w, t.coerce objects v = .ok w) ↔ ∃ n, v.toNumber = some n := by
      simp only [hcoerce]
      exact ⟨fun ⟨_, n, _, hn⟩ => ⟨n, hn⟩, fun ⟨n, hn⟩ => ⟨_, n, rfl, hn⟩⟩
    refine ⟨fun n => by simp [hcoerce], fun op hop => ?_⟩
    obtain ⟨f, hf⟩ : ∃ f, Value.arithmetic? op = some f := by
      simp only [List.mem_cons, List.not_mem_nil, or_false] at hop
      obtain rfl | rfl | rfl | rfl := hop <;> exact ⟨_, rfl⟩
    refine ⟨haccepts.trans (Value.left_operand_iff hf).symm,
      haccepts.trans (Value.right_operand_iff hf).symm, fun w hw b r => ?_⟩
    obtain ⟨n, rfl, hn⟩ := (hcoerce w).1 hw
    exact ⟨Value.combine_ok_congr hf hn rfl, Value.combine_ok_congr hf rfl hn⟩

theorem builtin_coercions_agree_padded :
    TypeDef.coerce ⟨"number", .number⟩ #[] (.text " 2 ") = .ok (.number 2.0) ∧
      (Value.text " 2 ").toNumber = some 2.0 := by
  have h : TypeDef.coerce ⟨"number", .number⟩ #[] (.text " 2 ") = .ok (.number 2.0) := rfl
  have hagree := (builtin_coercions_agree #[] (.text " 2 ")).2 (by simp) ⟨"number", .number⟩
    (by simp [TypeDef.builtin]) rfl
  exact ⟨h, (hagree.1 2.0).1 h⟩

end Parlance
