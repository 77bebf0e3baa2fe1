import Parlance.Script.Grammar

/-! What it means that a reader has succeeded: each reader is taken apart into the readers that it
is made of, and each of these says which tokens it took. -/

namespace Parlance.Grammar
open Token (Kind)
variable {α β : Type} {ts rest : List Token}

theorem bind_eq_ok {p : Parser α} {f : α → Parser β} {b : β} :
    (p >>= f) ts = .ok (b, rest) ↔ ∃ a mid, p ts = .ok (a, mid) ∧ f a mid = .ok (b, rest) := by
  change Except.bind (p ts) (fun r => f r.1 r.2) = .ok (b, rest) ↔ _
  cases h : p ts with
  | error e => simp [Except.bind]
  | ok r =>
    obtain ⟨a, mid⟩ := r
    constructor
    · intro hf
      exact ⟨a, mid, rfl, hf⟩
    · rintro ⟨a', mid', he, hf⟩
      cases he
      exact hf

theorem bind_apply {p : Parser α} {f : α → Parser β} {a : α} {mid : List Token}
    (h : p ts = .ok (a, mid)) : (p >>= f) ts = f a mid := by
  change Except.bind (p ts) (fun r => f r.1 r.2) = _
  rw [h]
  rfl

theorem pure_eq_ok {a b : α} : (pure a : Parser α) ts = .ok (b, rest) ↔ a = b ∧ ts = rest := by
  change Except.ok (a, ts) = .ok (b, rest) ↔ _
  simp

theorem get_eq_ok {us : List Token} : (get : Parser (List Token)) ts = .ok (us, rest) ↔
    ts = us ∧ ts = rest := by
  change Except.ok (ts, ts) = .ok (us, rest) ↔ _
  simp

theorem nextIs_iff {kind : Kind} : nextIs kind ts = true ↔ ∃ t us, ts = t :: us ∧ t.kind = kind := by
  cases ts with
  | nil => simp [nextIs]
  | cons t us => simp [nextIs]

theorem accept_eq_ok {kind : Kind} {b : Bool} : accept kind ts = .ok (b, rest) ↔
    b = true ∧ (∃ t, ts = t :: rest ∧ t.kind = kind) ∨ b = false ∧ nextIs kind ts = false ∧ ts = rest := by
  cases ts with
  | nil => cases b <;> simp [accept, nextIs]
  | cons t us => by_cases h : t.kind = kind <;> cases b <;> simp [accept, nextIs, h, and_assoc]

theorem expect_eq_ok {kind : Kind} {what : String} {t : Token} :
    expect kind what ts = .ok (t, rest) ↔ ts = t :: rest ∧ t.kind = kind := by
  cases ts with
  | nil => simp [expect]
  | cons u us =>
    simp only [expect]
    split
    · next h =>
      simp only [Except.ok.injEq, Prod.mk.injEq, List.cons.injEq]
      exact ⟨fun ⟨ht, hr⟩ => ⟨⟨ht, hr⟩, ht ▸ h⟩, fun ⟨hu, _⟩ => hu⟩
    · next h =>
      have hne : ¬(u :: us = t :: rest ∧ t.kind = kind) := by
        rintro ⟨hu, ht⟩
        simp only [List.cons.injEq] at hu
        exact h (hu.1 ▸ ht)
      split <;> simp only [hne, reduceCtorEq]

theorem expectDelimiter_eq_ok {d : Delimiter} {u : Unit} :
    expectDelimiter d ts = .ok (u, rest) ↔ ∃ t, ts = t :: rest ∧ t.kind = .delimiter d := by
  simp only [expectDelimiter, bind_eq_ok, expect_eq_ok, pure_eq_ok]
  constructor
  · rintro ⟨t, mid, ⟨ht, hk⟩, -, rfl⟩
    exact ⟨t, ht, hk⟩
  · rintro ⟨t, ht, hk⟩
    exact ⟨t, rest, ⟨ht, hk⟩, trivial, rfl⟩

theorem expectName_eq_ok {what name : String} :
    expectName what ts = .ok (name, rest) ↔
      ∃ t, ts = t :: rest ∧ t.kind = .identifier ∧ t.text = name := by
  simp only [expectName, bind_eq_ok, expect_eq_ok, pure_eq_ok]
  constructor
  · rintro ⟨t, mid, ⟨ht, hk⟩, hn, rfl⟩
    exact ⟨t, ht, hk, hn⟩
  · rintro ⟨t, ht, hk, hn⟩
    exact ⟨t, rest, ⟨ht, hk⟩, hn, rfl⟩

end Parlance.Grammar
