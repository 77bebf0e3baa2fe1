import Parlance.Proofs.Engine.Lockstep

/-! What every run keeps. A run, whether it ends with a value or early, is made of acts; so what each
permitted act keeps, every permitted run keeps. -/

namespace Parlance

structure Permit.Keeps (p : Permit) (I : Engine → Prop) : Prop where
  act : ∀ {e : Engine} {act : Act}, I e → e.Within p → act.Permitted p e.scopes.size →
    I (act.apply e)
  fresh : ∀ {e : Engine}, I e → p.runs (e.scopes.size + 1) e.scopes.size

section Keeping
variable {p : Permit} {I : Engine → Prop} {e : Engine}

theorem Permit.Keeps.bond (h : p.Keeps I) : p.Bond fun e e' => e' = e ∧ I e where
  rest hR := by rw [hR.1]
  size hR := by rw [hR.1]
  lookup hR _ _ := by rw [hR.1]
  act := by
    rintro e _ act ⟨rfl, he⟩ hw hact
    exact ⟨rfl, h.act he hw hact⟩
  fresh hR := h.fresh hR.2

theorem Run.script_keeps (h : p.Keeps I) (he : I e) (hw : e.Within p) (allowance : Nat) (s : Script)
    {scope : ScopeId} (hs : p.runs e.scopes.size scope) : I (Run.script allowance s scope e).2 :=
  (script_lockstep h.bond allowance s hs e e ⟨rfl, he⟩ hw (Nat.le_refl _)).related.2

end Keeping

inductive Engine.Reaches (e : Engine) : Engine → Prop
  | refl : Reaches e e
  | step {e₁ : Engine} (act : Act) : Reaches e e₁ → Reaches e (act.apply e₁)

namespace Engine.Reaches
variable {e e₁ e' : Engine}

theorem size_le (h : e.Reaches e') : e.scopes.size ≤ e'.scopes.size := by
  induction h with
  | refl => exact Nat.le_refl _
  | step act _ ih => exact Nat.le_trans ih (act.size_le _)

theorem book_eq (h : e.Reaches e') : e'.book = e.book := by
  induction h with
  | refl => rfl
  | @step e₁ act _ ih =>
    obtain ⟨objects, entries, scriptCount, drawn, ha⟩ := act.apply_eq e₁
    rw [ha, ← ih]

theorem keeps (e : Engine) : Permit.all.Keeps e.Reaches where
  act h _ _ := .step _ h
  fresh _ := trivial

end Engine.Reaches

namespace Run
variable {α : Type}

def Changes (m : Run α) : Prop := ∀ e : Engine, e.Reaches (m e).2

theorem execSource_changes (allowance : Nat) (scope : ScopeId) (nodes : List Node) :
    Changes (execSource allowance (Parlance.serve allowance) scope nodes) := by
  intro e
  have hb := (Engine.Reaches.keeps e).bond
  exact (execSource_lockstep hb (serve_lockstep hb allowance) (n := 0) trivial nodes e e ⟨rfl, .refl⟩
    e.within_all (Nat.zero_le _)).related.2

end Run
end Parlance
