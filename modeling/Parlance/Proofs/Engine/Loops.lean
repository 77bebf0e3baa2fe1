import Parlance.Proofs.Engine.Sequel

/-! The two kinds of loops. A `for` loop runs like a `while` loop whose body ends with the step: they
test, run and advance in the same order, and whatever ends an early lap ends both in the same way. Only
what comes of them in the ordinary way differs, since a `for` loop does not count the value of its
step. -/

namespace Parlance

namespace Run

/-- Both runs end in the same engine, and by the same fault, by the same `return`, or in the ordinary
way. -/
inductive EndsAlike : Except Halt Flow × Engine → Except Halt Flow × Engine → Prop
  | halted (h : Halt) (e : Engine) : EndsAlike (.error h, e) (.error h, e)
  | returned (v : Value) (e : Engine) : EndsAlike (.ok (.returned v), e) (.ok (.returned v), e)
  | completed (v w : Value) (e : Engine) : EndsAlike (.ok (.completed v), e) (.ok (.completed w), e)

/-- The loop runs to its end, and the laps have these values. -/
inductive Rounds (test : Run Value) (body : Run Flow) (advance : Run Unit) :
    List Value → Engine → Engine → Prop
  | done {t : Value} {e e' : Engine} : test e = (.ok t, e') → t.truthy = false →
      Rounds test body advance [] e e'
  | more {t v : Value} {vs : List Value} {e e₁ e₂ e₃ e' : Engine} : test e = (.ok t, e₁) →
      t.truthy = true → body e₁ = (.ok (.completed v), e₂) → advance e₂ = (.ok (), e₃) →
      Rounds test body advance vs e₃ e' → Rounds test body advance (v :: vs) e e'

theorem loop_eq_completed_iff {test : Run Value} {body : Run Flow} {advance : Run Unit} {n : Nat}
    {last v : Value} {e e' : Engine} :
    loop test body advance n last e = (.ok (.completed v), e') ↔
      ∃ vs, Rounds test body advance vs e e' ∧ vs.length < n ∧ vs.getLast?.getD last = v := by
  constructor
  · intro h
    induction n generalizing last e with
    | zero => cases h
    | succ n ih =>
      simp only [loop] at h
      obtain ⟨t, e₁, ht, h⟩ := bind_eq_ok.1 h
      split at h
      · next htt =>
        obtain ⟨flow, e₂, hb, h⟩ := bind_eq_ok.1 h
        cases flow with
        | completed w =>
          obtain ⟨_, e₃, ha, h⟩ := bind_eq_ok.1 h
          obtain ⟨vs, hr, hlt, hv⟩ := ih h
          refine ⟨w :: vs, .more ht htt hb ha hr, Nat.succ_lt_succ hlt, ?_⟩
          rwa [List.getLast?_cons, Option.getD_some]
        | returned w => cases h
      · next htt =>
        obtain ⟨hv, rfl⟩ := pure_eq_ok.1 h
        cases hv
        exact ⟨[], .done ht (Bool.eq_false_iff.2 htt), Nat.zero_lt_succ n, rfl⟩
  · rintro ⟨vs, hr, hlt, rfl⟩
    induction hr generalizing n last with
    | done ht htt =>
      obtain ⟨n, rfl⟩ := Nat.exists_eq_succ_of_ne_zero (Nat.ne_of_gt hlt)
      simp only [loop]
      refine bind_eq_ok.2 ⟨_, _, ht, ?_⟩
      rw [if_neg (Bool.eq_false_iff.1 htt)]
      rfl
    | @more t v vs _ _ _ _ _ ht htt hb ha _ ih =>
      obtain ⟨n, rfl⟩ := Nat.exists_eq_succ_of_ne_zero (Nat.ne_of_gt (Nat.zero_lt_of_lt hlt))
      simp only [loop]
      refine bind_eq_ok.2 ⟨_, _, ht, ?_⟩
      rw [if_pos htt]
      refine bind_eq_ok.2 ⟨_, _, hb, bind_eq_ok.2 ⟨_, _, ha, ?_⟩⟩
      rw [List.getLast?_cons, Option.getD_some]
      exact ih (Nat.lt_of_succ_lt_succ hlt)

section
variable {laps : Nat} {serve : Call → Run Value} {scope : ScopeId}

theorem execAll_singleton (node : Node) (last : Value) (e : Engine) :
    execAll laps serve scope [node] last e = exec laps serve scope node e := by
  show (exec laps serve scope node >>= _) e = _
  rw [bind_apply]
  rcases exec laps serve scope node e with ⟨h | (v | v), e₁⟩ <;> rfl

theorem execAll_cons_of_completed {node : Node} {nodes : List Node} {last v : Value} {e e₁ : Engine}
    (h : exec laps serve scope node e = (.ok (.completed v), e₁)) :
    execAll laps serve scope (node :: nodes) last e = execAll laps serve scope nodes v e₁ :=
  bind_ok_apply h

theorem execAll_cons_of_halted {node : Node} {nodes : List Node} {last : Value} {halt : Halt} {e e₁ : Engine}
    (h : exec laps serve scope node e = (.error halt, e₁)) :
    execAll laps serve scope (node :: nodes) last e = (.error halt, e₁) := bind_error_apply h

theorem test_of_halted {node : Node} {halt : Halt} {e e₁ : Engine}
    (h : exec laps serve scope node e = (.error halt, e₁)) :
    test laps serve scope node e = (.error halt, e₁) := by
  rw [test, map_eq_pure_bind]
  exact bind_error_apply h

theorem execAll_body_step {body step : Node} (hstep : Completes (exec laps serve scope step))
    (last : Value) (e : Engine) :
    (∃ h e', exec laps serve scope body e = (.error h, e') ∧
      execAll laps serve scope [body, step] last e = (.error h, e')) ∨
    (∃ v e', exec laps serve scope body e = (.ok (.returned v), e') ∧
      execAll laps serve scope [body, step] last e = (.ok (.returned v), e')) ∨
    ∃ v e₁, exec laps serve scope body e = (.ok (.completed v), e₁) ∧
      ((∃ h e', advance laps serve scope step e₁ = (.error h, e') ∧
        execAll laps serve scope [body, step] last e = (.error h, e')) ∨
      ∃ w e', advance laps serve scope step e₁ = (.ok (), e') ∧
        execAll laps serve scope [body, step] last e = (.ok (.completed w), e')) := by
  rcases hb : exec laps serve scope body e with ⟨h | (v | v), e₁⟩
  · exact .inl ⟨h, e₁, rfl, execAll_cons_of_halted hb⟩
  · refine .inr (.inr ⟨v, e₁, rfl, ?_⟩)
    rw [execAll_cons_of_completed hb, execAll_singleton]
    rcases hs : exec laps serve scope step e₁ with ⟨h | flow, e₂⟩
    · exact .inl ⟨h, e₂, bind_error_apply (test_of_halted hs), rfl⟩
    · obtain ⟨w, rfl⟩ := hstep _ _ _ hs
      exact .inr ⟨w, e₂, bind_ok_apply (test_eq_ok.2 ⟨_, hs, rfl⟩), rfl⟩
  · exact .inr (.inl ⟨v, e₁, rfl, bind_ok_apply hb⟩)

theorem loop_endsAlike {body step : Node} (hstep : Completes (exec laps serve scope step))
    (test : Run Value) (n : Nat) (last last' : Value) (e : Engine) :
    EndsAlike (loop test (exec laps serve scope body) (advance laps serve scope step) n last e)
      (loop test (exec laps serve scope (.block [body, step])) (pure ()) n last' e) := by
  have hblock : exec laps serve scope (.block [body, step]) =
      execAll laps serve scope [body, step] .null := rfl
  rw [hblock]
  induction n generalizing last last' e with
  | zero => exact .halted .exhausted e
  | succ n ih =>
    simp only [loop]
    rw [bind_apply, bind_apply]
    rcases test e with ⟨h | t, e₁⟩
    · exact .halted h e₁
    · dsimp only
      by_cases htt : t.truthy = true
      · rw [if_pos htt, if_pos htt]
        rcases execAll_body_step hstep .null e₁ with ⟨h, e₂, hb, hbs⟩ | ⟨v, e₂, hb, hbs⟩ |
          ⟨v, e₂, hb, ⟨h, e₃, ha, hbs⟩ | ⟨w, e₃, ha, hbs⟩⟩
        · rw [bind_apply, bind_apply, hb, hbs]
          exact .halted h e₂
        · rw [bind_ok_apply hb, bind_ok_apply hbs]
          exact .returned v e₂
        · rw [bind_ok_apply hb]
          dsimp only
          rw [bind_apply, bind_apply, ha, hbs]
          exact .halted h e₃
        · rw [bind_ok_apply hb]
          dsimp only
          rw [bind_ok_apply ha, bind_ok_apply hbs]
          exact ih v w e₃
      · rw [if_neg htt, if_neg htt]
        exact .completed last last' e₁

end
end Run

/-- A `for` loop ends like the `while` loop that has the initialization before it and the step at the
end of its body: in the same engine, by the same fault or the same `return`, or in the ordinary way.
It completes exactly if it runs to its end, and then its value is that of the last lap of its body, or
null if there was none. -/
theorem forLoop_endsAlike_whileLoop (laps : Nat) (serve : Call → Run Value) (scope : ScopeId)
    (init condition step body : Node) (e : Engine) (hinit : init.YieldsValue)
    (hstep : step.YieldsValue) :
    let loop := Run.exec laps serve scope (.forLoop init condition step body) e
    Run.EndsAlike loop
      (Run.exec laps serve scope (.block [init, .whileLoop condition (.block [body, step])]) e) ∧
    ∀ v e', loop = (.ok (.completed v), e') ↔
      ∃ i e₀ vs, Run.exec laps serve scope init e = (.ok i, e₀) ∧
        Run.Rounds (Run.test laps serve scope condition) (Run.exec laps serve scope body)
          (Run.advance laps serve scope step) vs e₀ e' ∧
        vs.length < laps ∧ v = vs.getLast?.getD .null := by
  intro loop
  have hloop : loop = (Run.test laps serve scope init >>= fun _ =>
      Run.loop (Run.test laps serve scope condition) (Run.exec laps serve scope body)
        (Run.advance laps serve scope step) laps .null) e := rfl
  constructor
  · have hblock : Run.exec laps serve scope
        (.block [init, .whileLoop condition (.block [body, step])]) e =
          Run.execAll laps serve scope [init, .whileLoop condition (.block [body, step])] .null e := rfl
    rw [hloop, hblock]
    rcases hi : Run.exec laps serve scope init e with ⟨h | flow, e₀⟩
    · rw [Run.bind_error_apply (Run.test_of_halted hi), Run.execAll_cons_of_halted hi]
      exact .halted h e₀
    · obtain ⟨i, rfl⟩ := Run.exec_completes_of_yieldsValue hinit _ _ _ hi
      rw [Run.bind_ok_apply (Run.test_eq_ok.2 ⟨_, hi, rfl⟩), Run.execAll_cons_of_completed hi,
        Run.execAll_singleton]
      exact Run.loop_endsAlike (Run.exec_completes_of_yieldsValue hstep) _ laps .null .null e₀
  · intro v e'
    rw [hloop, Run.bind_eq_ok]
    simp only [Run.loop_eq_completed_iff]
    constructor
    · rintro ⟨_, e₀, hi, vs, hr, hlt, rfl⟩
      obtain ⟨i, hi, -⟩ := Run.test_eq_ok.1 hi
      exact ⟨i, e₀, vs, hi, hr, hlt, rfl⟩
    · rintro ⟨i, e₀, vs, hi, hr, hlt, rfl⟩
      exact ⟨_, e₀, Run.test_eq_ok.2 ⟨i, hi, rfl⟩, vs, hr, hlt, rfl⟩

/-- A loop of one lap, whose step switches its condition off: the value of the `for` loop is that of
its body, and the value of the `while` loop is that of the step. -/
theorem forLoop_endsAlike_whileLoop_one_lap :
    let e := (Engine.addScope {} none).2
    let init := Node.assign "more" (.literal (.bool true))
    let step := Node.assign "more" (.literal (.bool false))
    let body := Node.path "more"
    let loop := Run.exec 2 (serve 2) 0 (.forLoop init (.path "more") step body) e
    let other := Run.exec 2 (serve 2) 0
      (.block [init, .whileLoop (.path "more") (.block [body, step])]) e
    init.YieldsValue ∧ step.YieldsValue ∧ Run.EndsAlike loop other ∧
      loop.1 = .ok (.completed (.bool true)) ∧ other.1 = .ok (.completed (.bool false)) := by
  dsimp only
  refine ⟨trivial, trivial, ?_, by with_unfolding_all rfl, by with_unfolding_all rfl⟩
  exact (forLoop_endsAlike_whileLoop 2 (serve 2) 0 _ _ _ _ _ (by trivial) (by trivial)).1

end Parlance
