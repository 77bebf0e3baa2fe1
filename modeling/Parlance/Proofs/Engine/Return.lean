import Parlance.Engine.Builtin
import Parlance.Proofs.Engine.Unwinding

/-! What a `return` ends. An activation is one run of a tree in a scope: of a script, of a body of a
function or of a handler. Once a `return` is reached in it, at whatever depth, the activation ends
in the very engine that the value of the `return` left behind; so nothing else of it has run. A call
ends its own activation only: for the one that made it, it has an ordinary value. -/

namespace Parlance

/-- A tree of a form that yields a value, whatever stands inside it. -/
def Node.YieldsValue : Node → Prop
  | .literal _ | .path _ | .assign .. | .binary .. | .unary .. | .call .. => True
  | _ => False

theorem Node.IsExpression.yieldsValue {node : Node} (h : node.IsExpression) : node.YieldsValue := by
  cases h <;> trivial

namespace Run

theorem bind_eq_ok {α β : Type} {m : Run α} {f : α → Run β} {b : β} {e e' : Engine} :
    (m >>= f) e = (.ok b, e') ↔ ∃ a e₁, m e = (.ok a, e₁) ∧ f a e₁ = (.ok b, e') := by
  rw [bind_apply]
  rcases m e with ⟨h | a, e₁⟩
  · constructor
    · intro hf
      cases hf
    · rintro ⟨_, _, he, -⟩
      cases he
  · constructor
    · intro hf
      exact ⟨a, e₁, rfl, hf⟩
    · rintro ⟨a', e₁', he, hf⟩
      cases he
      exact hf

theorem pure_eq_ok {α : Type} {a b : α} {e e' : Engine} :
    (pure a : Run α) e = (.ok b, e') ↔ a = b ∧ e = e' := by
  change (Except.ok a, e) = (Except.ok b, e') ↔ _
  simp

inductive Laps (test : Run Value) (body : Run Flow) (advance : Run Unit) :
    Nat → Engine → Engine → Prop
  | none (e : Engine) : Laps test body advance 0 e e
  | more {k : Nat} {t v : Value} {e e₁ e₂ e₃ e' : Engine} : test e = (.ok t, e₁) →
      t.truthy = true → body e₁ = (.ok (.completed v), e₂) → advance e₂ = (.ok (), e₃) →
      Laps test body advance k e₃ e' → Laps test body advance (k + 1) e e'

section Activation
variable (laps : Nat) (serve : Call → Run Value) (scope : ScopeId)

def test (condition : Node) : Run Value := Flow.value <$> exec laps serve scope condition

def advance (step : Node) : Run Unit := do let _ ← test laps serve scope step

/-- Running a node from an engine comes to running another node, in the same activation, from
another engine. -/
inductive Enters : Node → Engine → Node → Engine → Prop
  | here (node : Node) (e : Engine) : Enters node e node e
  | block {before after : List Node} {node target : Node} {v : Value} {e e₁ e' : Engine} :
      execAll laps serve scope before .null e = (.ok (.completed v), e₁) →
      Enters node e₁ target e' → Enters (.block (before ++ node :: after)) e target e'
  | yes {condition yes target : Node} {no : Option Node} {t : Value} {e e₁ e' : Engine} :
      test laps serve scope condition e = (.ok t, e₁) → t.truthy = true →
      Enters yes e₁ target e' → Enters (.branch condition yes no) e target e'
  | no {condition yes no target : Node} {t : Value} {e e₁ e' : Engine} :
      test laps serve scope condition e = (.ok t, e₁) → t.truthy = false →
      Enters no e₁ target e' → Enters (.branch condition yes (some no)) e target e'
  | whileLoop {condition body target : Node} {k : Nat} {t : Value} {e e₁ e₂ e' : Engine} :
      Laps (test laps serve scope condition) (exec laps serve scope body) (pure ()) k e e₁ →
      k < laps → test laps serve scope condition e₁ = (.ok t, e₂) → t.truthy = true →
      Enters body e₂ target e' → Enters (.whileLoop condition body) e target e'
  | forLoop {init condition step body target : Node} {k : Nat} {i : Flow} {t : Value}
      {e e₀ e₁ e₂ e' : Engine} : exec laps serve scope init e = (.ok i, e₀) →
      Laps (test laps serve scope condition) (exec laps serve scope body)
        (advance laps serve scope step) k e₀ e₁ →
      k < laps → test laps serve scope condition e₁ = (.ok t, e₂) → t.truthy = true →
      Enters body e₂ target e' → Enters (.forLoop init condition step body) e target e'

end Activation

section Returning
variable {laps : Nat} {serve : Call → Run Value} {scope : ScopeId}

theorem exec_branch {condition yes : Node} {no : Option Node} :
    exec laps serve scope (.branch condition yes no) = do
      if (← test laps serve scope condition).truthy then exec laps serve scope yes
      else
        match no with
        | some node => exec laps serve scope node
        | none => return .completed .null := by
  cases no <;> rfl

theorem test_eq_ok {condition : Node} {t : Value} {e e' : Engine} :
    test laps serve scope condition e = (.ok t, e') ↔
      ∃ flow, exec laps serve scope condition e = (.ok flow, e') ∧ flow.value = t := by
  simp only [test, map_eq_pure_bind, bind_eq_ok, pure_eq_ok]
  constructor
  · rintro ⟨flow, e₁, he, ht, rfl⟩
    exact ⟨flow, he, ht⟩
  · rintro ⟨flow, he, ht⟩
    exact ⟨flow, e', he, ht, rfl⟩

theorem inTurn_append {run : Node → Run Flow} {before after : List Node} {last : Value}
    {e : Engine} :
    inTurn run (before ++ after) last e =
      match inTurn run before last e with
      | (.ok (.completed v), e') => inTurn run after v e'
      | r => r := by
  induction before generalizing last e with
  | nil => rfl
  | cons node before ih =>
    simp only [List.cons_append, inTurn]
    rw [bind_apply, bind_apply]
    rcases run node e with ⟨h | (v | v), e₁⟩
    · rfl
    · exact ih
    · rfl

theorem loop_returned {test : Run Value} {body : Run Flow} {advance : Run Unit} {k n : Nat}
    {last t v : Value} {e e₁ e₂ e' : Engine} (h : Laps test body advance k e e₁) (hn : k < n)
    (ht : test e₁ = (.ok t, e₂)) (htt : t.truthy = true)
    (hb : body e₂ = (.ok (.returned v), e')) :
    loop test body advance n last e = (.ok (.returned v), e') := by
  induction h generalizing n last with
  | none e =>
    obtain ⟨n, rfl⟩ : ∃ m, n = m + 1 := ⟨n - 1, by omega⟩
    simp only [loop]
    refine bind_eq_ok.2 ⟨t, e₂, ht, ?_⟩
    rw [if_pos htt]
    exact bind_eq_ok.2 ⟨_, _, hb, rfl⟩
  | more htest htruthy hbody hadvance _ ih =>
    obtain ⟨n, rfl⟩ : ∃ m, n = m + 1 := ⟨n - 1, by omega⟩
    simp only [loop]
    refine bind_eq_ok.2 ⟨_, _, htest, ?_⟩
    rw [if_pos htruthy]
    exact bind_eq_ok.2 ⟨_, _, hbody, bind_eq_ok.2 ⟨_, _, hadvance, ih (by omega) ht⟩⟩

theorem Enters.exec_returned {root node : Node} {v : Value} {e e₁ e' : Engine}
    (h : Enters laps serve scope root e node e₁)
    (hr : exec laps serve scope node e₁ = (.ok (.returned v), e')) :
    exec laps serve scope root e = (.ok (.returned v), e') := by
  induction h with
  | here => exact hr
  | block hbefore _ ih =>
    simp only [execWith, execAllWith_eq_inTurn] at hbefore ⊢
    rw [inTurn_append, hbefore]
    exact bind_eq_ok.2 ⟨_, _, ih hr, rfl⟩
  | yes ht htt _ ih =>
    rw [exec_branch]
    refine bind_eq_ok.2 ⟨_, _, ht, ?_⟩
    rw [if_pos htt]
    exact ih hr
  | no ht htt _ ih =>
    rw [exec_branch]
    refine bind_eq_ok.2 ⟨_, _, ht, ?_⟩
    rw [if_neg (by simp [htt])]
    exact ih hr
  | whileLoop hl hk ht htt _ ih => exact loop_returned hl hk ht htt (ih hr)
  | forLoop hi hl hk ht htt _ ih =>
    exact bind_eq_ok.2 ⟨_, _, test_eq_ok.2 ⟨_, hi, rfl⟩, loop_returned hl hk ht htt (ih hr)⟩

/-! The other direction: how a node comes to return. -/

def Completes (m : Run Flow) : Prop := ∀ e flow e', m e = (.ok flow, e') → flow.IsCompleted

theorem Completes.pure (v : Value) : Completes (Pure.pure (.completed v)) := by
  intro e flow e' h
  exact ⟨v, (pure_eq_ok.1 h).1.symm⟩

theorem Completes.bind {α : Type} {m : Run α} {f : α → Run Flow} (h : ∀ a, Completes (f a)) :
    Completes (m >>= f) := by
  intro e flow e' hr
  obtain ⟨a, e₁, -, hf⟩ := bind_eq_ok.1 hr
  exact h a _ _ _ hf

theorem Completes.ite {c : Prop} [Decidable c] {m m' : Run Flow} (h : Completes m)
    (h' : Completes m') : Completes (if c then m else m') := by
  split
  · exact h
  · exact h'

theorem exec_call_completes (name : String) (args : List Node) :
    Completes (exec laps serve scope (.call name args)) := by
  refine Completes.bind fun e => ?_
  cases e.functions.get? name with
  | none =>
    intro e flow e' h
    cases h
  | some f => exact .bind fun vs => .bind fun v => .pure v

theorem exec_trigger_completes (event : String) (args : List Node) :
    Completes (exec laps serve scope (.trigger event args)) :=
  .bind fun _ => .bind fun _ => .pure .null

theorem exec_completes_of_yieldsValue {node : Node} (h : node.YieldsValue) :
    Completes (exec laps serve scope node) := by
  cases node with
  | literal v => exact .pure v
  | path name => exact .bind fun v => .pure v
  | assign path value => exact .bind fun flow => .bind fun _ => .pure _
  | binary op left right =>
    exact .bind fun a => (Completes.pure _).ite <| (Completes.pure _).ite <|
      .bind fun b => .bind fun e => .bind fun v => .pure v
  | unary op operand => exact .bind fun flow => .bind fun e => .bind fun v => .pure v
  | call name args => exact exec_call_completes name args
  | _ => exact absurd h id

theorem exists_laps_of_loop_returned {test : Run Value} {body : Run Flow} {advance : Run Unit}
    {n : Nat} {last v : Value} {e e' : Engine}
    (h : loop test body advance n last e = (.ok (.returned v), e')) :
    ∃ k t e₁ e₂, Laps test body advance k e e₁ ∧ k < n ∧ test e₁ = (.ok t, e₂) ∧
      t.truthy = true ∧ body e₂ = (.ok (.returned v), e') := by
  induction n generalizing last e with
  | zero => cases h
  | succ n ih =>
    simp only [loop] at h
    obtain ⟨t, e₁, ht, h⟩ := bind_eq_ok.1 h
    split at h
    · next htt =>
      obtain ⟨flow, e₂, hb, h⟩ := bind_eq_ok.1 h
      cases flow with
      | completed w =>
        obtain ⟨_, e₃, ha, h⟩ := bind_eq_ok.1 h
        obtain ⟨k, t', e₄, e₅, hl, hk, ht', htt', hb'⟩ := ih h
        exact ⟨k + 1, t', e₄, e₅, .more ht htt hb ha hl, by omega, ht', htt', hb'⟩
      | returned w =>
        cases h
        exact ⟨0, t, e, e₁, .none e, by omega, ht, htt, hb⟩
    · cases h

theorem exists_split_of_inTurn_returned {run : Node → Run Flow} {nodes : List Node} {last v : Value}
    {e e' : Engine} (h : inTurn run nodes last e = (.ok (.returned v), e')) :
    ∃ before node after w e₁, nodes = before ++ node :: after ∧
      inTurn run before last e = (.ok (.completed w), e₁) ∧ run node e₁ = (.ok (.returned v), e') := by
  induction nodes generalizing last e with
  | nil => cases h
  | cons node nodes ih =>
    simp only [inTurn] at h
    obtain ⟨flow, e₁, hn, h⟩ := bind_eq_ok.1 h
    cases flow with
    | completed w =>
      obtain ⟨before, node', after, w', e₂, rfl, hb, hr⟩ := ih h
      exact ⟨node :: before, node', after, w', e₂, rfl, bind_eq_ok.2 ⟨_, _, hn, hb⟩, hr⟩
    | returned w =>
      cases h
      exact ⟨[], node, nodes, last, e, rfl, rfl, hn⟩

/-- A node of the grammar returns exactly if a `return` was entered, and then its value is that of
the `return`, in the engine that evaluating it left behind. -/
theorem exec_eq_returned_iff {root : Node} (h : root.IsStatement) {v : Value} {e e' : Engine} :
    exec laps serve scope root e = (.ok (.returned v), e') ↔
      ∃ value e₁, Enters laps serve scope root e (.returnWith value) e₁ ∧
        test laps serve scope value e₁ = (.ok v, e') := by
  constructor
  · intro hr
    induction h generalizing e with
    | expression h =>
      obtain ⟨w, hw⟩ := exec_completes_of_yieldsValue h.yieldsValue _ _ _ hr
      cases hw
    | block _ ih =>
      simp only [execWith, execAllWith_eq_inTurn] at hr
      obtain ⟨before, node, after, w, e₁, rfl, hb, hn⟩ := exists_split_of_inTurn_returned hr
      obtain ⟨value, e₂, hent, hv⟩ := ih node (by simp) hn
      rw [← execAllWith_eq_inTurn] at hb
      exact ⟨value, e₂, .block hb hent, hv⟩
    | @branch condition yes no _ _ _ hy hn =>
      rw [exec_branch] at hr
      obtain ⟨t, e₁, ht, hr⟩ := bind_eq_ok.1 hr
      split at hr
      · next htt =>
        obtain ⟨value, e₂, hent, hv⟩ := hy hr
        exact ⟨value, e₂, .yes ht htt hent, hv⟩
      · next htt =>
        cases no with
        | none => cases hr
        | some node =>
          obtain ⟨value, e₂, hent, hv⟩ := hn node rfl hr
          exact ⟨value, e₂, .no ht (by simpa using htt) hent, hv⟩
    | whileLoop _ _ ih =>
      obtain ⟨k, t, e₁, e₂, hl, hk, ht, htt, hb⟩ := exists_laps_of_loop_returned hr
      obtain ⟨value, e₃, hent, hv⟩ := ih hb
      exact ⟨value, e₃, .whileLoop hl hk ht htt hent, hv⟩
    | forLoop _ _ _ _ ih =>
      obtain ⟨_, e₀, hi, hr⟩ := bind_eq_ok.1 hr
      obtain ⟨i, hi, -⟩ := test_eq_ok.1 hi
      obtain ⟨k, t, e₁, e₂, hl, hk, ht, htt, hb⟩ := exists_laps_of_loop_returned hr
      obtain ⟨value, e₃, hent, hv⟩ := ih hb
      exact ⟨value, e₃, .forLoop hi hl hk ht htt hent, hv⟩
    | functionDef name params _ _ =>
      obtain ⟨w, hw⟩ := Completes.bind (fun _ => Completes.pure .null) _ _ _ hr
      cases hw
    | @returnWith value _ =>
      obtain ⟨w, e₁, hv, hr⟩ := bind_eq_ok.1 hr
      cases hr
      exact ⟨value, e, .here _ e, hv⟩
    | handler cue _ _ =>
      obtain ⟨w, hw⟩ := Completes.bind (fun _ => Completes.pure .null) _ _ _ hr
      cases hw
    | trigger event _ =>
      obtain ⟨w, hw⟩ := exec_trigger_completes event _ _ _ _ hr
      cases hw
  · rintro ⟨value, e₁, hent, hv⟩
    exact hent.exec_returned (bind_eq_ok.2 ⟨v, _, hv, rfl⟩)

end Returning
end Run

/-- Running a script is the same whether a `return` is passed on or raised. In every activation a
`return` that is reached, however deep, ends it then and there, and a call or an event is never
taken for a `return` of the activation that it comes from. -/
theorem script_eq_raising_script (allowance : Nat) (s : Script) (scope : ScopeId) (e : Engine)
    (hs : Grammar.Reads s.root) (he : e.Stores Grammar.Reads) :
    Run.script allowance s scope e = Raising.script allowance s scope e ∧
    ∀ (laps : Nat) (serve : Call → Run Value) (scope : ScopeId) (e e' : Engine),
      (∀ root v, Grammar.Reads root →
        (Run.exec laps serve scope root e = (.ok (.returned v), e') ↔
          ∃ value e₁, Run.Enters laps serve scope root e (.returnWith value) e₁ ∧
            Run.test laps serve scope value e₁ = (.ok v, e'))) ∧
      (∀ name args flow, Run.exec laps serve scope (.call name args) e = (.ok flow, e') →
        flow.IsCompleted) ∧
      (∀ event args flow, Run.exec laps serve scope (.trigger event args) e = (.ok flow, e') →
        flow.IsCompleted) := by
  constructor
  · have hsound : e.IsSound True := .of_lax trivial (he.mono fun _ h => h.isStatement)
    exact ((Raising.alike.script allowance hs.isStatement scope).apply_eq hsound).symm
  · intro laps serve scope e e'
    refine ⟨fun root v hroot => Run.exec_eq_returned_iff hroot.isStatement, ?_, ?_⟩
    · exact fun name args flow h => Run.exec_call_completes name args _ _ _ h
    · exact fun event args flow h => Run.exec_trigger_completes event args _ _ _ h

/-- A `return` with a faulty statement after it: in a function, in a handler and, inside a loop that
would go on for ever, in the script that triggers the one and calls the other. -/
theorem script_eq_raising_script_three_returns :
    let always := Node.literal (.bool true)
    let root := Node.block [.functionDef "f" [] (.block [.returnWith always, .path "z"]),
      .handler "done" (.block [.assign "x" always, .returnWith always, .path "z"]), .trigger "done" [],
      .whileLoop always (.block [.returnWith (.call "f" []), .path "z"]), .path "z"]
    let e := ((Engine.new false).addScope none).2.registerEvent "done" []
    let ended := Run.script 4 ⟨0, root⟩ 0 e
    Grammar.Reads root ∧ e.Stores Grammar.Reads ∧ ended.1 = .ok (.bool true) ∧ ended.2.log = [] ∧
      ended.2.scopes.local? 0 "x" = some (.bool true) ∧ Raising.script 4 ⟨0, root⟩ 0 e = ended := by
  intro always root e ended
  have hread : Grammar.readScript
      [⟨.keyword .functionWord, "function", .start⟩, ⟨.identifier, "f", .start⟩,
        ⟨.delimiter .leftParen, "(", .start⟩, ⟨.delimiter .rightParen, ")", .start⟩,
        ⟨.delimiter .leftBrace, "\x7b", .start⟩, ⟨.keyword .returnWord, "return", .start⟩,
        ⟨.keyword .trueWord, "true", .start⟩, ⟨.identifier, "z", .start⟩,
        ⟨.delimiter .rightBrace, "\x7d", .start⟩, ⟨.keyword .onWord, "on", .start⟩,
        ⟨.identifier, "done", .start⟩, ⟨.delimiter .leftBrace, "\x7b", .start⟩,
        ⟨.identifier, "x", .start⟩, ⟨.operator, "=", .start⟩, ⟨.keyword .trueWord, "true", .start⟩,
        ⟨.keyword .returnWord, "return", .start⟩, ⟨.keyword .trueWord, "true", .start⟩,
        ⟨.identifier, "z", .start⟩, ⟨.delimiter .rightBrace, "\x7d", .start⟩,
        ⟨.keyword .triggerWord, "trigger", .start⟩, ⟨.identifier, "done", .start⟩,
        ⟨.keyword .whileWord, "while", .start⟩, ⟨.delimiter .leftParen, "(", .start⟩,
        ⟨.keyword .trueWord, "true", .start⟩, ⟨.delimiter .rightParen, ")", .start⟩,
        ⟨.delimiter .leftBrace, "\x7b", .start⟩, ⟨.keyword .returnWord, "return", .start⟩,
        ⟨.identifier, "f", .start⟩, ⟨.delimiter .leftParen, "(", .start⟩,
        ⟨.delimiter .rightParen, ")", .start⟩, ⟨.identifier, "z", .start⟩,
        ⟨.delimiter .rightBrace, "\x7d", .start⟩, ⟨.identifier, "z", .start⟩,
        ⟨.endOfInput, "", .start⟩] = .ok root := rfl
  have hreads : Grammar.Reads root := ⟨root, rfl, .inr ⟨_, hread⟩⟩
  have hstores : e.Stores Grammar.Reads := by
    refine ⟨fun name f hf => ?_, fun name event hev => ?_⟩
    · cases hf
    · have hevents : e.events = Table.insert {} "done" ⟨"done", [], []⟩ := rfl
      rw [hevents, Table.get?_insert] at hev
      split at hev
      · cases hev
        simp
      · cases hev
  have hvalue : ended.1 = .ok (.bool true) := rfl
  have hlog : ended.2.log = [] := rfl
  have hx : ended.2.scopes.local? 0 "x" = some (.bool true) := rfl
  exact ⟨hreads, hstores, hvalue, hlog, hx,
    (script_eq_raising_script 4 ⟨0, root⟩ 0 e hreads hstores).1.symm⟩

end Parlance
