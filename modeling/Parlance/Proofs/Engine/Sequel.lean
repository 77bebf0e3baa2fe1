import Parlance.Proofs.Engine.Change
import Parlance.Proofs.Engine.Return
import Parlance.Proofs.Script.Source

/-! A source in pieces. Two sources with a line end between them are one source, whose statements are
those of the first and then those of the second; and running it is running the first and then, unless
that stopped early, the second. -/

namespace Parlance

namespace Run
variable {allowance : Nat} {scope : ScopeId} {e : Engine}

theorem bind_ok_apply {α β : Type} {m : Run α} {f : α → Run β} {a : α} {e₁ : Engine}
    (h : m e = (.ok a, e₁)) : (m >>= f) e = f a e₁ := by rw [bind_apply, h]

theorem bind_error_apply {α β : Type} {m : Run α} {f : α → Run β} {halt : Halt} {e₁ : Engine}
    (h : m e = (.error halt, e₁)) : (m >>= f) e = (.error halt, e₁) := by rw [bind_apply, h]

theorem source_eq_execSource {text : String} {root : Node} (h : e.parse text = .ok root) :
    source allowance text (some scope) e =
      execSource allowance (Parlance.serve allowance) scope root.statements e := by
  have hget : (get : Run Engine) e = (.ok e, e) := rfl
  have hroot : ofExcept (e.parse text) e = (.ok root, e) := by
    rw [h]
    rfl
  have hscope : (pure scope : Run ScopeId) e = (.ok scope, e) := rfl
  rw [source, Manner.execute, bind_ok_apply hget, bind_ok_apply hroot]
  exact bind_ok_apply hscope

theorem execSource_eq {laps : Nat} {serve : Call → Run Value} {nodes : List Node} :
    execSource laps serve scope nodes e =
      ((execFresh laps serve scope nodes e).1.map Flow.value,
        (execFresh laps serve scope nodes e).2) := by
  rw [execSource, map_eq_pure_bind, bind_apply]
  rcases execFresh laps serve scope nodes e with ⟨h | flow, e₁⟩ <;> rfl

/-- One of the statements, which got its marks in its turn, executes a `return` of its own, which has a
value. -/
def Returns (allowance : Nat) (scope : ScopeId) (statements : List Node) (e : Engine) : Prop :=
  ∃ before node after v e₁, statements = before ++ node :: after ∧
    execFresh allowance (Parlance.serve allowance) scope before e = (.ok (.completed v), e₁) ∧
    ∃ value w e₂ e', Enters allowance (Parlance.serve allowance) scope (e₁.mark node).1 (e₁.mark node).2
        (.returnWith value) e₂ ∧
      test allowance (Parlance.serve allowance) scope value e₂ = (.ok w, e')

theorem execFresh_append {laps : Nat} {serve : Call → Run Value} (a b : List Node) :
    execFresh laps serve scope (a ++ b) e =
      match execFresh laps serve scope a e with
      | (.ok (.completed v), e₁) =>
        inTurn (fun node => do exec laps serve scope (← newTree node)) b v e₁
      | r => r := inTurn_append

theorem execFresh_eq_returned_iff {nodes : List Node} (h : ∀ node ∈ nodes, node.IsStatement) :
    (∃ v e', execFresh allowance (Parlance.serve allowance) scope nodes e = (.ok (.returned v), e')) ↔
      Returns allowance scope nodes e := by
  constructor
  · rintro ⟨v, e', hr⟩
    obtain ⟨before, node, after, w, e₁, rfl, hbefore, hnode⟩ := exists_split_of_inTurn_returned hr
    obtain ⟨value, e₂, hent, hv⟩ :=
      (exec_eq_returned_iff ((h node (by simp)).mark e₁.scriptCount)).1 hnode
    exact ⟨before, node, after, w, e₁, rfl, hbefore, value, v, e₂, e', hent, hv⟩
  · rintro ⟨before, node, after, v, e₁, rfl, hbefore, value, w, e₂, e', hent, hv⟩
    have hnode := (exec_eq_returned_iff ((h node (by simp)).mark e₁.scriptCount)).2 ⟨value, e₂, hent, hv⟩
    refine ⟨w, e', ?_⟩
    rw [execFresh_append, hbefore]
    exact bind_eq_ok.2 ⟨_, _, hnode, rfl⟩

theorem execFresh_completed_or (allowance : Nat) (scope : ScopeId) (e : Engine) {nodes : List Node}
    (h : ∀ node ∈ nodes, node.IsStatement) :
    (∃ v e₁, execFresh allowance (Parlance.serve allowance) scope nodes e = (.ok (.completed v), e₁) ∧
      ¬Returns allowance scope nodes e) ∨
    (∃ v e₁, execFresh allowance (Parlance.serve allowance) scope nodes e = (.ok (.returned v), e₁) ∧
      Returns allowance scope nodes e) ∨
    ∃ halt e₁, execFresh allowance (Parlance.serve allowance) scope nodes e = (.error halt, e₁) := by
  rcases hx : execFresh allowance (Parlance.serve allowance) scope nodes e with ⟨halt | (v | v), e₁⟩
  · exact .inr (.inr ⟨halt, e₁, rfl⟩)
  · refine .inl ⟨v, e₁, rfl, fun hreturns => ?_⟩
    obtain ⟨w, e', hw⟩ := (execFresh_eq_returned_iff h).2 hreturns
    cases hx.symm.trans hw
  · exact .inr (.inl ⟨v, e₁, rfl, (execFresh_eq_returned_iff h).1 ⟨v, e₁, hx⟩⟩)

theorem inTurn_last {run : Node → Run Flow} {nodes : List Node} (h : nodes ≠ []) (v w : Value) :
    inTurn run nodes v = inTurn run nodes w := by
  cases nodes with
  | nil => exact absurd rfl h
  | cons node nodes => rfl

end Run

/-- Feeding a source in pieces. The joined source has the statements of both; running it ends like the
first piece if that stops early, and otherwise like the second piece run after the first. Only the
value of a second piece without statements differs, which is null. -/
theorem source_append (allowance : Nat) (s₁ s₂ : String) (scope : ScopeId) (e : Engine)
    (a b : List Node) (hbook : e.book = .english)
    (h₁ : Source.parse .english s₁ = .ok (.block a)) (h₂ : Source.parse .english s₂ = .ok (.block b)) :
    Source.parse .english (s₁ ++ "\n" ++ s₂) = .ok (.block (a ++ b)) ∧
    let whole := Run.source allowance (s₁ ++ "\n" ++ s₂) (some scope) e
    let first := Run.source allowance s₁ (some scope) e
    let second := Run.source allowance s₂ (some scope) first.2
    let stopped := (∃ halt, first.1 = .error halt) ∨ Run.Returns allowance scope a e
    (stopped → whole = first) ∧
    (¬stopped → whole.2 = second.2 ∧ (∀ halt, whole.1 = .error halt ↔ second.1 = .error halt) ∧
      (b ≠ [] → whole.1 = second.1)) := by
  have hparse := Source.parse_append h₁ h₂
  refine ⟨hparse, ?_⟩
  intro whole first second stopped
  have hwhole : whole = Run.execSource allowance (serve allowance) scope (a ++ b) e :=
    Run.source_eq_execSource (by rw [Engine.parse, hbook, hparse])
  have hfirst : first = Run.execSource allowance (serve allowance) scope a e :=
    Run.source_eq_execSource (by rw [Engine.parse, hbook, h₁])
  have hbook₁ : first.2.book = .english := by
    rw [hfirst, (Run.execSource_changes allowance scope a e).book_eq, hbook]
  have hsecond : second = Run.execSource allowance (serve allowance) scope b first.2 :=
    Run.source_eq_execSource (by rw [Engine.parse, hbook₁, h₂])
  rw [Run.execSource_eq] at hwhole hfirst hsecond
  rw [Run.execFresh_append] at hwhole
  have hstatements : ∀ node ∈ a, node.IsStatement := (isStatement_of_parse h₁).statements
  obtain ⟨v, e₁, hx, hno⟩ | ⟨v, e₁, hx, hyes⟩ | ⟨halt, e₁, hx⟩ :=
    Run.execFresh_completed_or allowance scope e hstatements
  all_goals rw [hx] at hwhole hfirst
  · have hgoesOn : ¬stopped := by
      rintro (⟨halt, hh⟩ | hr)
      · rw [hfirst] at hh
        cases hh
      · exact hno hr
    refine ⟨fun h => absurd h hgoesOn, fun _ => ?_⟩
    rw [hfirst] at hsecond
    by_cases hb : b = []
    · subst hb
      rw [hwhole, hsecond]
      exact ⟨rfl, fun halt => ⟨nofun, nofun⟩, fun h => absurd rfl h⟩
    · have heq : whole = second := by
        rw [hwhole, hsecond]
        simp only [Run.execFreshWith, Run.inTurn_last hb v .null]
      exact ⟨heq ▸ rfl, fun halt => by rw [heq], fun _ => by rw [heq]⟩
  · exact ⟨fun _ => hwhole.trans hfirst.symm, fun h => absurd (.inr hyes) h⟩
  · refine ⟨fun _ => hwhole.trans hfirst.symm, fun h => absurd (.inl ⟨halt, ?_⟩) h⟩
    rw [hfirst]
    rfl

/-- The quote in the comment opens no literal, and the second piece sees what the first has set. -/
theorem source_append_after_comment :
    let e := (Engine.addScope {} none).2
    let assignment := Node.assign "x" (.literal (.bool true))
    let whole := "set x to true # it's" ++ "\n" ++ "x"
    Source.parse .english "set x to true # it's" = .ok (.block [assignment]) ∧
      Source.parse .english "x" = .ok (.block [.path "x"]) ∧
      Source.parse .english whole = .ok (.block [assignment, .path "x"]) ∧
      (Run.source 1 whole (some 0) e).1 = .ok (.bool true) := by
  intro e assignment whole
  have hfirst : Token.Lexes (Source.process Phrasebook.english.reword
      "set x to true # it's".toList) [(.keyword .varWord, "var"), (.identifier, "x"),
        (.operator, "="), (.keyword .trueWord, "true")] [] := by
    have hwords : Source.process Phrasebook.english.reword "set x to true # it's".toList =
        "var x = true # it's".toList := by decide +kernel
    rw [hwords]
    have hlexes : Token.Lexes "var x = true # it's".toList _ [] :=
      .step rfl (.step rfl (.step rfl (.step rfl (.step rfl (.step rfl (.step rfl (.step rfl
        (.step rfl (.done [])))))))))
    exact hlexes
  have hsecond : Token.Lexes (Source.process Phrasebook.english.reword "x".toList)
      [(.identifier, "x")] [] := by
    have hwords : Source.process Phrasebook.english.reword "x".toList = "x".toList := by
      decide +kernel
    rw [hwords]
    have hlexes : Token.Lexes "x".toList _ [] := .step rfl (.done [])
    exact hlexes
  have h₁ : Source.parse .english "set x to true # it's" = .ok (.block [assignment]) :=
    Source.parse_of_lexes hfirst rfl
  have h₂ : Source.parse .english "x" = .ok (.block [.path "x"]) :=
    Source.parse_of_lexes hsecond rfl
  have hparse : Source.parse .english whole = .ok (.block [assignment, .path "x"]) :=
    (source_append 1 _ _ 0 e _ _ rfl h₁ h₂).1
  refine ⟨h₁, h₂, hparse, ?_⟩
  have hroot : e.parse whole = .ok (.block [assignment, .path "x"]) := hparse
  rw [Run.source_eq_execSource hroot]
  with_unfolding_all rfl

end Parlance
