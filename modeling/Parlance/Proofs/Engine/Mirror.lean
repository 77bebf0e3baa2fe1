import Parlance.Proofs.Engine.Ordinary

/-! When two runs do the same on every sound engine. The second one may end in other terms than the
first, which `φ` translates. The relation is kept by doing one thing after the other, by branching and by
going on after a fault, and it holds of the steps that all runs share. -/

namespace Parlance

theorem bind_apply {ε α β : Type} (m : ExceptT ε (StateM Engine) α)
    (f : α → ExceptT ε (StateM Engine) β) (e : Engine) :
    (m >>= f) e = match m e with
      | (.ok a, e) => f a e
      | (.error x, e) => (.error x, e) := by
  have h : (m >>= f) e = ExceptT.bindCont f (m e).1 (m e).2 := rfl
  rw [h]
  rcases m e with ⟨_ | _, _⟩ <;> rfl

/-- From a sound engine `r` ends as `φ` says that `m` ends, and in the same engine, which is sound
again. A result of `m` has the property `Q`, and if there is none, then for an admissible reason. -/
def Mirrors (lax : Prop) {σ α β : Type} (φ : Except Halt α → Except σ β) (Q : α → Prop) (m : Run α)
    (r : ExceptT σ (StateM Engine) β) : Prop :=
  ∀ e, e.IsSound lax → r e = (φ (m e).1, (m e).2) ∧ (m e).2.IsSound lax ∧
    (∀ a, (m e).1 = .ok a → Q a) ∧ ∀ h, (m e).1 = .error h → h.Admissible lax

abbrev Passes (lax : Prop) {α : Type} (Q : α → Prop) (m r : Run α) : Prop := Mirrors lax id Q m r

variable {lax : Prop}

namespace Mirrors
variable {σ α α' β β' : Type} {φ : Except Halt α → Except σ α'} {ψ : Except Halt β → Except σ β'}
  {Q : α → Prop} {R : β → Prop} {m : Run α} {r : ExceptT σ (StateM Engine) α'} {f : α → Run β}
  {g : α' → ExceptT σ (StateM Engine) β'}

/-- One thing after the other. Where `r` is interrupted, `m` has to go on with what it already
has. -/
theorem bind_of (hm : Mirrors lax φ Q m r)
    (herror : ∀ h, ∃ s, φ (.error h) = .error s ∧ ψ (.error h) = .error s)
    (hok : ∀ a, Q a → (∃ a', φ (.ok a) = .ok a' ∧ Mirrors lax ψ R (f a) (g a')) ∨
      ∃ s b, φ (.ok a) = .error s ∧ f a = pure b ∧ ψ (.ok b) = .error s ∧ R b) :
    Mirrors lax ψ R (m >>= f) (r >>= g) := by
  intro e he
  obtain ⟨hr, hs, hq, hh⟩ := hm e he
  rw [bind_apply, bind_apply, hr]
  rcases hme : m e with ⟨h | a, e'⟩
  · obtain ⟨s, hφ, hψ⟩ := herror h
    rw [hme] at hs hh
    simp only [hφ, hψ]
    refine ⟨trivial, hs, by simp, fun h' hh' => ?_⟩
    cases hh'
    exact hh h rfl
  · rw [hme] at hs hq
    rcases hok a (hq a rfl) with ⟨a', hφ, hfg⟩ | ⟨s, b, hφ, hf, hψ, hb⟩
    · simp only [hφ]
      exact hfg e' hs
    · simp only [hφ, hf]
      refine ⟨?_, hs, fun b' hb' => ?_, fun h' hh' => ?_⟩
      · change _ = (ψ (.ok b), e')
        rw [hψ]
      · cases hb'
        exact hb
      · cases hh'

theorem ite {c : Prop} [Decidable c] {m' : Run α} {r' : ExceptT σ (StateM Engine) α'}
    (hm : Mirrors lax φ Q m r) (hm' : Mirrors lax φ Q m' r') :
    Mirrors lax φ Q (if c then m else m') (if c then r else r') := by
  split
  · exact hm
  · exact hm'

theorem mono {Q' : α → Prop} (hm : Mirrors lax φ Q m r) (h : ∀ a, Q a → Q' a) :
    Mirrors lax φ Q' m r := by
  intro e he
  obtain ⟨hr, hs, hq, hh⟩ := hm e he
  exact ⟨hr, hs, fun a ha => h a (hq a ha), hh⟩

theorem of_ok {b : α → α'} (hφ : ∀ a, φ (.ok a) = .ok (b a))
    (h : ∀ e, e.IsSound lax → ∃ a e', m e = (.ok a, e') ∧ r e = (.ok (b a), e') ∧ e'.IsSound lax ∧ Q a) :
    Mirrors lax φ Q m r := by
  intro e he
  obtain ⟨a, e', hm, hr, hs, hq⟩ := h e he
  rw [hm, hr, hφ]
  refine ⟨rfl, hs, fun b hb => ?_, fun h' hh => ?_⟩
  · cases hb
    exact hq
  · cases hh

end Mirrors

namespace Passes
variable {α β : Type} {Q : α → Prop} {R : β → Prop} {m m' r r' : Run α} {f f' : α → Run β}

theorem apply_eq (hm : Passes lax Q m r) {e : Engine} (he : e.IsSound lax) : r e = m e := (hm e he).1

theorem bind (hm : Passes lax Q m r) (hf : ∀ a, Q a → Passes lax R (f a) (f' a)) :
    Passes lax R (m >>= f) (r >>= f') :=
  hm.bind_of (fun h => ⟨h, rfl, rfl⟩) fun a ha => .inl ⟨a, rfl, hf a ha⟩

theorem of_ok (h : ∀ e, e.IsSound lax → ∃ a e', m e = (.ok a, e') ∧ e'.IsSound lax ∧ Q a) :
    Passes lax Q m m :=
  Mirrors.of_ok (fun _ => rfl) fun e he =>
    let ⟨a, e', hm, hs, hq⟩ := h e he
    ⟨a, e', hm, hm, hs, hq⟩

theorem pure {a : α} (h : Q a) : Passes lax Q (pure a) (pure a) :=
  of_ok fun e he => ⟨a, e, rfl, he, h⟩

theorem map {g : α → β} (hm : Passes lax Q m r) : Passes lax (fun _ => True) (g <$> m) (g <$> r) := by
  rw [map_eq_pure_bind, map_eq_pure_bind]
  exact hm.bind fun _ _ => pure trivial

theorem throw {h : Halt} (hh : h.Admissible lax) : Passes lax Q (throw h) (throw h) := by
  refine fun e he => ⟨rfl, he, fun b hb => ?_, fun h' hh' => ?_⟩
  · cases hb
  · cases hh'
    exact hh

theorem exhausted :
    Passes lax Q (MonadExcept.throw Halt.exhausted) (MonadExcept.throw Halt.exhausted) :=
  throw trivial

theorem fail {fault : Fault} (h : fault.Admissible lax) :
    Passes lax Q (Run.fail fault) (Run.fail fault) :=
  throw (h : (Halt.fault fault).Admissible lax)

theorem ofExcept {x : Except Fault α} (hx : Admissible lax x) (h : ∀ a, x = .ok a → Q a) :
    Passes lax Q (Run.ofExcept x) (Run.ofExcept x) := by
  cases x with
  | error fault => exact fail hx
  | ok a => exact pure (h a rfl)

theorem get : Passes lax (Engine.IsSound lax) get get :=
  of_ok fun e he => ⟨e, e, rfl, he, he⟩

theorem step {change : Engine → α × Engine} (h : ∀ e, e.IsSound lax → (change e).2.IsSound lax) :
    Passes lax (fun _ => True) (Run.step change) (Run.step change) :=
  of_ok fun e he => ⟨(change e).1, (change e).2, rfl, h e he, trivial⟩

theorem modify {change : Engine → Engine} (h : ∀ e, e.IsSound lax → (change e).IsSound lax) :
    Passes lax (fun _ => True) (modify change) (modify change) :=
  of_ok fun e he => ⟨(), change e, rfl, h e he, trivial⟩

theorem report (channel : Channel) (message : String) :
    Passes lax (fun _ => True) (Run.report channel message) (Run.report channel message) :=
  modify fun _ he => he.congr rfl rfl

theorem attempt (hm : Passes lax Q m r) :
    Passes lax (Admissible lax) (Run.attempt m) (Run.attempt r) := by
  intro e he
  obtain ⟨-, hs, -, hh⟩ := hm e he
  have hrun : Run.attempt r e = Run.attempt m e := by
    unfold Run.attempt
    rw [hm.apply_eq he]
  refine ⟨hrun, ?_⟩
  unfold Run.attempt
  rcases hme : m e with ⟨(fault | _) | a, e₁⟩
  all_goals
    rw [hme] at hs hh
    refine ⟨hs, fun x hx => ?_, fun h' hx => ?_⟩
  · cases hx
    exact hh _ rfl
  · cases hx
  · cases hx
  · cases hx
    exact hh _ rfl
  · cases hx
    trivial
  · cases hx

end Passes

/-! The steps that all runs share. -/

namespace Run

theorem readPath_passes (scope : ScopeId) (path : String) :
    Passes lax (fun _ => True) (readPath scope path) (readPath scope path) :=
  Passes.get.bind fun e _ => .ofExcept (admissible_resolve e scope _) fun _ _ => trivial

theorem assign_passes (scope : ScopeId) (path : String) (v : Value) :
    Passes lax (fun _ => True) (assign scope path v) (assign scope path v) := by
  unfold assign
  split
  · exact .modify fun _ he => he.congr rfl rfl
  · exact .modify fun _ he => he.congr rfl rfl
  · refine Passes.get.bind fun e _ => ?_
    refine (Passes.ofExcept (admissible_resolve e scope _) fun _ _ => trivial).bind fun owner _ => ?_
    refine Passes.get.bind fun e _ => ?_
    refine (Passes.ofExcept (admissible_writeMember e.objects owner _ v) fun _ _ => trivial).bind
      fun objects _ => ?_
    exact .modify fun _ he => he.congr rfl rfl

theorem newScope_passes (parent : Option ScopeId) :
    Passes lax (fun _ => True) (newScope parent) (newScope parent) :=
  .step fun _ he => he.congr rfl rfl

theorem newScript_passes {root : Node} (h : root.IsStatement) :
    Passes lax (fun s : Script => s.root.IsStatement) (newScript root) (newScript root) :=
  .of_ok fun e he => ⟨(e.addScript root).1, (e.addScript root).2, rfl, he.congr rfl rfl, h.mark _⟩

theorem newTree_passes {node : Node} (h : node.IsStatement) :
    Passes lax Node.IsStatement (newTree node) (newTree node) :=
  .of_ok fun e he => ⟨(e.mark node).1, (e.mark node).2, rfl, he.congr rfl rfl, h.mark _⟩

theorem registerHandler_passes (event : String) {handler : Handler}
    (h : handler.script.root.IsStatement) :
    Passes lax (fun _ => True) (registerHandler event handler) (registerHandler event handler) := by
  have hset {e' : Engine} (he' : e'.IsSound lax) :
      Passes lax (fun _ => True) (set e' : Run Unit) (set e') :=
    .of_ok fun _ _ => ⟨(), e', rfl, he', trivial⟩
  refine Passes.get.bind fun e he => ?_
  refine Passes.bind (Q := Engine.IsSound lax) (.ofExcept (admissible_registerHandler e event handler) ?_)
    fun e' he' => hset he'
  exact fun e' he' => he.registerHandler h he'

theorem defineFunction_passes (name : String) (params : List String) {body : Node}
    (h : body.IsStatement) (scope : ScopeId) :
    Passes lax (fun _ => True) (modify (·.defineFunction (.ofScript name params body scope)))
      (modify (·.defineFunction (.ofScript name params body scope))) := by
  refine .modify fun e he => he.defineFunction ⟨fun body' closure hb => ?_, fun run hb => ?_⟩
  · cases hb
    exact h
  · cases hb

theorem openFrame_passes (closure : ScopeId) (parameters : List Parameter) (vs : List Value) :
    Passes lax (fun _ => True) (openFrame closure parameters vs) (openFrame closure parameters vs) := by
  refine (newScope_passes _).bind fun frame _ => Passes.bind (.modify ?_) fun _ _ => .pure trivial
  exact fun e he => he.congr rfl rfl

theorem execAllWith_eq_inTurn (value : ScopeId → Node → Run Flow → Run Value) (laps : Nat)
    (serve : Call → Run Value) (scope : ScopeId) (nodes : List Node) (last : Value) :
    execAllWith value laps serve scope nodes last =
      inTurn (execWith value laps serve scope) nodes last := by
  induction nodes generalizing last with
  | nil => rfl
  | cons node nodes ih => simp only [execAllWith, inTurn, ih]

theorem inTurn_passes {run run' : Node → Run Flow} {nodes : List Node}
    (h : ∀ node ∈ nodes, Passes lax (fun _ => True) (run node) (run' node)) (last : Value) :
    Passes lax (fun _ => True) (inTurn run nodes last) (inTurn run' nodes last) := by
  induction nodes generalizing last with
  | nil => exact .pure trivial
  | cons node nodes ih =>
    refine (h node List.mem_cons_self).bind fun flow _ => ?_
    cases flow with
    | completed v => exact ih (fun n hn => h n (List.mem_cons_of_mem _ hn)) v
    | returned v => exact .pure trivial

theorem parse_passes {e : Engine} (text : String) :
    Passes lax Node.IsStatement (ofExcept (e.parse text)) (ofExcept (e.parse text)) :=
  .ofExcept (admissible_parse e text) fun _ h => isStatement_of_parse h

end Run
end Parlance
