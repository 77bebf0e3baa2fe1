import Parlance.Proofs.Engine.Alike
import Parlance.Proofs.Engine.Raising

/-! Passing a `return` on, node by node, comes to the same as raising it. The two manners of running
agree on trees that the grammar builds, because there a `return` never stands where a value is
wanted. -/

namespace Parlance

def Signal.plain {α : Type} : Except Halt α → Except Signal α
  | .ok a => .ok a
  | .error h => .error (.halted h)

/-- The end of a node as a signal: a `return` that is passed on is one that was raised. -/
def Signal.flow : Except Halt Flow → Except Signal Value
  | .ok (.completed v) => .ok v
  | .ok (.returned v) => .error (.returned v)
  | .error h => .error (.halted h)

def Flow.IsCompleted (flow : Flow) : Prop := ∃ v, flow = .completed v

variable {lax : Prop}

namespace Mirrors
variable {α β : Type} {Q : α → Prop} {R : β → Prop} {m : Run α} {r : Raising α} {f : α → Run β}

theorem lift {m' : Run α} (hm : Passes lax Q m m') :
    Mirrors lax Signal.plain Q m (Raising.lift m') := by
  intro e he
  obtain ⟨hr, hs, hq, hh⟩ := hm e he
  refine ⟨?_, hs, hq, hh⟩
  simp only [Raising.lift, hr, id]
  rcases m e with ⟨_ | _, _⟩ <;> rfl

theorem bind_plain {g : α → Raising β} (hm : Mirrors lax Signal.plain Q m r)
    (hf : ∀ a, Q a → Mirrors lax Signal.plain R (f a) (g a)) :
    Mirrors lax Signal.plain R (m >>= f) (r >>= g) :=
  hm.bind_of (fun h => ⟨.halted h, rfl, rfl⟩) fun a ha => .inl ⟨a, rfl, hf a ha⟩

theorem pure_plain {a : α} (h : Q a) : Mirrors lax Signal.plain Q (pure a) (pure a) :=
  .of_ok (fun _ => rfl) fun e he => ⟨a, e, rfl, rfl, he, h⟩

theorem get_raising :
    Mirrors lax Signal.plain (Engine.IsSound lax) MonadState.get MonadState.get :=
  .of_ok (fun _ => rfl) fun e he => ⟨e, e, rfl, rfl, he, he⟩

end Mirrors

/-! A node on the left, its value on the right. -/

namespace Mirrors
variable {α : Type} {Q : α → Prop} {R : Flow → Prop} {m : Run Flow} {r : Raising Value}

theorem bind_plain_flow {m : Run α} {r : Raising α} {f : α → Run Flow} {g : α → Raising Value}
    (hm : Mirrors lax Signal.plain Q m r) (hf : ∀ a, Q a → Mirrors lax Signal.flow R (f a) (g a)) :
    Mirrors lax Signal.flow R (m >>= f) (r >>= g) :=
  hm.bind_of (fun h => ⟨.halted h, rfl, rfl⟩) fun a ha => .inl ⟨a, rfl, hf a ha⟩

theorem bind_flow {f : Flow → Run Flow} {g : Value → Raising Value}
    (hm : Mirrors lax Signal.flow (fun _ => True) m r)
    (hc : ∀ v, Mirrors lax Signal.flow (fun _ => True) (f (.completed v)) (g v))
    (hr : ∀ v, f (.returned v) = Pure.pure (.returned v)) :
    Mirrors lax Signal.flow (fun _ => True) (m >>= f) (r >>= g) := by
  refine hm.bind_of (fun h => ⟨.halted h, rfl, rfl⟩) ?_
  rintro (v | v) -
  · exact .inl ⟨v, rfl, hc v⟩
  · exact .inr ⟨.returned v, .returned v, rfl, hr v, rfl, trivial⟩

theorem completed (v : Value) :
    Mirrors lax Signal.flow Flow.IsCompleted (Pure.pure (.completed v)) (Pure.pure v) := by
  refine fun e he => ⟨rfl, he, fun flow h => ?_, fun h hh => ?_⟩
  · cases h
    exact ⟨v, rfl⟩
  · cases hh

theorem completed_weak (v : Value) :
    Mirrors lax Signal.flow (fun _ => True) (Pure.pure (.completed v)) (Pure.pure v) :=
  (completed v).mono fun _ _ => trivial

theorem returned (v : Value) :
    Mirrors lax Signal.flow (fun _ => True) (Pure.pure (.returned v)) (throw (.returned v)) := by
  refine fun e he => ⟨rfl, he, fun _ _ => trivial, fun h hh => ?_⟩
  cases hh

theorem complete {m : Run Value} {r : Raising Value}
    (hm : Mirrors lax Signal.plain (fun _ => True) m r) :
    Mirrors lax Signal.flow Flow.IsCompleted (m >>= fun v => Pure.pure (.completed v)) r := by
  rw [← bind_pure r]
  exact hm.bind_plain_flow fun v _ => completed v

theorem value (hm : Mirrors lax Signal.flow Flow.IsCompleted m r) (scope : ScopeId) (node : Node) :
    Mirrors lax Signal.plain (fun _ => True) (Run.valueOf scope node m) r := by
  rw [Run.valueOf, ← bind_pure r, map_eq_pure_bind]
  refine hm.bind_of (fun h => ⟨.halted h, rfl, rfl⟩) ?_
  rintro _ ⟨v, rfl⟩
  exact .inl ⟨v, rfl, pure_plain trivial⟩

theorem caught (hm : Mirrors lax Signal.flow R m r) :
    Passes lax (fun _ => True) (Flow.value <$> m) (Raising.caught r) := by
  intro e he
  obtain ⟨hr, hs, -, hh⟩ := hm e he
  rw [map_eq_pure_bind, bind_apply]
  simp only [Raising.caught, hr]
  rcases hme : m e with ⟨_ | (v | v), e'⟩ <;> rw [hme] at hs hh
  all_goals refine ⟨rfl, hs, fun _ _ => trivial, fun h hx => ?_⟩
  all_goals cases hx
  exact hh _ rfl

end Mirrors

section Trees
variable {laps : Nat} {serve serve' : Call → Run Value} {scope : ScopeId}

theorem loop_mirrors {test : Run Value} {body : Run Flow} {advance : Run Unit}
    {test' body' : Raising Value} {advance' : Raising Unit}
    (ht : Mirrors lax Signal.plain (fun _ => True) test test')
    (hb : Mirrors lax Signal.flow (fun _ => True) body body')
    (ha : Mirrors lax Signal.plain (fun _ => True) advance advance') (laps : Nat) (last : Value) :
    Mirrors lax Signal.flow (fun _ => True) (Run.loop test body advance laps last)
      (Raising.loop test' body' advance' laps last) := by
  induction laps generalizing last with
  | zero =>
    refine fun e he => ⟨rfl, he, fun _ _ => trivial, fun h hh => ?_⟩
    cases hh
    trivial
  | succ laps ih =>
    refine ht.bind_plain_flow fun v _ => Mirrors.ite ?_ (Mirrors.completed_weak last)
    exact hb.bind_flow (fun v => ha.bind_plain_flow fun _ _ => ih v) fun v => rfl

theorem evalAll_mirrors {nodes : List Node}
    (h : ∀ node ∈ nodes, Mirrors lax Signal.flow Flow.IsCompleted (Run.exec laps serve scope node)
      (Raising.eval laps serve' scope node)) :
    Mirrors lax Signal.plain (fun _ => True) (Run.evalAll laps serve scope nodes)
      (Raising.evalAll laps serve' scope nodes) := by
  induction nodes with
  | nil => exact .pure_plain trivial
  | cons node nodes ih =>
    have hrest := ih fun n hn => h n (List.mem_cons_of_mem _ hn)
    exact ((h node List.mem_cons_self).value scope node).bind_plain fun v _ =>
      hrest.bind_plain fun vs _ => .pure_plain trivial

theorem exec_mirrors_of_isExpression (hserve : ServesAlike lax serve serve') {node : Node}
    (h : node.IsExpression) :
    Mirrors lax Signal.flow Flow.IsCompleted (Run.exec laps serve scope node)
      (Raising.eval laps serve' scope node) := by
  induction h with
  | literal v => exact .completed v
  | path name => exact (Mirrors.lift (Run.readPath_passes scope name)).complete
  | assign path _ ih =>
    exact (ih.value _ _).bind_plain_flow fun v _ =>
      (Mirrors.lift (Run.assign_passes scope path v)).bind_plain_flow fun _ _ => .completed v
  | @binary op left right hop _ _ ihl ihr =>
    exact (ihl.value _ _).bind_plain_flow fun a _ =>
      (Mirrors.completed _).ite <| (Mirrors.completed _).ite <|
        (ihr.value _ _).bind_plain_flow fun b _ => Mirrors.get_raising.bind_plain_flow fun e _ =>
          (Mirrors.lift (.ofExcept (admissible_combine hop e.objects a b) fun _ _ => trivial)).complete
  | @unary op operand hop _ ih =>
    exact (ih.value _ _).bind_plain_flow fun v _ => Mirrors.get_raising.bind_plain_flow fun e _ =>
      (Mirrors.lift (.ofExcept (admissible_applyUnary hop e.objects v) fun _ _ => trivial)).complete
  | @call name args _ ih =>
    simp only [Run.execWith, Raising.eval]
    refine Mirrors.get_raising.bind_plain_flow fun e he => ?_
    cases hf : e.functions.get? name with
    | none =>
      refine fun e he => ⟨rfl, he, fun _ h => (by cases h), fun h hh => ?_⟩
      cases hh
      trivial
    | some f =>
      exact (evalAll_mirrors ih).bind_plain_flow fun vs _ =>
        (Mirrors.lift (hserve (.invoke f vs) (he.function hf))).complete

theorem execAll_mirrors {nodes : List Node}
    (h : ∀ node ∈ nodes, Mirrors lax Signal.flow (fun _ => True) (Run.exec laps serve scope node)
      (Raising.eval laps serve' scope node)) (last : Value) :
    Mirrors lax Signal.flow (fun _ => True) (Run.execAll laps serve scope nodes last)
      (Raising.evalLast laps serve' scope nodes last) := by
  induction nodes generalizing last with
  | nil => exact .completed_weak last
  | cons node nodes ih =>
    have hrest := ih fun n hn => h n (List.mem_cons_of_mem _ hn)
    exact (h node List.mem_cons_self).bind_flow hrest fun _ => rfl

theorem exec_mirrors (hserve : ServesAlike lax serve serve') {node : Node} (h : node.IsStatement) :
    Mirrors lax Signal.flow (fun _ => True) (Run.exec laps serve scope node)
      (Raising.eval laps serve' scope node) := by
  have hexpr {x : Node} (hx : x.IsExpression) :
      Mirrors lax Signal.flow Flow.IsCompleted (Run.exec laps serve scope x)
        (Raising.eval laps serve' scope x) := exec_mirrors_of_isExpression hserve hx
  have hvalue {x : Node} (hx : x.IsExpression) :
      Mirrors lax Signal.plain (fun _ => True)
        (Run.valueOf scope x (Run.exec laps serve scope x)) (Raising.eval laps serve' scope x) :=
    (hexpr hx).value scope x
  induction h with
  | expression h => exact (hexpr h).mono fun _ _ => trivial
  | block _ ih => exact execAll_mirrors ih .null
  | @branch condition yes no hc _ _ hy hn =>
    cases no with
    | none => exact (hvalue hc).bind_plain_flow fun v _ => hy.ite (.completed_weak .null)
    | some node => exact (hvalue hc).bind_plain_flow fun v _ => hy.ite (hn node rfl)
  | whileLoop hc _ ih => exact loop_mirrors (hvalue hc) ih (.pure_plain trivial) laps .null
  | forLoop hi hc hs _ ih =>
    refine (hvalue hi).bind_plain_flow fun _ _ => loop_mirrors (hvalue hc) ih ?_ laps .null
    exact (hvalue hs).bind_plain fun _ _ => .pure_plain trivial
  | functionDef name params hb _ =>
    exact (Mirrors.lift (Run.defineFunction_passes name params hb scope)).bind_plain_flow
      fun _ _ => .completed_weak .null
  | returnWith hv => exact (hvalue hv).bind_plain_flow fun v _ => .returned v
  | handler cue hb _ =>
    exact (Mirrors.lift (Run.registerHandler_passes cue.event hb)).bind_plain_flow
      fun _ _ => .completed_weak .null
  | trigger event hargs =>
    exact (evalAll_mirrors fun arg ha => hexpr (hargs arg ha)).bind_plain_flow fun vs _ =>
      (Mirrors.lift (hserve (.trigger event vs) trivial)).bind_plain_flow
        fun _ _ => .completed_weak .null

theorem execFresh_mirrors (hserve : ServesAlike lax serve serve') {nodes : List Node}
    (h : ∀ node ∈ nodes, node.IsStatement) (last : Value) :
    Mirrors lax Signal.flow (fun _ => True)
      (Run.inTurn (fun node => do Run.exec laps serve scope (← Run.newTree node)) nodes last)
      (Raising.evalFresh laps serve' scope nodes last) := by
  induction nodes generalizing last with
  | nil => exact .completed_weak last
  | cons node nodes ih =>
    have hrest := ih fun n hn => h n (List.mem_cons_of_mem _ hn)
    have hnode : Mirrors lax Signal.flow (fun _ => True)
        (do Run.exec laps serve scope (← Run.newTree node))
        (do Raising.eval laps serve' scope (← Raising.lift (Run.newTree node))) :=
      Mirrors.bind_plain_flow (.lift (Run.newTree_passes (h node List.mem_cons_self)))
        fun marked hmarked => exec_mirrors hserve hmarked
    simp only [Run.inTurn, Raising.evalFresh, bind_assoc]
    rw [← bind_assoc]
    exact hnode.bind_flow hrest fun _ => rfl

end Trees

theorem Raising.alike : Manner.plain.Alike lax Raising.manner where
  root hserve _ _ h := (exec_mirrors hserve h).caught
  source hserve _ _ h := (execFresh_mirrors hserve h .null).caught
  ended hm := hm

end Parlance
