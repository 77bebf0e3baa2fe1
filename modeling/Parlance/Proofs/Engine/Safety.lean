import Parlance.Proofs.Engine.Alike
import Parlance.Proofs.Engine.Guarded

/-! No run gets to a place that is guarded. The trees in the tables of the engine are well formed, and
the routines of the host do not fail by an unknown operator unless they were answered so. Both have to
be shown together: a call is only as good as what is stored. -/

namespace Parlance

section Trees
variable {lax : Prop} {value value' : ScopeId → Node → Run Flow → Run Value} {laps : Nat}
  {serve serve' : Call → Run Value} {scope : ScopeId}

def ValuesAlike (lax : Prop) (value value' : ScopeId → Node → Run Flow → Run Value) : Prop :=
  ∀ (scope : ScopeId) (node : Node) (m r : Run Flow), node.IsExpression →
    Passes lax (fun _ => True) m r →
    Passes lax (fun _ => True) (value scope node m) (value' scope node r)

theorem loop_passes {test test' : Run Value} {body body' : Run Flow} {advance advance' : Run Unit}
    (ht : Passes lax (fun _ => True) test test') (hb : Passes lax (fun _ => True) body body')
    (ha : Passes lax (fun _ => True) advance advance') (laps : Nat) (last : Value) :
    Passes lax (fun _ => True) (Run.loop test body advance laps last)
      (Run.loop test' body' advance' laps last) := by
  induction laps generalizing last with
  | zero => exact .exhausted
  | succ laps ih =>
    refine ht.bind fun v _ => Mirrors.ite (hb.bind fun flow _ => ?_) (Passes.pure trivial)
    cases flow with
    | completed v => exact ha.bind fun _ _ => ih v
    | returned v => exact .pure trivial

theorem evalAll_passes (hvalue : ValuesAlike lax value value') {nodes : List Node}
    (hnodes : ∀ node ∈ nodes, node.IsExpression)
    (h : ∀ node ∈ nodes, Passes lax (fun _ => True) (Run.execWith value laps serve scope node)
      (Run.execWith value' laps serve' scope node)) :
    Passes lax (fun _ => True) (Run.evalAllWith value laps serve scope nodes)
      (Run.evalAllWith value' laps serve' scope nodes) := by
  induction nodes with
  | nil => exact .pure trivial
  | cons node nodes ih =>
    have hrest := ih (fun n hn => hnodes n (List.mem_cons_of_mem _ hn)) fun n hn =>
      h n (List.mem_cons_of_mem _ hn)
    have hfirst := hvalue scope node _ _ (hnodes node List.mem_cons_self) (h node List.mem_cons_self)
    exact hfirst.bind fun _ _ => hrest.bind fun _ _ => .pure trivial

theorem exec_passes_of_isExpression (hvalue : ValuesAlike lax value value')
    (hserve : ServesAlike lax serve serve') {node : Node} (h : node.IsExpression) :
    Passes lax (fun _ => True) (Run.execWith value laps serve scope node)
      (Run.execWith value' laps serve' scope node) := by
  induction h with
  | literal v => exact .pure trivial
  | path name => exact (Run.readPath_passes scope name).bind fun _ _ => .pure trivial
  | assign path hv ih =>
    exact Passes.bind (hvalue scope _ _ _ hv ih) fun v _ =>
      (Run.assign_passes scope path v).bind fun _ _ => .pure trivial
  | @binary op left right hop hl hr ihl ihr =>
    refine Passes.bind (hvalue scope _ _ _ hl ihl) fun a _ => ?_
    refine Mirrors.ite (Passes.pure trivial) (Mirrors.ite (Passes.pure trivial) ?_)
    refine Passes.bind (hvalue scope _ _ _ hr ihr) fun b _ => Passes.get.bind fun e _ => ?_
    exact (Passes.ofExcept (admissible_combine hop e.objects a b) fun _ _ => trivial).bind
      fun _ _ => .pure trivial
  | @unary op operand hop hv ih =>
    refine Passes.bind (hvalue scope _ _ _ hv ih) fun v _ => Passes.get.bind fun e _ => ?_
    exact (Passes.ofExcept (admissible_applyUnary hop e.objects v) fun _ _ => trivial).bind
      fun _ _ => .pure trivial
  | @call name args hargs ih =>
    simp only [Run.execWith]
    refine Passes.get.bind fun e he => ?_
    cases hf : e.functions.get? name with
    | none => exact .fail trivial
    | some f =>
      refine (evalAll_passes hvalue hargs ih).bind fun vs _ => ?_
      exact (hserve (.invoke f vs) (he.function hf)).bind fun _ _ => .pure trivial

theorem exec_passes (hvalue : ValuesAlike lax value value') (hserve : ServesAlike lax serve serve')
    {node : Node} (h : node.IsStatement) :
    Passes lax (fun _ => True) (Run.execWith value laps serve scope node)
      (Run.execWith value' laps serve' scope node) := by
  have hexpr {x : Node} (hx : x.IsExpression) :
      Passes lax (fun _ => True) (Run.execWith value laps serve scope x)
        (Run.execWith value' laps serve' scope x) :=
    exec_passes_of_isExpression hvalue hserve hx
  have htest {x : Node} (hx : x.IsExpression) :
      Passes lax (fun _ => True) (value scope x (Run.execWith value laps serve scope x))
        (value' scope x (Run.execWith value' laps serve' scope x)) :=
    hvalue scope x _ _ hx (hexpr hx)
  induction h with
  | expression h => exact hexpr h
  | block _ ih =>
    simp only [Run.execWith, Run.execAllWith_eq_inTurn]
    exact Run.inTurn_passes ih .null
  | @branch condition yes no hc _ _ hy hn =>
    cases no with
    | none => exact (htest hc).bind fun _ _ => Mirrors.ite hy (Passes.pure trivial)
    | some node => exact (htest hc).bind fun _ _ => Mirrors.ite hy (hn node rfl)
  | whileLoop hc _ ih => exact loop_passes (htest hc) ih (.pure trivial) laps .null
  | forLoop hi hc ha _ ih =>
    refine (htest hi).bind fun _ _ => loop_passes (htest hc) ih ?_ laps .null
    exact (htest ha).bind fun _ _ => .pure trivial
  | functionDef name params hb _ =>
    -- the body is stored as it stands, and whoever calls the function relies on it
    exact (Run.defineFunction_passes name params hb scope).bind fun _ _ => .pure trivial
  | returnWith hv => exact (htest hv).bind fun _ _ => .pure trivial
  | handler cue hb _ =>
    exact (Run.registerHandler_passes cue.event hb).bind fun _ _ => .pure trivial
  | trigger event hargs =>
    exact (evalAll_passes hvalue hargs fun arg ha => hexpr (hargs arg ha)).bind fun vs _ =>
      (hserve (.trigger event vs) trivial).bind fun _ _ => .pure trivial

theorem execFresh_passes (hvalue : ValuesAlike lax value value') (hserve : ServesAlike lax serve serve')
    {nodes : List Node} (h : ∀ node ∈ nodes, node.IsStatement) :
    Passes lax (fun _ => True) (Run.execFreshWith value laps serve scope nodes)
      (Run.execFreshWith value' laps serve' scope nodes) :=
  Run.inTurn_passes (fun node hnode => (Run.newTree_passes (h node hnode)).bind fun _ hmarked =>
    exec_passes hvalue hserve hmarked) .null

end Trees

namespace Guard
variable (g : Guard)

theorem watch_passes {Q : Value → Prop} {m r : Run Value} (hm : Passes False Q m r) :
    Passes False Q m (g.watch r) := by
  intro e he
  obtain ⟨-, hs, hq, hh⟩ := hm e he
  refine ⟨?_, hs, hq, hh⟩
  unfold Guard.watch
  rw [hm.apply_eq he]
  split
  · next t e₁ hme =>
    rw [hme] at hh
    exact absurd (hh _ rfl) id
  · rfl

theorem valuesAlike : ValuesAlike False Run.valueOf g.value := by
  intro scope node m r hnode hm
  have hvalue : g.value scope node r = Flow.value <$> r := by
    cases hnode <;> rfl
  rw [hvalue]
  exact hm.map

theorem alike : Manner.plain.Alike False g.manner where
  root hserve _ _ h := g.watch_passes (exec_passes g.valuesAlike hserve h).map
  source hserve _ _ h := g.watch_passes (execFresh_passes g.valuesAlike hserve h).map
  ended hm := g.watch_passes hm

end Guard
end Parlance
