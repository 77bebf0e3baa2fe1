import Parlance.Files.Load

/-! A manner of running code on guard. Where a value is wanted and a statement stands, and where code
has ended with an operator that has no meaning, something else is done: whatever the guard says. Code
that never gets to such a place runs under every guard as it runs without one. -/

namespace Parlance

def Node.hasValue : Node → Bool
  | .literal _ | .path _ | .assign .. | .binary .. | .unary .. | .call .. => true
  | _ => false

/-- What is done in the places that code should never get to. -/
structure Guard where
  stray : ScopeId → Node → Run Value
  /-- A call, a handler or a script has ended with an operator that has no meaning. -/
  unknown : String → Run Value

namespace Guard
variable (g : Guard)

def value (scope : ScopeId) (node : Node) (run : Run Flow) : Run Value :=
  if node.hasValue then Flow.value <$> run else g.stray scope node

def watch (m : Run Value) : Run Value := fun e =>
  match m e with
  | (.error (.fault (.unknownOperator t)), e) => g.unknown t e
  | ended => ended

def manner : Manner where
  root laps serve scope node := g.watch (Flow.value <$> Run.execWith g.value laps serve scope node)
  source laps serve scope nodes :=
    g.watch (Flow.value <$> Run.execFreshWith g.value laps serve scope nodes)
  ended := g.watch

example (laps : Nat) (serve : Call → Run Value) (scope : ScopeId) (statements : List Node) :
    Run.execWith g.value laps serve scope (.returnWith (.block statements)) = (do
      let v ← g.stray scope (.block statements)
      return .returned v) := rfl

end Guard
end Parlance
