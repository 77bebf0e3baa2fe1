import Parlance.Engine.Run

/-! A second manner of running code, in which a `return` is an exception. It flies past everything around
it and is caught in three places only: where a script begins, where a function is called and where a
handler runs. No form of statement has to pass it on. -/

namespace Parlance

/-- What ends an evaluation before it has a value: a `return`, or what ends the whole run. -/
inductive Signal where
  | returned (v : Value)
  | halted (h : Halt)

/-- An evaluation that a signal can interrupt. The changes made until then stay. -/
abbrev Raising := ExceptT Signal (StateM Engine)

namespace Raising
variable {α : Type}

def lift (m : Run α) : Raising α := fun e =>
  match m e with
  | (.ok a, e) => (.ok a, e)
  | (.error h, e) => (.error (.halted h), e)

/-- A boundary, which turns a `return` inside into a value. -/
def caught (m : Raising Value) : Run Value := fun e =>
  match m e with
  | (.ok v, e) => (.ok v, e)
  | (.error (.returned v), e) => (.ok v, e)
  | (.error (.halted h), e) => (.error h, e)

def loop (test body : Raising Value) (advance : Raising Unit) : Nat → Value → Raising Value
  | 0, _ => throw (.halted .exhausted)
  | laps + 1, last => do
    if (← test).truthy then
      let v ← body
      advance
      loop test body advance laps v
    else return last

section Trees
variable (laps : Nat) (serve : Call → Run Value)

mutual
def eval (scope : ScopeId) : Node → Raising Value
  | .literal v => return v
  | .path name => lift (Run.readPath scope name)
  | .assign path value => do
    let v ← eval scope value
    lift (Run.assign scope path v)
    return v
  | .binary op left right => do
    let a ← eval scope left
    if op == .and && !a.truthy then return .bool false
    else if op == .or && a.truthy then return .bool true
    else
      let b ← eval scope right
      lift (Run.ofExcept (a.combine (← get).objects op b))
  | .unary op operand => do
    let v ← eval scope operand
    lift (Run.ofExcept (v.applyUnary (← get).objects op))
  | .block statements => evalLast scope statements .null
  | .branch condition yes no => do
    if (← eval scope condition).truthy then eval scope yes
    else
      match no with
      | some node => eval scope node
      | none => return .null
  | .whileLoop condition body =>
    loop (eval scope condition) (eval scope body) (pure ()) laps .null
  | .forLoop init condition advance body => do
    let _ ← eval scope init
    loop (eval scope condition) (eval scope body) (do let _ ← eval scope advance) laps .null
  | .functionDef name params body => do
    lift (modify (·.defineFunction (.ofScript name params body scope)))
    return .null
  | .returnWith value => do
    let v ← eval scope value
    throw (.returned v)
  | .call name args => do
    match (← get).functions.get? name with
    | none => lift (Run.fail (.unknownFunction name))
    | some f =>
      let vs ← evalAll scope args
      lift (serve (.invoke f vs))
  | .handler cue body => do
    lift (Run.registerHandler cue.event ⟨⟨cue.mark, body⟩, scope⟩)
    return .null
  | .trigger event args => do
    let vs ← evalAll scope args
    let _ ← lift (serve (.trigger event vs))
    return .null
def evalLast (scope : ScopeId) : List Node → Value → Raising Value
  | [], last => return last
  | node :: rest, _ => do
    let v ← eval scope node
    evalLast scope rest v
def evalAll (scope : ScopeId) : List Node → Raising (List Value)
  | [] => return []
  | node :: rest => do
    let v ← eval scope node
    let vs ← evalAll scope rest
    return v :: vs
end

def evalFresh (scope : ScopeId) : List Node → Value → Raising Value
  | [], last => return last
  | node :: rest, _ => do
    let v ← eval laps serve scope (← lift (Run.newTree node))
    evalFresh scope rest v

end Trees

/-- The body of a function, the script of a handler and a script each begin at a root. -/
def manner : Manner where
  root laps serve scope node := caught (eval laps serve scope node)
  source laps serve scope nodes := caught (evalFresh laps serve scope nodes .null)

abbrev script (allowance : Nat) : Script → ScopeId → Run Value := manner.script allowance

end Raising
end Parlance
