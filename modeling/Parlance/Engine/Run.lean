import Parlance.Engine.Basic
import Parlance.Engine.Operator

/-! Running trees. Running is by recursion on the tree; what leaves the tree (a function call, an
event, a piece of source) goes through `serve`, and only there the allowance counts down. What calls
and events do is the same however trees are run, so it is said for any manner of running them. -/

namespace Parlance

/-- How a node ended: in the ordinary way, or by a `return`, which ends every node around it up to
the function, script or handler. -/
inductive Flow where
  | completed (v : Value)
  | returned (v : Value)

def Flow.value : Flow → Value
  | .completed v => v
  | .returned v => v

inductive Call where
  | invoke (f : Function) (args : List Value)
  | trigger (event : String) (args : List Value)
  | execute (source : String)

def segments (path : String) : List String := (Text.split '.' path.toList).map String.ofList

namespace Engine

def resolve (e : Engine) (scope : ScopeId) : List String → Except Fault Value
  | [] => .error (.undefinedVariable "")
  | root :: members =>
    match e.lookup? scope root with
    | none => .error (.undefinedVariable root)
    | some v => members.foldlM (Value.readMember e.objects) v

/-- Converts arguments to the types of their parameters; the first that cannot be decides. -/
def coerceAll (e : Engine) : List (Parameter × Value) → Except Fault (List Value)
  | [] => .ok []
  | (p, v) :: rest =>
    match e.types.get? p.typeName with
    | none => .error (.unknownType p.typeName p.name)
    | some t =>
      match t.coerce e.objects v with
      | .error cause => .error (.typeCoercion p.name (v.display e.objects none) p.typeName cause)
      | .ok v =>
        match e.coerceAll rest with
        | .error fault => .error fault
        | .ok vs => .ok (v :: vs)

end Engine

def Function.required (f : Function) : Nat := (f.parameters.filter (!·.optional)).length

/-- The values that a call binds to the parameters: the arguments, then the defaults of the
parameters that are left, all converted. -/
def Function.bindings (f : Function) (e : Engine) (args : List Value) : Except Fault (List Value) :=
  if args.length < f.required then .error (.tooFewArguments f.name f.required args.length)
  else if f.parameters.length < args.length then
    .error (.tooManyArguments f.name f.parameters.length args.length)
  else
    let defaults := (f.parameters.drop args.length).map (·.default)
    e.coerceAll (f.parameters.zip (args ++ defaults))

namespace Run

/-- Repeats `body` and then `advance` as long as `test` holds; `laps` bounds how often. Without a
`return` the value is that of the last body. -/
def loop (test : Run Value) (body : Run Flow) (advance : Run Unit) : Nat → Value → Run Flow
  | 0, _ => throw .exhausted
  | laps + 1, last => do
    if (← test).truthy then
      match ← body with
      | .completed v =>
        advance
        loop test body advance laps v
      | .returned v => return .returned v
    else return .completed last

def readPath (scope : ScopeId) (path : String) : Run Value := do
  ofExcept ((← get).resolve scope (segments path))

def assign (scope : ScopeId) (path : String) (v : Value) : Run Unit :=
  match segments path with
  | [] | [_] => modify fun e => { e with scopes := e.scopes.set scope path v }
  | names => do
    let owner ← ofExcept ((← get).resolve scope names.dropLast)
    let objects ← ofExcept (owner.writeMember (← get).objects (names.getLastD "") v)
    modify fun e => { e with objects }

def newScope (parent : Option ScopeId) : Run ScopeId := step (·.addScope parent)

def newScript (root : Node) : Run Script := step (·.addScript root)

def newTree (node : Node) : Run Node := step (·.mark node)

def registerHandler (event : String) (handler : Handler) : Run Unit := do
  set (← ofExcept ((← get).registerHandler event handler))

def report (channel : Channel) (message : String) : Run Unit := modify (·.report channel message)

/-- Runs statements in a row, up to a `return`. Without one the value is that of the last, or `last`
if there is none. -/
def inTurn (run : Node → Run Flow) : List Node → Value → Run Flow
  | [], last => return .completed last
  | node :: rest, _ => do
    match ← run node with
    | .completed v => inTurn run rest v
    | .returned v => return .returned v

section Trees
variable (value : ScopeId → Node → Run Flow → Run Value) (laps : Nat) (serve : Call → Run Value)

mutual
/-- Runs a node in a scope. Where the value of a node inside is wanted, `value` gets the node and its
run. -/
def execWith (scope : ScopeId) : Node → Run Flow
  | .literal v => return .completed v
  | .path name => return .completed (← readPath scope name)
  | .assign path node => do
    let v ← value scope node (execWith scope node)
    assign scope path v
    return .completed v
  | .binary op left right => do
    let a ← value scope left (execWith scope left)
    if op == .and && !a.truthy then return .completed (.bool false)
    else if op == .or && a.truthy then return .completed (.bool true)
    else
      let b ← value scope right (execWith scope right)
      return .completed (← ofExcept (a.combine (← get).objects op b))
  | .unary op operand => do
    let v ← value scope operand (execWith scope operand)
    return .completed (← ofExcept (v.applyUnary (← get).objects op))
  | .block statements => execAllWith scope statements .null
  | .branch condition yes no => do
    if (← value scope condition (execWith scope condition)).truthy then execWith scope yes
    else
      match no with
      | some node => execWith scope node
      | none => return .completed .null
  | .whileLoop condition body =>
    loop (value scope condition (execWith scope condition)) (execWith scope body) (pure ()) laps .null
  | .forLoop init condition advance body => do
    let _ ← value scope init (execWith scope init)
    loop (value scope condition (execWith scope condition)) (execWith scope body)
      (do let _ ← value scope advance (execWith scope advance)) laps .null
  | .functionDef name params body => do
    modify (·.defineFunction (.ofScript name params body scope))
    return .completed .null
  | .returnWith node => do
    let v ← value scope node (execWith scope node)
    return .returned v
  | .call name args => do
    match (← get).functions.get? name with
    | none => fail (.unknownFunction name)
    | some f =>
      let vs ← evalAllWith scope args
      return .completed (← serve (.invoke f vs))
  | .handler cue body => do
    registerHandler cue.event ⟨⟨cue.mark, body⟩, scope⟩
    return .completed .null
  | .trigger event args => do
    let vs ← evalAllWith scope args
    let _ ← serve (.trigger event vs)
    return .completed .null
def execAllWith (scope : ScopeId) : List Node → Value → Run Flow
  | [], last => return .completed last
  | node :: rest, _ => do
    match ← execWith scope node with
    | .completed v => execAllWith scope rest v
    | .returned v => return .returned v
def evalAllWith (scope : ScopeId) : List Node → Run (List Value)
  | [] => return []
  | node :: rest => do
    let v ← value scope node (execWith scope node)
    let vs ← evalAllWith scope rest
    return v :: vs
end

/-- Runs the statements of a source, each of which gets its marks when its turn comes. -/
def execFreshWith (scope : ScopeId) (statements : List Node) : Run Flow :=
  inTurn (fun node => do execWith value laps serve scope (← newTree node)) statements .null

end Trees

def valueOf (_ : ScopeId) (_ : Node) (run : Run Flow) : Run Value := Flow.value <$> run

variable (laps : Nat) (serve : Call → Run Value)

abbrev exec (scope : ScopeId) : Node → Run Flow := execWith valueOf laps serve scope

abbrev execAll (scope : ScopeId) : List Node → Value → Run Flow := execAllWith valueOf laps serve scope

abbrev evalAll (scope : ScopeId) : List Node → Run (List Value) := evalAllWith valueOf laps serve scope

abbrev execFresh (scope : ScopeId) : List Node → Run Flow := execFreshWith valueOf laps serve scope

/-- Runs a whole tree; its boundary turns a `return` into a value. -/
def execRoot (scope : ScopeId) (root : Node) : Run Value := Flow.value <$> exec laps serve scope root

def execSource (scope : ScopeId) (statements : List Node) : Run Value :=
  Flow.value <$> execFresh laps serve scope statements

def answer : (q : Request) → Run q.Answer
  | .call name args => attempt do
    match (← get).functions.get? name with
    | none => fail (.unknownFunction name)
    | some f => serve (.invoke f args)
  | .trigger event args => attempt do
    let _ ← serve (.trigger event args)
  | .execute source => attempt (serve (.execute source))
  | .declareEvent name parameters => modify (·.registerEvent name parameters)
  | .removeHandler event script scope => step fun e => (e.unregisterHandler event script scope).swap
  | .flush => modify Engine.flush
  | .handlerCount event => return (← get).handlerCount event
  | .readGlobal name => return (← get).globals.get? name
  | .writeGlobal name v => modify (·.setGlobal name v)
  | .report channel message => report channel message
  | .objects => return (← get).objects
  | .addObject o => step (·.addObject o)
  | .changeObject id o => modify (·.changeObject id o)
  | .random => step Engine.draw
  | .breakDown => throw .exhausted

def runRoutine {α : Type} : Routine α → Run α
  | .done a => return a
  | .ask q next => do
    let a ← answer serve q
    runRoutine (next a)

/-- Opens a scope inside the one where a function was defined, with its parameters as variables. -/
def openFrame (closure : ScopeId) (parameters : List Parameter) (vs : List Value) :
    Run ScopeId := do
  let frame ← newScope (some closure)
  modify fun e => { e with scopes := e.scopes.setAll frame ((parameters.map (·.name)).zip vs) }
  return frame

end Run

/-- The statements of a source, which is read as a block. -/
def Node.statements : Node → List Node
  | .block statements => statements
  | node => [node]

/-- A manner of running code: a tree that stands by itself, and a source that was read. Whatever a call
comes to passes through `ended`. -/
structure Manner where
  root : Nat → (Call → Run Value) → ScopeId → Node → Run Value
  source : Nat → (Call → Run Value) → ScopeId → List Node → Run Value
  ended : Run Value → Run Value := id

namespace Manner
variable (w : Manner)

section Calls
variable (laps : Nat) (serve : Call → Run Value)
open Run (ofExcept fail attempt newScope)

def runBody (f : Function) (vs : List Value) : Run Value :=
  match f.body with
  | .native routine => do
    ofExcept (← Run.runRoutine serve (routine vs))
  | .script body closure => do
    let frame ← Run.openFrame closure f.parameters vs
    w.root laps serve frame body

def invoke (f : Function) (args : List Value) : Run Value := do
  let vs ← ofExcept (f.bindings (← get) args)
  w.runBody laps serve f vs

/-- Runs handlers one after the other, each with the arguments in its scope. A fault in one is
logged and does not stop the others. -/
def runHandlers (event : String) (bindings : List (String × Value)) : List Handler → Run Unit
  | [] => return ()
  | h :: rest => do
    modify fun e => { e with scopes := e.scopes.setAll h.scope bindings }
    match ← attempt (w.root laps serve h.scope h.script.root) with
    | .ok _ => pure ()
    | .error f => Run.report (.log .error) s!"handler for event `{event}` failed: {f.message}"
    runHandlers event bindings rest

/-- Runs the handlers that an event has at this moment. -/
def trigger (name : String) (args : List Value) : Run Unit := do
  match (← get).events.get? name with
  | none => fail (.unknownEvent name)
  | some event =>
    if args.length ≠ event.parameters.length then
      fail (.argumentCountMismatch name event.parameters.length args.length)
    else
      modify (·.trace "triggering event"
        [("event", Text.quoted name), ("handlers", toString event.handlers.length)])
      w.runHandlers laps serve name ((event.parameters.map (·.name)).zip args) event.handlers

/-- Runs a source in a scope, or in a new one with nothing around it if none is given. -/
def execute (text : String) (scope? : Option ScopeId) : Run Value := do
  let root ← ofExcept ((← get).parse text)
  let scope ← match scope? with
    | some scope => pure scope
    | none => newScope none
  w.source laps serve scope root.statements

def perform : Call → Run Value
  | .invoke f args => w.invoke laps serve f args
  | .trigger event args => do
    w.trigger laps serve event args
    return .null
  | .execute source => w.execute laps serve source none

end Calls

/-- Serves a call. The allowance bounds how deep calls nest and how many laps each loop runs. -/
def serve : Nat → Call → Run Value
  | 0, _ => throw .exhausted
  | allowance + 1, call => w.ended (w.perform allowance (serve allowance) call)

variable (allowance : Nat)

def script (s : Script) (scope : ScopeId) : Run Value :=
  w.root allowance (w.serve allowance) scope s.root

def function (name : String) (args : List Value) : Run Value := do
  match (← get).functions.get? name with
  | none => Run.fail (.unknownFunction name)
  | some f => w.serve allowance (.invoke f args)

def event (name : String) (args : List Value) : Run Unit := do
  let _ ← w.serve allowance (.trigger name args)

end Manner

/-- The manner in which engines run code: a `return` is passed on from node to node. -/
def Manner.plain : Manner where
  root := Run.execRoot
  source := Run.execSource

abbrev serve : Nat → Call → Run Value := Manner.plain.serve

namespace Run

section Calls
variable (laps : Nat) (serve : Call → Run Value)

abbrev runBody : Function → List Value → Run Value := Manner.plain.runBody laps serve

abbrev invoke : Function → List Value → Run Value := Manner.plain.invoke laps serve

abbrev runHandlers : String → List (String × Value) → List Handler → Run Unit :=
  Manner.plain.runHandlers laps serve

abbrev trigger : String → List Value → Run Unit := Manner.plain.trigger laps serve

abbrev perform : Call → Run Value := Manner.plain.perform laps serve

end Calls

abbrev script (allowance : Nat) : Script → ScopeId → Run Value := Manner.plain.script allowance

abbrev source (allowance : Nat) : String → Option ScopeId → Run Value :=
  Manner.plain.execute allowance (Parlance.serve allowance)

abbrev function (allowance : Nat) : String → List Value → Run Value := Manner.plain.function allowance

abbrev event (allowance : Nat) : String → List Value → Run Unit := Manner.plain.event allowance

end Run
end Parlance
