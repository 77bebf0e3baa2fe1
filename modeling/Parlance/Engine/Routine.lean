import Parlance.Fault
import Parlance.Scope
import Parlance.Value.Object

/-! Routines of the host. A routine is a program that may put requests to the engine and goes on
with their answers, so the engine alone decides what a host can do while scripts run. -/

namespace Parlance

inductive Level where
  | debug
  | info
  | warning
  | error
  deriving Repr, DecidableEq

inductive Channel where
  | output
  | alert
  | log (level : Level)
  deriving Repr, DecidableEq

structure Parameter where
  name : String
  typeName : String
  optional : Bool := false
  /-- What an optional parameter gets when its argument is left out. -/
  default : Value := .null

/-- A script that can be told apart from every other one, even from one with the same tree. -/
structure Script where
  id : Nat
  root : Node

/-- What a routine can ask of the engine. Everything else is out of its reach: it sees no scope, also
none that it was made in, it defines no function, type or phrase, and it adds no handler. -/
inductive Request where
  | call (function : String) (args : List Value)
  | trigger (event : String) (args : List Value)
  | execute (source : String)
  | declareEvent (name : String) (parameters : List Parameter)
  | removeHandler (event : String) (script : Script) (scope : ScopeId)
  | flush
  | handlerCount (event : String)
  | readGlobal (name : String)
  | writeGlobal (name : String) (v : Value)
  | report (channel : Channel) (message : String)
  | objects
  | addObject (o : HostObject)
  | changeObject (id : ObjectId) (o : HostObject)
  /-- A number from zero up to, but not including, one. -/
  | random
  /-- The routine breaks down, and everything that runs with it. -/
  | breakDown

/-- What the engine answers. A fault of the script code that was run is an answer too. -/
def Request.Answer : Request → Type
  | call .. => Except Fault Value
  | trigger .. => Except Fault Unit
  | execute _ => Except Fault Value
  | declareEvent .. => Unit
  | removeHandler .. => Bool
  | flush => Unit
  | handlerCount _ => Nat
  | readGlobal _ => Option Value
  | writeGlobal .. => Unit
  | report .. => Unit
  | objects => Objects
  | addObject _ => ObjectId
  | changeObject .. => Unit
  | random => Float
  | breakDown => Empty

inductive Routine (α : Type) where
  | done (a : α)
  | ask (request : Request) (next : request.Answer → Routine α)

namespace Routine
variable {α β : Type}

def bind : Routine α → (α → Routine β) → Routine β
  | done a, f => f a
  | ask request next, f => ask request fun answer => (next answer).bind f

instance : Monad Routine where
  pure := done
  bind := bind

def request (q : Request) : Routine q.Answer := ask q done

end Routine

abbrev Native := List Value → Routine (Except Fault Value)

end Parlance
