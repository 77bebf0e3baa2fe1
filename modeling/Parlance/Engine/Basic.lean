import Parlance.Engine.Routine
import Parlance.Scope
import Parlance.Script.Mark
import Parlance.Source
import Parlance.Value.Coerce

/-! The engine that scripts run against: its tables of functions, types and events, the global
variables, the scopes and objects in use, and a journal of what was reported. -/

namespace Parlance

inductive FunctionBody where
  | native (run : Native)
  | script (body : Node) (closure : ScopeId)

structure Function where
  name : String
  parameters : List Parameter
  body : FunctionBody

/-- A function that a script defines takes anything, and every argument is required. -/
def Function.ofScript (name : String) (params : List String) (body : Node) (closure : ScopeId) :
    Function :=
  ⟨name, params.map fun p => { name := p, typeName := "object" }, .script body closure⟩

structure Handler where
  script : Script
  scope : ScopeId

structure Event where
  name : String
  parameters : List Parameter
  handlers : List Handler := []

structure Entry where
  channel : Channel
  message : String
  deriving Repr, DecidableEq

/-- A stream of random words, the same one for the same seed. -/
def randomWords (seed : UInt64) (i : Nat) : UInt64 :=
  let z := seed + (i.toUInt64 + 1) * 0x9E3779B97F4A7C15
  let z := (z ^^^ (z >>> 30)) * 0xBF58476D1CE4E5B9
  let z := (z ^^^ (z >>> 27)) * 0x94D049BB133111EB
  z ^^^ (z >>> 31)

structure Engine where
  functions : Table Function := {}
  types : Table TypeDef := {}
  events : Table Event := {}
  globals : Table Value := {}
  scopes : ScopeTree := {}
  objects : Objects := #[]
  book : Phrasebook := .english
  journal : Array Entry := #[]
  /-- How many scripts and `on` statements have been told apart so far. -/
  scriptCount : Nat := 0
  draws : Nat → UInt64 := randomWords 0
  drawn : Nat := 0

namespace Engine

def report (e : Engine) (channel : Channel) (message : String) : Engine :=
  { e with journal := e.journal.push ⟨channel, message⟩ }

def trace (e : Engine) (activity : String) (details : List (String × String)) : Engine :=
  e.report (.log .debug)
    (" ".intercalate (activity :: details.map fun (key, value) => s!"{key}={value}"))

/-- What the engine and its scripts have logged, apart from the notes on its activity. -/
def log (e : Engine) : List (Level × String) :=
  e.journal.toList.filterMap fun entry =>
    match entry.channel with
    | .log .debug => none
    | .log level => some (level, entry.message)
    | _ => none

def clearJournal (e : Engine) : Engine := { e with journal := #[] }

def registerType (e : Engine) (t : TypeDef) : Engine :=
  let e := e.trace "registering type" [("type_name", Text.quoted t.name)]
  { e with types := e.types.insert t.name t }

def defineFunction (e : Engine) (f : Function) : Engine :=
  let e := e.trace "registering function" [("function", Text.quoted f.name)]
  { e with functions := e.functions.insert f.name f }

/-- Declares an event. One that is declared again gets the new parameters and keeps its
handlers. -/
def registerEvent (e : Engine) (name : String) (parameters : List Parameter) : Engine :=
  let e := e.trace "registering event" [("event", Text.quoted name)]
  let event := match e.events.get? name with
    | some event => { event with parameters }
    | none => { name, parameters }
  { e with events := e.events.insert name event }

def registerHandler (e : Engine) (name : String) (handler : Handler) : Except Fault Engine :=
  match e.events.get? name with
  | none => .error (.unknownEvent name)
  | some event =>
    let handlers := event.handlers ++ [handler]
    let e := { e with events := e.events.insert name { event with handlers } }
    .ok (e.trace "handler registered"
      [("event", Text.quoted name), ("handlers", toString handlers.length)])

def Handler.isFor (script : Script) (scope : ScopeId) (h : Handler) : Bool :=
  h.script.id == script.id && h.scope == scope

/-- Removes the handlers with exactly this script and scope, and says whether there were any. -/
def unregisterHandler (e : Engine) (name : String) (script : Script) (scope : ScopeId) :
    Engine × Bool :=
  match e.events.get? name with
  | none => (e, false)
  | some event =>
    let handlers := event.handlers.filter fun h => !Handler.isFor script scope h
    ({ e with events := e.events.insert name { event with handlers } },
      handlers.length != event.handlers.length)

def handlerCount (e : Engine) (name : String) : Nat :=
  match e.events.get? name with
  | some event => event.handlers.length
  | none => 0

/-- Drops every handler. Functions, types, events and global variables stay. -/
def flush (e : Engine) : Engine :=
  let e := { e with events := e.events.map fun (event : Event) => { event with handlers := [] } }
  e.trace "event handlers flushed" [("events", toString e.events.size)]

def lookup? (e : Engine) (scope : ScopeId) (name : String) : Option Value :=
  e.scopes.lookup? scope name <|> e.globals.get? name

def setGlobal (e : Engine) (name : String) (v : Value) : Engine :=
  { e with globals := e.globals.insert name v }

def addScope (e : Engine) (parent : Option ScopeId) : ScopeId × Engine :=
  (e.scopes.size, { e with scopes := e.scopes.add parent })

def addObject (e : Engine) (o : HostObject) : ObjectId × Engine :=
  (e.objects.size, { e with objects := e.objects.push o })

def changeObject (e : Engine) (id : ObjectId) (o : HostObject) : Engine :=
  { e with objects := e.objects.setIfInBounds id o }

/-- Gives the `on` statements of a tree marks that nothing has had before. -/
def mark (e : Engine) (node : Node) : Node × Engine :=
  (node.mark e.scriptCount, { e with scriptCount := e.scriptCount + node.cues.length })

def addScript (e : Engine) (root : Node) : Script × Engine :=
  let (root, e) := e.mark root
  (⟨e.scriptCount, root⟩, { e with scriptCount := e.scriptCount + 1 })

def draw (e : Engine) : Float × Engine :=
  ((e.draws e.drawn >>> 12).toFloat / Float.ofNat (Nat.pow 2 52), { e with drawn := e.drawn + 1 })

def parse (e : Engine) (source : String) : Except Fault Node := Source.parse e.book source

end Engine

/-- Why a run ended without a value: by a fault of the script, or broken off, because the allowance of
nested calls and laps of a loop was used up or a routine of the host broke down. -/
inductive Halt where
  | fault (f : Fault)
  | exhausted
  deriving Repr, DecidableEq

/-- A run changes the engine, also when it ends early. -/
abbrev Run := ExceptT Halt (StateM Engine)

namespace Run
variable {α : Type}

def fail (f : Fault) : Run α := throw (.fault f)

def ofExcept : Except Fault α → Run α
  | .ok a => pure a
  | .error f => fail f

def attempt (m : Run α) : Run (Except Fault α) := fun e =>
  match m e with
  | (.ok a, e) => (.ok (.ok a), e)
  | (.error (.fault f), e) => (.ok (.error f), e)
  | (.error .exhausted, e) => (.error .exhausted, e)

def step (f : Engine → α × Engine) : Run α := fun e =>
  let (a, e) := f e
  (.ok a, e)

end Run
end Parlance
