import Parlance.Console.Filter
import Parlance.Console.Invocation
import Parlance.Engine.Builtin
import Parlance.Files.Load
import Parlance.Settings.Basic

/-! What the command line does. Everything that is shown goes through the journal of the engine, so
output and log keep their order. -/

namespace Parlance.Console

/-- An allowance that no script in practice uses up. -/
def allowance : Nat := Nat.pow 2 60

def engine (settings : Settings) (seed : Nat) : Engine :=
  let e := { Engine.new settings.registerBuiltins with draws := randomWords seed.toUInt64 }
  if settings.registerBuiltins then e.defineFunction (.print .output) else e

def showValue (v : Value) : Run Unit := do
  if !v.isNull then Run.report .output (v.display (← get).objects none)

inductive Line where
  | quit
  | nothing
  | flush
  | source (text : String)

def Line.ofText (text : String) : Line :=
  let trimmed := String.ofList (Text.trim text.toList)
  if trimmed = ":quit" || trimmed = ":exit" then .quit
  else if trimmed = "" then .nothing
  else if trimmed = ":flush" then .flush
  else .source trimmed

def tolerate (m : Run Unit) : Run Unit := do
  match ← Run.attempt m with
  | .ok () => return ()
  | .error fault => Run.report .alert s!"error: {fault.message}"

/-- Does what a line asks for; `false` ends the session. All lines share one scope. -/
def interact (scope : ScopeId) (line : Line) : Run Bool :=
  match line with
  | .quit => return false
  | .nothing => return true
  | .flush => do
    modify Engine.flush
    Run.report .output "event handlers cleared"
    return true
  | .source text => do
    tolerate do
      showValue (← Run.source allowance text (some scope))
    return true

def interactAll (scope : ScopeId) : List String → Run Unit
  | [] => return ()
  | line :: rest => do
    if ← interact scope (.ofText line) then interactAll scope rest

def perform (settings : Settings) (files : FileTree) (input : List String) : Command → Run Nat
  | .run script => do
    let text ← Run.ofExcept ((files.readText script).mapError .file)
    let _ ← Run.source allowance text none
    return 0
  | .eval text => do
    showValue (← Run.source allowance text none)
    return 0
  | .load dir? => do
    let dir := dir?.getD settings.scriptDir
    let report ← Run.loadDirectory allowance files dir settings.extension
    Run.report .output s!"loaded {report.loaded.length} of {report.total} scripts from {dir}"
    return if report.isSuccess then 0 else 2
  | .interactive => do
    interactAll (← Run.newScope none) input
    return 0

structure Shown where
  output : List String := []
  errors : List String := []

def levelName : Level → String
  | .debug => "DEBUG"
  | .info => "INFO"
  | .warning => "WARN"
  | .error => "ERROR"

/-- A character of a logged message as a terminal gets it: the control codes that could start a
terminal command are spelled out. -/
def spell (c : Char) : List Char :=
  let digits := Nat.toDigits 16 c.toNat
  if ['\x07', '\x08', '\x0c', '\x1b', '\x7f'].contains c then
    "\\x".toList ++ List.replicate (2 - digits.length) '0' ++ digits
  else if 0x80 ≤ c.toNat && c.toNat ≤ 0x9f then "\\u\x7b".toList ++ digits ++ ['\x7d']
  else [c]

/-- The text of a log entry. What is traced quotes its details already. -/
def logText (level : Level) (message : String) : String :=
  if level = .debug then message else String.ofList (message.toList.flatMap spell)

def errorLines (filter : LogFilter) (entry : Entry) : List String :=
  let lines := fun s : String => (Text.split '\n' s.toList).map String.ofList
  match entry.channel with
  | .output => []
  | .alert => lines entry.message
  | .log level =>
    if filter.shows level then lines s!"{levelName level} {logTarget}: {logText level entry.message}"
    else []

def outputLines (entry : Entry) : List String :=
  match entry.channel with
  | .output => [entry.message]
  | _ => []

def shown (filter : LogFilter) (journal : Array Entry) : Shown where
  output := journal.toList.flatMap outputLines
  errors := journal.toList.flatMap (errorLines filter)

structure Outcome where
  code : Nat
  shown : Shown

def usage : Outcome := ⟨2, { errors := ["error: unknown command line"] }⟩

def failure (fault : Fault) : Outcome := ⟨1, { errors := [s!"error: {fault.message}"] }⟩

def filter (inv : Invocation) (settings : Settings) : LogFilter :=
  .ofText (if inv.verbose then "debug" else settings.logFilter)

def settings (inv : Invocation) (files : FileTree) : Except Fault Settings :=
  match inv.settingsFile with
  | none => .ok {}
  | some path => Settings.load files path

def outcome (inv : Invocation) (settings : Settings) (seed : Nat) (files : FileTree)
    (input : List String) : Outcome :=
  let filter := filter inv settings
  match (perform settings files input inv.command).run (engine settings seed) with
  | (.ok code, e) => ⟨code, shown filter e.journal⟩
  | (.error (.fault fault), e) =>
    ⟨1, shown filter (e.report .alert s!"error: {fault.message}").journal⟩
  | (.error .exhausted, e) => ⟨1, shown filter (e.report .alert "error: allowance exhausted").journal⟩

def respond (args : List String) (seed : Nat) (files : FileTree) (input : List String) : Outcome :=
  match Invocation.ofArgs? args with
  | none => usage
  | some inv =>
    match settings inv files with
    | .error fault => failure fault
    | .ok settings => outcome inv settings seed files input

end Parlance.Console
