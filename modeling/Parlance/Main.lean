import Parlance.Console.Basic

/-! The program. It reads the files that the command line names, lets the console decide what
happens, and writes what is shown. -/

namespace Parlance.Main

def addPlace (t : FileTree) (place : Place) : IO FileTree := do
  let text := match place with
    | "/" :: rest => "/" ++ "/".intercalate rest
    | names => "/".intercalate names
  let path ← try IO.FS.realPath text catch _ => return t
  if ← path.isDir then
    let mut t := t.makeDirectory place
    for entry in ← path.readDir do
      if !(← entry.path.isDir) then
        t := t.write (place ++ [entry.fileName]) (← IO.FS.readBinFile entry.path)
    return t
  else if ← path.pathExists then return t.write place (← IO.FS.readBinFile path)
  else return t

def addPath (t : FileTree) (path : String) : IO FileTree := do
  let place := FileTree.place path
  let mut t := t
  for i in [0 : place.length] do
    t ← addPlace t (place.take (i + 1))
  return t

def tell (shown : Console.Shown) : IO Unit := do
  for line in shown.output do IO.println line
  (← IO.getStdout).flush
  for line in shown.errors do IO.eprintln line

partial def interact (filter : LogFilter) (scope : ScopeId) (e : Engine) : IO Unit := do
  let line ← (← IO.getStdin).getLine
  if line.isEmpty then return
  let (goesOn, e) := (Console.interact scope (.ofText line)).run e
  tell (Console.shown filter e.journal)
  if let .ok true := goesOn then interact filter scope e.clearJournal

def perform (inv : Invocation) (settings : Settings) : IO UInt32 := do
  let seed ← IO.rand 0 (Nat.pow 2 64 - 1)
  match inv.command with
  | .interactive =>
    let filter := Console.filter inv settings
    let (scope, e) := (Console.engine settings seed).addScope none
    tell (Console.shown filter e.journal)
    interact filter scope e.clearJournal
    return 0
  | .run path => finish seed (← addPath {} path)
  | .load dir? => finish seed (← addPath {} (dir?.getD settings.scriptDir))
  | .eval _ => finish seed {}
where
  finish (seed : Nat) (files : FileTree) : IO UInt32 := do
    let outcome := Console.outcome inv settings seed files []
    tell outcome.shown
    return UInt32.ofNat outcome.code

def start (args : List String) : IO UInt32 := do
  match Invocation.ofArgs? args with
  | none =>
    tell Console.usage.shown
    return UInt32.ofNat Console.usage.code
  | some inv =>
    let files ← match inv.settingsFile with
      | some path => addPath {} path
      | none => pure {}
    match Console.settings inv files with
    | .ok settings => perform inv settings
    | .error fault =>
      let outcome := Console.failure fault
      tell outcome.shown
      return UInt32.ofNat outcome.code

end Parlance.Main

def main (args : List String) : IO UInt32 := Parlance.Main.start args
