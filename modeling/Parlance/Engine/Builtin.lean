import Parlance.Engine.Basic

/-! The functions that every engine can be given, and a new engine. -/

namespace Parlance

namespace Native

/-- Writes its first argument as a line on the given channel; null is an empty line. -/
def print (channel : Channel) : Native := fun args => do
  let objects ← Routine.request .objects
  let line := match args.head? with
    | some v => if v.isNull then "" else v.display objects none
    | none => ""
  Routine.request (.report channel line)
  return .ok .null

/-- A number at the given part of the way from `low` to `high`, never `high` itself. -/
def between (low high part : Float) : Float :=
  let x := low + part * (high - low)
  if x < high then x else low

/-- A random number between two bounds, which may come in either order. -/
def random : Native
  | [.number a, .number b] =>
    if a.isNaN || b.isNaN then return .error (.native "random" "bounds must not be NaN")
    else
      let low := if a ≤ b then a else b
      let high := if a ≤ b then b else a
      if low == high then return .ok (.number low)
      -- no number can be drawn from a range whose width is no number
      else if !(high - low).isFinite then do
        let never ← Routine.request .breakDown
        nomatch never
      else do
        let part ← Routine.request .random
        return .ok (.number (between low high part))
  | _ => return .error (.native "random" "expected two numbers")

end Native

namespace Function

def print (channel : Channel) : Function where
  name := "print"
  parameters := [{ name := "message", typeName := "text" }]
  body := .native (Native.print channel)

def random : Function where
  name := "random"
  parameters := [{ name := "min", typeName := "number" }, { name := "max", typeName := "number" }]
  body := .native Native.random

end Function

namespace Engine

def new (builtins : Bool) : Engine :=
  let e := TypeDef.builtin.foldl registerType {}
  if builtins then (e.defineFunction (.print (.log .info))).defineFunction .random else e

end Engine
end Parlance
