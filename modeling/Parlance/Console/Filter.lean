import Parlance.Engine.Routine
import Parlance.Text.Split

/-! Which log messages are shown. A filter is a list of directives with commas between them: a
level, the name of a source of messages, or a name and its level with an equals sign between. -/

namespace Parlance

/-- How much is shown: nothing, or messages up to a level of detail from one to five. -/
def detailOf? (s : String) : Option Nat :=
  let word := String.ofList (s.toList.map Char.toLower)
  [("off", 0), ("error", 1), ("warn", 2), ("info", 3), ("debug", 4), ("trace", 5), ("0", 0), ("1", 1),
    ("2", 2), ("3", 3), ("4", 4), ("5", 5)].lookup word

def Level.detail : Level → Nat
  | .error => 1
  | .warning => 2
  | .info => 3
  | .debug => 4

def logTarget : String := "skribe"

structure Directive where
  /-- Sources whose names begin so; an empty text means all. -/
  target : String
  detail : Nat

def Directive.ofText? (s : String) : Option Directive :=
  match (Text.split '=' s.toList).map String.ofList with
  | [word] =>
    match detailOf? word with
    | some detail => some ⟨"", detail⟩
    | none => some ⟨word, 5⟩
  | [target, word] => (detailOf? word).map (⟨target, ·⟩)
  | _ => none

abbrev LogFilter := List Directive

namespace LogFilter

/-- Directives that cannot be read are left out; a filter without any shows errors. -/
def ofText (s : String) : LogFilter :=
  let parts := ((Text.split ',' s.toList).map String.ofList).filter (· != "")
  let directives := parts.filterMap Directive.ofText?
  if directives.isEmpty then [⟨"", 1⟩] else directives

/-- The detail shown for the engine: that of the directive with the longest fitting name, the last
one if there are several. -/
def detail (f : LogFilter) : Nat :=
  let fitting := f.filter fun d => d.target.toList.isPrefixOf logTarget.toList
  let longer := fun (best d : Directive) => if best.target.length ≤ d.target.length then d else best
  (fitting.foldl longer ⟨"", 0⟩).detail

def shows (f : LogFilter) (level : Level) : Bool := level.detail ≤ f.detail

end LogFilter
end Parlance
