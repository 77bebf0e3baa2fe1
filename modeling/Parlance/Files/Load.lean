import Parlance.Engine.Run
import Parlance.Files.Tree

/-! Running script files. A directory is loaded file by file in the order of the paths, each file
in a scope of its own, and a file that fails does not stop the others. -/

namespace Parlance

structure LoadReport where
  loaded : List String := []
  /-- The files that failed, and why. -/
  failed : List (String × String) := []

namespace LoadReport

def total (r : LoadReport) : Nat := r.loaded.length + r.failed.length

def isSuccess (r : LoadReport) : Bool := r.failed.isEmpty

def summary (r : LoadReport) : List (Level × String) :=
  let verdict : Level × String :=
    if r.failed.isEmpty then (.info, s!"all {r.total} scripts loaded successfully")
    else if r.loaded.isEmpty then (.error, "no scripts loaded successfully")
    else (.warning, "only some scripts loaded successfully")
  let count : Level × String :=
    (.info, s!"successful: {r.loaded.length}, failures: {r.failed.length}")
  verdict :: count :: r.failed.map fun (path, reason) =>
    (.warning, s!"failed script: {path}, reason: {reason}")

end LoadReport

namespace Manner
variable (w : Manner) (allowance : Nat)

def loadFile (files : FileTree) (path : String) : Run Unit := do
  let text ← Run.ofExcept ((files.readText path).mapError .file)
  let _ ← w.execute allowance (w.serve allowance) text none

def loadAll (files : FileTree) : List String → LoadReport → Run LoadReport
  | [], report => return report
  | path :: rest, report => do
    modify (·.trace "loading script" [("path", path)])
    match ← Run.attempt (w.loadFile allowance files path) with
    | .ok () => loadAll files rest { report with loaded := report.loaded ++ [path] }
    | .error fault =>
      loadAll files rest { report with failed := report.failed ++ [(path, fault.message)] }

def loadDirectory (files : FileTree) (dir extension : String) : Run LoadReport := do
  let names ← Run.ofExcept ((files.filesIn dir).mapError .file)
  let paths := (names.filter fun n => Path.extension? n = some extension).map (Path.join dir)
  let result ← w.loadAll allowance files paths {}
  for (level, message) in result.summary do
    Run.report (.log level) message
  return result

def reload (files : FileTree) (dir extension : String) : Run LoadReport := do
  modify Engine.flush
  w.loadDirectory allowance files dir extension

end Manner

namespace Run
variable (allowance : Nat)

abbrev loadFile : FileTree → String → Run Unit := Manner.plain.loadFile allowance

abbrev loadAll : FileTree → List String → LoadReport → Run LoadReport := Manner.plain.loadAll allowance

abbrev loadDirectory : FileTree → String → String → Run LoadReport :=
  Manner.plain.loadDirectory allowance

abbrev reload : FileTree → String → String → Run LoadReport := Manner.plain.reload allowance

end Run
end Parlance
