import Parlance.Files.Tree
import Parlance.Settings.Json

/-! The settings of an engine and their form in a file. Each field has a default; the fields come as
an object or, in order, as an array. -/

namespace Parlance

structure Settings where
  scriptDir : String := "./skribe"
  /-- The extension of script files, without the dot. -/
  extension : String := "skribe"
  logFilter : String := "info"
  registerBuiltins : Bool := true
  deriving Repr, DecidableEq

namespace Settings
open Json

/-- Whether these are the defaults; the directory counts as a path. -/
def isDefault (s : Settings) : Bool :=
  let d : Settings := {}
  Path.components s.scriptDir == Path.components d.scriptDir &&
    { s with scriptDir := d.scriptDir } == d

def fields : List (String × (Settings → Reader Settings)) :=
  [("script_dir", fun s => return { s with scriptDir := ← string }),
    ("extension", fun s => return { s with extension := ← string }),
    ("log_filter", fun s => return { s with logFilter := ← string }),
    ("register_builtins", fun s => return { s with registerBuiltins := ← bool })]

/-- Members of an object, after its brace or a comma, up to its closing brace. A field may come
once, and what is not a field is skipped; `n` bounds the number of members. -/
def members : Nat → List String → Settings → Reader Settings
  | 0, _, _ => failure
  | n + 1, seen, s => do
    skipSpaces
    let key ← string
    skipSpaces
    expect (byte ':')
    skipSpaces
    guard !(seen.contains key)
    let known := fields.lookup key
    let s ← match known with
      | some read => read s
      | none => do
        skipValue ((← get).length + 1)
        pure s
    let seen := if known.isSome then key :: seen else seen
    skipSpaces
    if ← accept (byte ',') then members n seen s
    else
      expect (byte '\x7d')
      return s

/-- Elements of an array, up to its closing bracket; the fields left over keep their defaults. -/
def elements : List (Settings → Reader Settings) → Settings → Reader Settings
  | [], s => do
    expect (byte ']')
    return s
  | read :: rest, s => do
    skipSpaces
    let s ← read s
    skipSpaces
    let more ← if rest.isEmpty then pure false else accept (byte ',')
    if more then elements rest s
    else
      expect (byte ']')
      return s

def document : Reader Settings := do
  skipSpaces
  let s ← if ← accept (byte '\x7b') then do
      skipSpaces
      if ← accept (byte '\x7d') then pure {}
      else members ((← get).length + 1) [] {}
    else do
      expect (byte '[')
      skipSpaces
      if ← accept (byte ']') then pure {}
      else elements (fields.map (·.2)) {}
  skipSpaces
  guard (← get).isEmpty
  return s

def ofBytes? (bytes : ByteArray) : Except Fault Settings :=
  match document.run bytes.toList with
  | some (s, _) => .ok s
  | none => .error .settings

def ofJson? (source : String) : Except Fault Settings := ofBytes? source.toUTF8

/-- Reads a settings file. A directory can be opened, but holds no settings. -/
def load (files : FileTree) (path : String) : Except Fault Settings :=
  match files.readBytes path with
  | .ok bytes => ofBytes? bytes
  | .error .isDirectory => .error .settings
  | .error fault => .error (.file fault)

end Settings
end Parlance
