import Parlance.Fault
import Parlance.Files.Path

/-! A tree of files and directories, given by the place of each of them. A place is the list of
names that leads to it from the directory in which paths begin. -/

namespace Parlance

inductive FileItem where
  | file (bytes : ByteArray)
  | directory

abbrev Place := List String

structure FileTree where
  items : List (Place × FileItem) := []

namespace FileTree

def empty : FileTree := {}

/-- The directory that a place lies in. Above the directory in which paths begin, places are named by
the double dots that lead to them. -/
def above (place : Place) : Place :=
  if place.isEmpty || place.getLast? = some ".." then place ++ [".."] else place.dropLast

/-- What is at a place. The empty place is always a directory. -/
def item? (t : FileTree) (place : Place) : Option FileItem :=
  if place.isEmpty then some .directory else t.items.lookup place

def enter (place : Place) (name : String) : Place :=
  if name = "" || name = "." then place else if name = ".." then above place else place ++ [name]

def follow (t : FileTree) (place : Place) : List String → Except FileFault Place
  | [] => .ok place
  | name :: rest =>
    match t.item? place with
    | none => .error .missing
    | some (.file _) => .error .notDirectory
    | some .directory =>
      let place := enter place name
      if (t.item? place).isSome then t.follow place rest else .error .missing

/-- The names along a path. A path from the root of all files begins with its slash. -/
def steps (path : String) : List String :=
  match Path.names path with
  | "" :: rest => "/" :: rest
  | names => names

/-- The place that a path names, whether or not anything is there. -/
def place (path : String) : Place := (steps path).foldl enter []

def resolve (t : FileTree) (path : String) : Except FileFault Place :=
  if path = "" then .error .missing else t.follow [] (steps path)

def readBytes (t : FileTree) (path : String) : Except FileFault ByteArray := do
  let place ← t.resolve path
  match t.item? place with
  | some (.file bytes) => .ok bytes
  | some .directory => .error .isDirectory
  | none => .error .missing

def readText (t : FileTree) (path : String) : Except FileFault String := do
  let bytes ← t.readBytes path
  match String.fromUTF8? bytes with
  | some s => .ok s
  | none => .error .notText

def filesIn (t : FileTree) (path : String) : Except FileFault (List String) := do
  let place ← t.resolve path
  match t.item? place with
  | some .directory =>
    let names := t.items.filterMap fun (p, item) =>
      match item with
      | .file _ => if p.dropLast = place then p.getLast? else none
      | .directory => none
    .ok (names.mergeSort fun a b => !decide (b < a))
  | some (.file _) => .error .notDirectory
  | none => .error .missing

def put (t : FileTree) (place : Place) (item : FileItem) : FileTree :=
  if place.isEmpty then t
  else ⟨(place, item) :: t.items.filter fun (p, _) => p != place⟩

def makeDirectory (t : FileTree) (place : Place) : FileTree :=
  (List.range place.length).foldl (fun t i =>
    let p := place.take (i + 1)
    if (t.item? p).isSome then t else t.put p .directory) t

def write (t : FileTree) (place : Place) (bytes : ByteArray) : FileTree :=
  (t.makeDirectory place.dropLast).put place (.file bytes)

def remove (t : FileTree) (place : Place) : FileTree :=
  ⟨t.items.filter fun (p, _) => p != place⟩

end FileTree
end Parlance
