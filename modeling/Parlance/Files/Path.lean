import Parlance.Text.Split

/-! Paths of files, as they are written. -/

namespace Parlance.Path

/-- The names between the slashes of a path; some of them may be empty. -/
def names (path : String) : List String := (Text.split '/' path.toList).map String.ofList

/-- A path with what does not matter left out: doubled and final slashes, and single dots that are
not at the front. A path from the root begins with an empty name. -/
def components (path : String) : List String :=
  match names path with
  | [] => []
  | first :: rest =>
    let rest := rest.filter fun n => n != "" && n != "."
    if first = "" && path = "" then rest else first :: rest

def join (dir name : String) : String :=
  if dir.toList.getLast? = some '/' || dir = "" then dir ++ name else dir ++ "/" ++ name

/-- What follows the last dot of a file name. A dot at the very front begins no extension. -/
def extension? (name : String) : Option String :=
  let after := name.toList.reverse.takeWhile (· != '.')
  if after.length + 1 < name.length then some (String.ofList after.reverse) else none

end Parlance.Path
