import Parlance.Pattern.Basic

/-! Where a pattern can end when it begins at a given spot, in order of preference. The first end
is the match; the others are what is left to try when the pattern is followed by another. -/

namespace Parlance.Pattern

/-- A place in a text, with what the groups have captured on the way to it. -/
structure Spot where
  position : Nat
  previous : Option Char
  rest : List Char
  groups : List (Nat × List Char) := []

namespace Spot

def upTo (s t : Spot) : List Char := s.rest.take (t.position - s.position)

def group? (s : Spot) (index : Nat) : Option (List Char) := s.groups.lookup index

end Spot

def isEdge (s : Spot) : Bool := s.previous.any Text.isWordChar != s.rest.head?.any Text.isWordChar

def PlaceTest.holds (s : Spot) : PlaceTest → Bool
  | .textStart => s.previous.isNone
  | .textEnd => s.rest.isEmpty
  | .wordEdge negated => isEdge s != negated

/-- Adds a spot to those already found, the latest first, unless its place was reached before. -/
def note (s : Spot) (found : List Spot) : List Spot :=
  if found.any (·.position == s.position) then found else s :: found

/-- The spots reached from `s` by more and more steps, added to those found before. A step that
stays in place leads nowhere new, so `n`, the number of characters left, bounds the search. -/
def explore (step : Spot → List Spot) (greedy : Bool) : Nat → Spot → List Spot → List Spot
  | 0, s, found => note s found
  | n + 1, s, found =>
    if found.any (·.position == s.position) then found
    else
      let onward := fun found => (step s).foldl (fun found t =>
        if s.position < t.position then explore step greedy n t found else found) found
      if greedy then s :: onward found else onward (s :: found)

/-- The ends of one or more steps from `s`. After a first step that takes nothing there is nothing
to repeat. -/
def repeatedly (step : Spot → List Spot) (greedy : Bool) (s : Spot) : List Spot :=
  ((step s).foldl (fun found t =>
    if s.position < t.position then explore step greedy s.rest.length t found
    else note t found) []).reverse

/-- The ends of a pattern that begins at `s`, the preferred ones first. -/
def ends : Pattern → Spot → List Spot
  | .empty, s => [s]
  | .char test, s =>
    match s.rest with
    | [] => []
    | c :: rest =>
      if test.accepts c then [{ s with position := s.position + 1, previous := some c, rest }]
      else []
  | .place test, s => if PlaceTest.holds s test then [s] else []
  | .seq first second, s => (ends first s).flatMap (ends second)
  | .alt preferred other, s => ends preferred s ++ ends other s
  | .opt body greedy, s => if greedy then ends body s ++ [s] else s :: ends body s
  | .plus body greedy, s => repeatedly (ends body) greedy s
  | .group index body, s =>
    (ends body s).map fun t => { t with groups := (index, s.upTo t) :: t.groups }

def matchAt (p : Pattern) (s : Spot) : Option Spot := (ends p s).head?

/-- Copies a text with its matches replaced, from left to right. The first `skip` characters belong
to a match already replaced; `touched` says that one ended where the text begins, in which case a
match that takes nothing does not count. -/
def replaceFrom (p : Pattern) (replacement : Spot → Spot → List Char) :
    Nat → Bool → Nat → Option Char → List Char → List Char
  | skip, touched, position, previous, cs =>
    match skip, cs with
    | _ + 1, [] => []
    | skip + 1, c :: rest => replaceFrom p replacement skip true (position + 1) (some c) rest
    | 0, cs =>
      let s : Spot := { position, previous, rest := cs }
      let found := (matchAt p s).filter fun t => !touched || position < t.position
      let written := (found.map (replacement s)).getD []
      match cs with
      | [] => written
      | c :: rest =>
        let length := (found.map (·.position - position)).getD 0
        if length = 0 then
          written ++ c :: replaceFrom p replacement 0 false (position + 1) (some c) rest
        else written ++ replaceFrom p replacement (length - 1) true (position + 1) (some c) rest

def replaceAll (p : Pattern) (replacement : Spot → Spot → List Char) (cs : List Char) : List Char :=
  replaceFrom p replacement 0 false 0 none cs

end Parlance.Pattern
