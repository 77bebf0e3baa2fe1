import Parlance.Pattern.Match

/-! Replacement texts. A dollar sign refers to a group of the match, by number or by name, with or
without braces; two of them stand for one. -/

namespace Parlance.Pattern

inductive TemplatePart where
  | char (c : Char)
  | group (name : List Char)
  deriving Repr, DecidableEq

def isNameChar (c : Char) : Bool := c.isAlphanum || c == '_'

/-- A group reference after a dollar sign, and how many characters it takes. -/
def reference? : List Char → Option (List Char × Nat)
  | '\x7b' :: cs =>
    let name := cs.takeWhile (· != '\x7d')
    if name.length < cs.length then some (name, name.length + 2) else none
  | cs =>
    let name := cs.takeWhile isNameChar
    if name.isEmpty then none else some (name, name.length)

/-- The parts of a replacement text, of which the first `skip` characters were already taken. -/
def templateFrom : Nat → List Char → List TemplatePart
  | _, [] => []
  | skip + 1, _ :: cs => templateFrom skip cs
  | 0, c :: cs =>
    if c = '$' then
      if cs.head? = some '$' then .char '$' :: templateFrom 1 cs
      else
        match reference? cs with
        | some (name, length) => .group name :: templateFrom length cs
        | none => .char '$' :: templateFrom 0 cs
    else .char c :: templateFrom 0 cs

def template (s : String) : List TemplatePart := templateFrom 0 s.toList

def groupNumber? (name : List Char) : Option Nat :=
  let digits := match name with
    | '+' :: rest => rest
    | _ => name
  if digits.isEmpty || !digits.all Char.isDigit then none
  else
    let n := digits.foldl (fun n c => 10 * n + (c.toNat - '0'.toNat)) 0
    if n < Nat.pow 2 64 then some n else none

/-- The text of the group a reference means, which is empty for a group that took no part. -/
def groupText (names : List (String × Nat)) (s t : Spot) (name : List Char) : List Char :=
  match groupNumber? name <|> names.lookup (String.ofList name) with
  | some 0 => s.upTo t
  | some n => (t.group? n).getD []
  | none => []

def expand (names : List (String × Nat)) (parts : List TemplatePart) (s t : Spot) : List Char :=
  parts.flatMap fun
    | .char c => [c]
    | .group name => groupText names s t name

end Parlance.Pattern
