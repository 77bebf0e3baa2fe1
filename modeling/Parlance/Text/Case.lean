import Parlance.Text.Class
import Parlance.Text.Folding
import Parlance.Text.Lowercase

/-! Letter case. Lower-casing a text is decided character by character, except that a capital
sigma which ends a word becomes the final sigma. Two characters are case variants of each other
when they have the same simple folding. -/

namespace Parlance.Text

/-- Whether the first character that case rules do not look past has case. -/
def meetsCased (cs : List Char) : Bool :=
  match cs.dropWhile isCaseIgnorable with
  | c :: _ => isCased c
  | [] => false

/-- The lower-case form of `c` between the reversed text `before` it and the text `after` it. -/
def lowerBetween (before : List Char) (c : Char) (after : List Char) : List Char :=
  if c = 'Σ' then [if meetsCased before && !meetsCased after then 'ς' else 'σ']
  else if c = 'İ' then ['i', '\u0307']
  else [CaseRun.follow lowercase c]

def lowerFrom (before : List Char) : List Char → List Char
  | [] => []
  | c :: after => lowerBetween before c after ++ lowerFrom (c :: before) after

def lower (cs : List Char) : List Char := lowerFrom [] cs

def fold (c : Char) : Char := CaseRun.follow folding c

def variants (c : Char) : List Char := fold c :: CaseRun.origins folding (fold c)

end Parlance.Text
