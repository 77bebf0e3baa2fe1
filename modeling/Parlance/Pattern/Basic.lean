import Parlance.Text.Case

/-! Patterns that phrases are recognised by. A pattern is matched without regard to letter case. -/

namespace Parlance

inductive ClassItem where
  | range (low high : Char)
  | word (negated : Bool)
  | blank (negated : Bool)
  | digit (negated : Bool)
  deriving Repr, DecidableEq

def ClassItem.holds : ClassItem → Char → Bool
  | .range low high, c => low ≤ c && c ≤ high
  | .word negated, c => Text.isWordChar c != negated
  | .blank negated, c => Text.isBlank c != negated
  | .digit negated, c => Text.isWordDigit c != negated

inductive CharTest where
  /-- Any character but a line end. -/
  | any
  | literal (c : Char)
  | oneOf (negated : Bool) (items : List ClassItem)
  deriving Repr, DecidableEq

/-- A class takes a character if it holds it or some case variant of it. -/
def CharTest.accepts : CharTest → Char → Bool
  | .any, c => c != '\n'
  | .literal l, c => Text.fold c == Text.fold l
  | .oneOf negated items, c =>
    let held := fun v => items.any (·.holds v)
    (held c || (Text.variants c).any held) != negated

inductive PlaceTest where
  | textStart
  | textEnd
  | wordEdge (negated : Bool)
  deriving Repr, DecidableEq

inductive Pattern where
  | empty
  | char (test : CharTest)
  | place (test : PlaceTest)
  | seq (first second : Pattern)
  | alt (preferred other : Pattern)
  /-- The body or nothing; a greedy one prefers the body. -/
  | opt (body : Pattern) (greedy : Bool)
  /-- The body once or more often; a greedy one prefers to go on. -/
  | plus (body : Pattern) (greedy : Bool)
  | group (index : Nat) (body : Pattern)
  deriving Repr, DecidableEq

namespace Pattern

def star (body : Pattern) (greedy : Bool) : Pattern := opt (plus body greedy) greedy

def concat (parts : List Pattern) : Pattern := parts.foldr seq empty

def literal (s : String) : Pattern := concat (s.toList.map fun c => char (.literal c))

def blanks : Pattern := plus (char (.oneOf false [.blank false])) true

def edge : Pattern := place (.wordEdge false)

/-- `low` to `high` copies of the body, or any number from `low` on. -/
def counted (body : Pattern) (low : Nat) (high : Option Nat) (greedy : Bool) : Pattern :=
  match high with
  | some high =>
    let tail := (List.range (high - low)).foldl (fun p _ => opt (seq body p) greedy) empty
    concat (List.replicate low body ++ [tail])
  | none =>
    if low = 0 then star body greedy
    else concat (List.replicate (low - 1) body ++ [plus body greedy])

end Pattern
end Parlance
