/-! The values that scripts compute with. -/

namespace Parlance

abbrev ObjectId := Nat

inductive Value where
  | null
  | bool (b : Bool)
  | number (x : Float)
  | text (s : String)
  | list (items : List Value)
  | object (id : ObjectId)
  deriving Repr, Inhabited

namespace Value

def isNull : Value → Bool
  | null => true
  | _ => false

def isText : Value → Bool
  | text _ => true
  | _ => false

/-- How a condition takes a value: nothing, zero, the undefined number and what is empty are
false. -/
def truthy : Value → Bool
  | null => false
  | bool b => b
  | number x => x != 0.0 && !x.isNaN
  | text s => !s.isEmpty
  | list items => !items.isEmpty
  | object _ => true

mutual
/-- Equality of scripts: numbers compare as numbers and objects by identity, and values of
different kinds are never equal. -/
def same : Value → Value → Bool
  | null, null => true
  | bool a, bool b => a == b
  | number x, number y => x == y
  | text s, text t => s == t
  | list xs, list ys => sameAll xs ys
  | object i, object j => i == j
  | _, _ => false
def sameAll : List Value → List Value → Bool
  | [], [] => true
  | x :: xs, y :: ys => same x y && sameAll xs ys
  | _, _ => false
end

def compareNumbers (x y : Float) : Option Ordering :=
  if x < y then some .lt else if x == y then some .eq else if y < x then some .gt else none

def compare : Value → Value → Option Ordering
  | number x, number y => compareNumbers x y
  | text s, text t => some (Ord.compare s t)
  | bool a, bool b => some (Ord.compare a b)
  | _, _ => none

end Value
end Parlance
