import Parlance.Decimal.Shortest
import Parlance.Text.Quoted
import Parlance.Value.Object

/-! The two texts of a value: the one that `print` and joining show, and the one for inspection, in
which texts are quoted. -/

namespace Parlance

/-- An object that is being changed shows neither its name nor its type. -/
def HostObject.describe (objects : Objects) (busy : Option ObjectId) (id : ObjectId) : String :=
  match busy == some id, objects[id]? with
  | false, some o => s!"<{o.typeName} {o.name}>"
  | _, _ => "<object>"

namespace Value

def typeName (objects : Objects) : Value → String
  | null => "null"
  | bool _ => "boolean"
  | number _ => "number"
  | text _ => "text"
  | list _ => "list"
  | object id => objects.typeName id

def boolText (b : Bool) : String := if b then "true" else "false"

def bracketed (parts : List String) : String := "[" ++ ", ".intercalate parts ++ "]"

mutual
def display (objects : Objects) (busy : Option ObjectId) : Value → String
  | null => "null"
  | bool b => boolText b
  | number x => Decimal.write x
  | text s => s
  | list items => bracketed (displayAll objects busy items)
  | object id => HostObject.describe objects busy id
def displayAll (objects : Objects) (busy : Option ObjectId) : List Value → List String
  | [] => []
  | v :: vs => display objects busy v :: displayAll objects busy vs
end

mutual
def inspect (objects : Objects) : Value → String
  | null => "null"
  | bool b => boolText b
  | number x => Decimal.write x
  | text s => Text.quoted s
  | list items => bracketed (inspectAll objects items)
  | object id => HostObject.describe objects none id
def inspectAll (objects : Objects) : List Value → List String
  | [] => []
  | v :: vs => inspect objects v :: inspectAll objects vs
end

end Value
end Parlance
