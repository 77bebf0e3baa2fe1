import Parlance.Decimal.Reader
import Parlance.Text.Class
import Parlance.Value.Display

/-! Conversions between kinds of values: the number that arithmetic sees, and the coercions of the
built-in types. -/

namespace Parlance

namespace Value

def boolNumber (b : Bool) : Float := if b then 1.0 else 0.0

def readText (s : String) : Except Decimal.ReadFault Float := Decimal.read (Text.trim s.toList)

def toNumber : Value → Option Float
  | null => some 0.0
  | bool b => some (boolNumber b)
  | number x => some x
  | text s => (readText s).toOption
  | list _ => none
  | object _ => none

end Value

/-- Converts a value that is not null, or says why it cannot. -/
abbrev Coercion := Objects → Value → Except String Value

namespace Coercion

def any : Coercion := fun _ v => .ok v

def number : Coercion := fun objects v =>
  match v with
  | .number _ => .ok v
  | .text s =>
    match Value.readText s with
    | .ok x => .ok (.number x)
    | .error fault => .error s!"`{s}` is not a number ({fault.message})"
  | .bool b => .ok (.number (Value.boolNumber b))
  | _ => .error s!"{v.typeName objects} cannot be used as a number"

def text : Coercion := fun objects v =>
  match v with
  | .text _ => .ok v
  | .number _ | .bool _ => .ok (.text (v.display objects none))
  | _ => .error s!"{v.typeName objects} cannot be used as text"

def boolean : Coercion := fun objects v =>
  match v with
  | .bool _ => .ok v
  | .text s =>
    let word := String.ofList ((Text.trim s.toList).map Char.toLower)
    if word = "true" then .ok (.bool true)
    else if word = "false" then .ok (.bool false)
    else .error s!"`{s}` is not a boolean"
  | .number x => .ok (.bool (x != 0.0))
  | _ => .error s!"{v.typeName objects} cannot be used as a boolean"

def list : Coercion := fun objects v =>
  match v with
  | .list _ => .ok v
  | _ => .error s!"{v.typeName objects} is not a list"

def host (name : String) : Coercion := fun objects v =>
  match v with
  | .object id =>
    if objects.typeName id = name then .ok v
    else .error s!"expected {name}, found {v.typeName objects}"
  | _ => .error s!"expected {name}, found {v.typeName objects}"

end Coercion

structure TypeDef where
  name : String
  coercion : Coercion

/-- Null passes through every type unchanged. -/
def TypeDef.coerce (t : TypeDef) (objects : Objects) (v : Value) : Except String Value :=
  if v.isNull then .ok .null else t.coercion objects v

def TypeDef.builtin : List TypeDef :=
  [⟨"object", .any⟩, ⟨"number", .number⟩, ⟨"text", .text⟩, ⟨"boolean", .boolean⟩, ⟨"list", .list⟩]

end Parlance
