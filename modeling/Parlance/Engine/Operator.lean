import Parlance.Decimal.Binary
import Parlance.Fault
import Parlance.Value.Coerce

/-! What operators and member names do with values. -/

namespace Parlance.Value

def unsupported {α : Type} (objects : Objects) (op : BinaryOp) (a b : Value) : Except Fault α :=
  .error (.unsupportedOperator op.text (a.typeName objects) (b.typeName objects))

def numeric (objects : Objects) (op : BinaryOp) (f : Float → Float → Float) (a b : Value) :
    Except Fault Value :=
  match a.toNumber, b.toNumber with
  | some x, some y => .ok (.number (f x y))
  | _, _ => unsupported objects op a b

def ordered (objects : Objects) (op : BinaryOp) (test : Ordering → Bool) (a b : Value) :
    Except Fault Value :=
  match a.compare b with
  | some o => .ok (.bool (test o))
  | none => unsupported objects op a b

/-- What a value contributes to a joined text: null contributes nothing. -/
def joined (objects : Objects) (v : Value) : String :=
  if v.isNull then "" else v.display objects none

def combine (objects : Objects) (op : BinaryOp) (a b : Value) : Except Fault Value :=
  match op with
  | .or => .ok (.bool (a.truthy || b.truthy))
  | .and => .ok (.bool (a.truthy && b.truthy))
  | .add =>
    if a.isText || b.isText then .ok (.text (a.joined objects ++ b.joined objects))
    else numeric objects op (· + ·) a b
  | .sub => numeric objects op (· - ·) a b
  | .mul => numeric objects op (· * ·) a b
  | .div => numeric objects op (· / ·) a b
  | .mod => numeric objects op Decimal.remainder a b
  | .eq => .ok (.bool (a.same b))
  | .ne => .ok (.bool !(a.same b))
  | .lt => ordered objects op Ordering.isLT a b
  | .gt => ordered objects op Ordering.isGT a b
  | .le => ordered objects op Ordering.isLE a b
  | .ge => ordered objects op Ordering.isGE a b
  | .other _ => .error (.unknownOperator op.text)

def applyUnary (objects : Objects) (op : UnaryOp) (v : Value) : Except Fault Value :=
  match op with
  | .neg =>
    match v.toNumber with
    | some x => .ok (.number (-x))
    | none => .error (.unsupportedOperator op.text (v.typeName objects) "nothing")
  | .bang => .ok (.bool !v.truthy)
  | .not => .ok (.bool !v.truthy)
  | .other _ => .error (.unknownOperator op.text)

def readMember (objects : Objects) (v : Value) (member : String) : Except Fault Value :=
  let absent := Fault.noSuchMember member (v.typeName objects)
  match v with
  | .null => .error (.nullMemberAccess member)
  | .text s => if member = "length" then .ok (.number (Float.ofNat s.length)) else .error absent
  | .list items =>
    if member = "length" then .ok (.number (Float.ofNat items.length)) else .error absent
  | .object id =>
    match objects.readMember id member with
    | some v => .ok v
    | none => .error absent
  | _ => .error absent

/-- What an object keeps after an assignment to a member, unless it is refused. While it is changed,
the object cannot show itself. -/
def assigned? (objects : Objects) (id : ObjectId) (member : String) (v : Value) :
    Option (Table Member) := do
  let o ← objects[id]?
  o.assign (·.display objects (some id)) o.members member v

def writeMember (objects : Objects) (owner : Value) (member : String) (v : Value) :
    Except Fault Objects :=
  let absent := Fault.noSuchMember member (owner.typeName objects)
  match owner with
  | .null => .error (.nullMemberAccess member)
  | .object id =>
    match assigned? objects id member v with
    | some members => .ok (objects.setMembers id members)
    | none => .error absent
  | _ => .error absent

end Parlance.Value
