import Parlance.Table
import Parlance.Value.Basic

/-! Objects that the host lends to scripts: a name, a type and members, which the host reads and
assigns in its own way. -/

namespace Parlance

/-- What assigning to a member does, if the host does not see to it itself. -/
inductive Access where
  | readOnly
  | stored
  /-- The member keeps the displayed text of what is assigned. -/
  | displayed
  deriving Repr, DecidableEq

structure Member where
  value : Value
  access : Access := .stored

namespace Member

def held (members : Table Member) (name : String) : Option Value :=
  (members.get? name).map (·.value)

def keep (shown : Value → String) (members : Table Member) (name : String) (v : Value) :
    Option (Table Member) := do
  let m ← members.get? name
  match m.access with
  | .readOnly => none
  | .stored => some (members.insert name { m with value := v })
  | .displayed => some (members.insert name { m with value := .text (shown v) })

end Member

structure HostObject where
  name : String
  typeName : String
  /-- What the object keeps. Its members need not be these: some may be computed from them. -/
  members : Table Member := {}
  read : Table Member → String → Option Value := Member.held
  /-- What the object keeps after an assignment, unless the host refuses it. The first argument shows
  values as they appear while the object is being changed. -/
  assign : (Value → String) → Table Member → String → Value → Option (Table Member) := Member.keep

abbrev Objects := Array HostObject

namespace Objects

def typeName (objects : Objects) (id : ObjectId) : String :=
  match objects[id]? with
  | some o => o.typeName
  | none => ""

def readMember (objects : Objects) (id : ObjectId) (member : String) : Option Value := do
  let o ← objects[id]?
  o.read o.members member

def setMembers (objects : Objects) (id : ObjectId) (members : Table Member) : Objects :=
  objects.modify id ({ · with members })

end Objects
end Parlance
