import Parlance.Value.Basic

/-! The tree of a script. Statements and expressions share one type, since every node has a
value. -/

namespace Parlance

inductive BinaryOp where
  | or | and | eq | ne | lt | gt | le | ge | add | sub | mul | div | mod
  /-- An operator that no script can write and no engine can run. -/
  | other (text : String)
  deriving Repr, DecidableEq

namespace BinaryOp

def text : BinaryOp → String
  | or => "or"
  | and => "and"
  | eq => "=="
  | ne => "!="
  | lt => "<"
  | gt => ">"
  | le => "<="
  | ge => ">="
  | add => "+"
  | sub => "-"
  | mul => "*"
  | div => "/"
  | mod => "%"
  | other t => t

def known : List BinaryOp := [or, and, eq, ne, lt, gt, le, ge, add, sub, mul, div, mod]

def ofText (t : String) : BinaryOp := (known.find? (·.text == t)).getD (other t)

end BinaryOp

inductive UnaryOp where
  | neg | bang | not
  | other (text : String)
  deriving Repr, DecidableEq

namespace UnaryOp

def text : UnaryOp → String
  | neg => "-"
  | bang => "!"
  | not => "not"
  | other t => t

def ofText (t : String) : UnaryOp := ([neg, bang, not].find? (·.text == t)).getD (other t)

end UnaryOp

/-- The event of an `on` statement, with a mark that tells the statement from every other one. The
mark is not read from the source: a tree gets its marks when it is about to run. -/
structure Cue where
  event : String
  mark : Nat := 0
  deriving Repr

instance : Coe String Cue := ⟨fun event => { event }⟩

instance : Coe Cue String := ⟨Cue.event⟩

inductive Node where
  | literal (v : Value)
  | path (name : String)
  | assign (path : String) (value : Node)
  | binary (op : BinaryOp) (left right : Node)
  | unary (op : UnaryOp) (operand : Node)
  | block (statements : List Node)
  | branch (condition yes : Node) (no : Option Node)
  | whileLoop (condition body : Node)
  | forLoop (init condition step body : Node)
  | functionDef (name : String) (params : List String) (body : Node)
  | returnWith (value : Node)
  | call (name : String) (args : List Node)
  | handler (cue : Cue) (body : Node)
  | trigger (event : String) (args : List Node)
  deriving Repr, Inhabited

def Node.null : Node := .literal .null

end Parlance
