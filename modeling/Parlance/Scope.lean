import Parlance.Table
import Parlance.Value.Basic

/-! Scopes, which form a tree: each has variables of its own and may lie inside an older scope.
Reading a name looks outward; writing one never does. -/

namespace Parlance

/-- Where a scope is kept. A scope has a greater number than the one around it. -/
abbrev ScopeId := Nat

structure Scope where
  parent : Option ScopeId := none
  locals : Table Value := {}

structure ScopeTree where
  scopes : Array Scope := #[]

namespace ScopeTree

def empty : ScopeTree := {}

def size (t : ScopeTree) : Nat := t.scopes.size

def get? (t : ScopeTree) (id : ScopeId) : Option Scope := t.scopes[id]?

def parent? (t : ScopeTree) (id : ScopeId) : Option ScopeId := (t.get? id).bind (·.parent)

def add (t : ScopeTree) (parent : Option ScopeId) : ScopeTree := ⟨t.scopes.push { parent }⟩

def local? (t : ScopeTree) (id : ScopeId) (name : String) : Option Value :=
  (t.get? id).bind (·.locals.get? name)

def chain (t : ScopeTree) (id : ScopeId) : List ScopeId :=
  id :: match t.parent? id with
    | none => []
    | some p => if p < id then t.chain p else []
termination_by id

def lookup? (t : ScopeTree) (id : ScopeId) (name : String) : Option Value :=
  (t.chain id).findSome? fun i => t.local? i name

def set (t : ScopeTree) (id : ScopeId) (name : String) (v : Value) : ScopeTree :=
  ⟨t.scopes.modify id fun s => { s with locals := s.locals.insert name v }⟩

def setAll (t : ScopeTree) (id : ScopeId) (pairs : List (String × Value)) : ScopeTree :=
  pairs.foldl (fun t (name, v) => t.set id name v) t

end ScopeTree
end Parlance
