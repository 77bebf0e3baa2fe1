import Parlance.Engine.Run
import Parlance.Proofs.Script.Marking

/-! Which trees an engine holds: the bodies of its functions and the scripts that wait for events.
Steps of a run change these two tables only by defining a function, declaring an event, and adding
and dropping handlers. -/

namespace Parlance

namespace Table
variable {α β : Type}

theorem get?_map (f : α → β) (t : Table α) (name : String) :
    (t.map f).get? name = (t.get? name).map f := by
  obtain ⟨entries⟩ := t
  simp only [get?, map]
  induction entries with
  | nil => rfl
  | cons entry rest ih =>
    obtain ⟨n, a⟩ := entry
    simp only [List.map_cons, List.lookup_cons]
    cases name == n
    · exact ih
    · rfl

end Table

/-- Apart from its marks, the tree was read as a statement or as a whole script. -/
def Grammar.Reads (node : Node) : Prop :=
  ∃ read : Node, node.mark 0 = read.mark 0 ∧
    ((∃ n ts rest, statement n ts = .ok (read, rest)) ∨ ∃ ts, readScript ts = .ok read)

theorem Grammar.Reads.isStatement {node : Node} (h : Reads node) : node.IsStatement := by
  obtain ⟨read, heq, h⟩ := h
  refine node.isStatement_of_mark 0 ?_
  rw [heq]
  refine Node.IsStatement.mark ?_ 0
  obtain ⟨n, ts, rest, h⟩ | ⟨ts, h⟩ := h
  · obtain ⟨-, -, -, -, hs⟩ := statement_takes h
    exact hs
  · exact isStatement_of_readScript h

theorem Node.IsStatement.statements {root : Node} (h : root.IsStatement) :
    ∀ node ∈ root.statements, node.IsStatement := by
  unfold Node.statements
  split
  · cases h with
    | expression h => cases h
    | block h => exact h
  · simpa using h

theorem isStatement_of_parse {book : Phrasebook} {text : String} {root : Node}
    (h : Source.parse book text = .ok root) : root.IsStatement := by
  simp only [Source.parse, bind, Except.bind] at h
  split at h
  · cases h
  · simp only [Source.script, Source.placed] at h
    split at h
    · next hr =>
      cases h
      exact Grammar.isStatement_of_readScript hr
    · cases h

/-- A function without a tree has every property of trees. -/
def Function.Stores (P : Node → Prop) (f : Function) : Prop :=
  ∀ body closure, f.body = .script body closure → P body

structure Engine.Stores (P : Node → Prop) (e : Engine) : Prop where
  functions : ∀ name f, e.functions.get? name = some f → f.Stores P
  handlers : ∀ name event, e.events.get? name = some event →
    ∀ h ∈ event.handlers, P h.script.root

namespace Engine
variable {P Q : Node → Prop} {e e' : Engine}

theorem Stores.mono (h : e.Stores P) (hPQ : ∀ node, P node → Q node) : e.Stores Q where
  functions name f hf body closure hb := hPQ _ (h.functions name f hf body closure hb)
  handlers name event he handler hh := hPQ _ (h.handlers name event he handler hh)

theorem Stores.congr (h : e.Stores P) (hf : e'.functions = e.functions)
    (he : e'.events = e.events) : e'.Stores P where
  functions := by rw [hf]; exact h.functions
  handlers := by rw [he]; exact h.handlers

theorem Stores.defineFunction (h : e.Stores P) {f : Function} (hf : f.Stores P) :
    (e.defineFunction f).Stores P where
  functions name g hg := by
    simp only [Engine.defineFunction, trace, report, Table.get?_insert] at hg
    split at hg
    · cases hg
      exact hf
    · exact h.functions name g hg
  handlers := h.handlers

theorem Stores.registerHandler (h : e.Stores P) {name : String} {handler : Handler}
    (hh : P handler.script.root) (he : e.registerHandler name handler = .ok e') : e'.Stores P := by
  simp only [Engine.registerHandler] at he
  split at he
  · cases he
  · next event hevent =>
    cases he
    refine ⟨h.functions, fun n ev hev => ?_⟩
    simp only [trace, report, Table.get?_insert] at hev
    split at hev
    · cases hev
      intro x hx
      rcases List.mem_append.1 hx with hx | hx
      · exact h.handlers name event hevent x hx
      · rw [List.mem_singleton.1 hx]
        exact hh
    · exact h.handlers n ev hev

theorem Stores.registerEvent (h : e.Stores P) (name : String) (parameters : List Parameter) :
    (e.registerEvent name parameters).Stores P where
  functions := h.functions
  handlers n event hev := by
    simp only [Engine.registerEvent, trace, report, Table.get?_insert] at hev
    split at hev
    · cases hev
      split
      · next old hold => exact h.handlers name old hold
      · simp
    · exact h.handlers n event hev

theorem Stores.unregisterHandler (h : e.Stores P) (name : String) (script : Script)
    (scope : ScopeId) : (e.unregisterHandler name script scope).1.Stores P := by
  unfold Engine.unregisterHandler
  split
  · exact h
  · next event hevent =>
    refine ⟨h.functions, fun n ev hev => ?_⟩
    simp only [Table.get?_insert] at hev
    split at hev
    · cases hev
      exact fun x hx => h.handlers name event hevent x (List.mem_filter.1 hx).1
    · exact h.handlers n ev hev

theorem Stores.flush (h : e.Stores P) : e.flush.Stores P where
  functions := h.functions
  handlers name event hev := by
    simp only [Engine.flush, trace, report, Table.get?_map] at hev
    obtain ⟨ev, -, rfl⟩ := Option.map_eq_some_iff.1 hev
    simp

end Engine
end Parlance
