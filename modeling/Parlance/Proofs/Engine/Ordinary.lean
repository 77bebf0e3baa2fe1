import Parlance.Files.Load
import Parlance.Proofs.Engine.Stored

/-! Faults by an unknown operator. Nothing in the engine fails in this way on trees of the grammar, and
a routine of the host does only if it was answered so or of its own accord. Where the latter does not
matter, everything is admissible: this is what `lax` says. -/

namespace Parlance
variable {lax : Prop}

def Fault.Admissible (lax : Prop) : Fault → Prop
  | .unknownOperator _ => lax
  | _ => True

def Halt.Admissible (lax : Prop) : Halt → Prop
  | .fault f => f.Admissible lax
  | .exhausted => True

def Admissible (lax : Prop) {α : Type} : Except Fault α → Prop
  | .ok _ => True
  | .error f => f.Admissible lax

theorem Admissible.bind {α β : Type} {x : Except Fault α} {f : α → Except Fault β}
    (hx : Admissible lax x) (hf : ∀ a, Admissible lax (f a)) : Admissible lax (x >>= f) := by
  cases x with
  | error fault => exact hx
  | ok a => exact hf a

theorem admissible_mapError_file {α : Type} (x : Except FileFault α) :
    Admissible lax (x.mapError .file) := by
  cases x <;> trivial

theorem admissible_readMember (objects : Objects) (v : Value) (member : String) :
    Admissible lax (v.readMember objects member) := by
  unfold Value.readMember
  repeat' split
  all_goals trivial

theorem admissible_resolve (e : Engine) (scope : ScopeId) (names : List String) :
    Admissible lax (e.resolve scope names) := by
  have hmembers (members : List String) (v : Value) :
      Admissible lax (members.foldlM (Value.readMember e.objects) v) := by
    induction members generalizing v with
    | nil => trivial
    | cons member members ih => exact (admissible_readMember e.objects v member).bind ih
  unfold Engine.resolve
  split
  · trivial
  · split
    · trivial
    · exact hmembers _ _

theorem admissible_writeMember (objects : Objects) (owner : Value) (member : String) (v : Value) :
    Admissible lax (owner.writeMember objects member v) := by
  unfold Value.writeMember
  repeat' split
  all_goals trivial

theorem admissible_combine {op : BinaryOp} (hop : op ∈ BinaryOp.known) (objects : Objects)
    (a b : Value) : Admissible lax (a.combine objects op b) := by
  have hnumeric (f : Float → Float → Float) : Admissible lax (Value.numeric objects op f a b) := by
    unfold Value.numeric
    split <;> trivial
  have hordered (test : Ordering → Bool) : Admissible lax (Value.ordered objects op test a b) := by
    unfold Value.ordered
    split <;> trivial
  cases op with
  | other t => exact absurd hop (by simp [BinaryOp.known])
  | or | and | eq | ne => trivial
  | add =>
    simp only [Value.combine]
    split
    · trivial
    · exact hnumeric _
  | sub | mul | div | mod => exact hnumeric _
  | lt | gt | le | ge => exact hordered _

theorem admissible_applyUnary {op : UnaryOp} (hop : op ∈ [UnaryOp.neg, .bang, .not])
    (objects : Objects) (v : Value) : Admissible lax (v.applyUnary objects op) := by
  cases op with
  | other t => exact absurd hop (by simp)
  | bang | not => trivial
  | neg =>
    simp only [Value.applyUnary]
    split <;> trivial

theorem admissible_bindings (f : Function) (e : Engine) (args : List Value) :
    Admissible lax (f.bindings e args) := by
  have hcoerce (ps : List (Parameter × Value)) : Admissible lax (e.coerceAll ps) := by
    induction ps with
    | nil => trivial
    | cons p ps ih =>
      unfold Engine.coerceAll
      split
      · trivial
      · split
        · trivial
        · split
          · next fault hfault =>
            rw [hfault] at ih
            exact ih
          · trivial
  unfold Function.bindings
  split
  · trivial
  · split
    · trivial
    · exact hcoerce _

theorem admissible_parse (e : Engine) (text : String) : Admissible lax (e.parse text) := by
  have htokens (s : String) : Admissible lax (Source.tokens s) := by
    unfold Source.tokens
    split <;> trivial
  refine (htokens _).bind fun ts => ?_
  unfold Source.script Source.placed
  split <;> trivial

theorem admissible_registerHandler (e : Engine) (event : String) (handler : Handler) :
    Admissible lax (e.registerHandler event handler) := by
  unfold Engine.registerHandler
  split <;> trivial

/-! Routines of the host. -/

/-- The answer is not that the code which was asked for failed by an unknown operator, unless that is
admissible. -/
def Request.Admissible (lax : Prop) : (q : Request) → q.Answer → Prop
  | .call .., r | .trigger .., r | .execute _, r => Parlance.Admissible lax r
  | _, _ => True

def Routine.Admissible (lax : Prop) : Routine (Except Fault Value) → Prop
  | .done r => Parlance.Admissible lax r
  | .ask q next => ∀ a, q.Admissible lax a → (next a).Admissible lax

/-- The routine does not fail by an unknown operator of its own accord. -/
abbrev Routine.IsHonest (routine : Routine (Except Fault Value)) : Prop := routine.Admissible False

theorem Routine.admissible_of_lax (h : lax) (routine : Routine (Except Fault Value)) :
    routine.Admissible lax := by
  induction routine with
  | done r =>
    rcases r with fault | v
    · cases fault <;> first | exact h | trivial
    · trivial
  | ask q next ih => exact fun a _ => ih a

structure Function.IsSound (lax : Prop) (f : Function) : Prop where
  stores : f.Stores Node.IsStatement
  honest : ∀ run, f.body = .native run → ∀ args, (run args).Admissible lax

structure Engine.IsSound (lax : Prop) (e : Engine) : Prop where
  stores : e.Stores Node.IsStatement
  honest : ∀ name f, e.functions.get? name = some f →
    ∀ run, f.body = .native run → ∀ args, (run args).Admissible lax

namespace Engine.IsSound
variable {e e' : Engine}

theorem of_lax (h : lax) (hs : e.Stores Node.IsStatement) : e.IsSound lax where
  stores := hs
  honest _ _ _ _ _ _ := Routine.admissible_of_lax h _

theorem function (h : e.IsSound lax) {name : String} {f : Function}
    (hf : e.functions.get? name = some f) : f.IsSound lax :=
  ⟨h.stores.functions name f hf, h.honest name f hf⟩

theorem of_stores (h : e.IsSound lax) (hs : e'.Stores Node.IsStatement)
    (hf : e'.functions = e.functions) : e'.IsSound lax where
  stores := hs
  honest := by rw [hf]; exact h.honest

theorem congr (h : e.IsSound lax) (hf : e'.functions = e.functions) (he : e'.events = e.events) :
    e'.IsSound lax := h.of_stores (h.stores.congr hf he) hf

theorem defineFunction (h : e.IsSound lax) {f : Function} (hf : f.IsSound lax) :
    (e.defineFunction f).IsSound lax where
  stores := h.stores.defineFunction hf.stores
  honest name g hg := by
    simp only [Engine.defineFunction, trace, report, Table.get?_insert] at hg
    split at hg
    · cases hg
      exact hf.honest
    · exact h.honest name g hg

theorem unregisterHandler (h : e.IsSound lax) (name : String) (script : Script) (scope : ScopeId) :
    (e.unregisterHandler name script scope).1.IsSound lax := by
  refine h.of_stores (h.stores.unregisterHandler name script scope) ?_
  unfold Engine.unregisterHandler
  split <;> rfl

theorem registerHandler (h : e.IsSound lax) {name : String} {handler : Handler}
    (hh : handler.script.root.IsStatement) (he : e.registerHandler name handler = .ok e') :
    e'.IsSound lax := by
  refine h.of_stores (h.stores.registerHandler hh he) ?_
  unfold Engine.registerHandler at he
  split at he
  · cases he
  · cases he
    rfl

end Engine.IsSound
end Parlance
