import Parlance.Proofs.Engine.Change

/-! Assignment is local. A run writes variables of its own scope, of the scopes in which handlers
wait, and of scopes that it opens itself; it never writes a global variable, and a scope stays where
it is in the tree. -/

namespace Parlance

def Engine.Captures (e : Engine) (id : ScopeId) : Prop := ∃ name h, e.Waits name h ∧ h.scope = id

def Request.SparesGlobals : Request → Prop
  | .writeGlobal .. => False
  | _ => True

namespace Act

theorem parent?_apply (act : Act) {e : Engine} {id : ScopeId} (h : id < e.scopes.size) :
    (act.apply e).scopes.parent? id = e.scopes.parent? id := by
  rw [scopes_apply]
  cases act with
  | assign scope name v => exact e.scopes.parent?_set scope name v id
  | addScope parent =>
    have hid : id ≠ e.scopes.size := Nat.ne_of_lt h
    show (e.scopes.add parent).parent? id = _
    rw [ScopeTree.parent?_add, if_neg hid]
  | _ => rfl

theorem get?_apply {act : Act} {e : Engine} {id : ScopeId} (h : id < e.scopes.size)
    (hact : ∀ name v, act ≠ .assign id name v) :
    (act.apply e).scopes.get? id = e.scopes.get? id := by
  rw [scopes_apply]
  cases act with
  | assign scope name v =>
    have hid : scope ≠ id := fun hs => hact name v (by rw [hs])
    show (e.scopes.set scope name v).get? id = _
    rw [ScopeTree.get?_set, if_neg hid]
  | addScope parent =>
    have hid : id ≠ e.scopes.size := Nat.ne_of_lt h
    show (e.scopes.add parent).get? id = _
    rw [ScopeTree.get?_add, if_neg hid]
  | _ => rfl

end Act

theorem Engine.Reaches.parent?_eq {e e' : Engine} (h : e.Reaches e') {id : ScopeId}
    (hid : id < e.scopes.size) : e'.scopes.parent? id = e.scopes.parent? id := by
  induction h with
  | refl => rfl
  | step act hr ih => rw [act.parent?_apply (Nat.lt_of_lt_of_le hid hr.size_le), ih]

/-- The scopes that a run may write: its own, those of waiting handlers, and every later one. -/
def Engine.Writable (e : Engine) (scope id : ScopeId) : Prop :=
  e.scopes.size ≤ id ∨ id = scope ∨ e.Captures id

def Permit.confined (e : Engine) (scope : ScopeId) : Permit where
  runs _ id := e.Writable scope id
  opens _ _ := True
  asks := Request.SparesGlobals
  runs_later _ h := h
  opens_later _ h := h
  opens_of_runs _ := trivial

theorem Engine.within_confined {e : Engine} (h : e.NativesAsk Request.SparesGlobals) (scope : ScopeId) :
    e.Within (.confined e scope) :=
  h.within (fun _ _ => trivial) fun name handler hw => .inr (.inr ⟨name, handler, hw, rfl⟩)

/-- What was there at the start is as it was, apart from the variables of writable scopes. -/
structure Engine.Confined (e : Engine) (scope : ScopeId) (e' : Engine) : Prop where
  reaches : e.Reaches e'
  globals : e'.globals = e.globals
  scopes : ∀ id, ¬e.Writable scope id → e'.scopes.get? id = e.scopes.get? id

theorem Engine.confined_keeps (e : Engine) (scope : ScopeId) :
    (Permit.confined e scope).Keeps (e.Confined scope) where
  act := by
    intro e₁ act h _ hact
    refine ⟨.step act h.reaches, ?_, ?_⟩
    · rw [act.globals_apply]
      cases act with
      | setGlobal name v => exact hact.elim
      | _ => exact h.globals
    · intro id hid
      have hold : id < e.scopes.size := Nat.lt_of_not_le fun hle => hid (.inl hle)
      rw [Act.get?_apply (Nat.lt_of_lt_of_le hold h.reaches.size_le) ?_, h.scopes id hid]
      -- an assignment to `id` is permitted only where `id` is writable
      rintro name v rfl
      exact hid hact
  fresh h := .inl h.reaches.size_le

/-- Running a script in a scope, whatever it calls or triggers and however it ends, leaves every
other scope that was there as it was, except where a handler waited; it leaves the global variables
alone, and no scope, old or new, is moved in the tree. -/
theorem script_writes_locally (allowance : Nat) (s : Script) (scope : ScopeId) (e : Engine)
    (h : e.NativesAsk Request.SparesGlobals) :
    let e' := (Run.script allowance s scope e).2
    (∀ id, id < e.scopes.size → id ≠ scope → ¬e.Captures id →
      e'.scopes.get? id = e.scopes.get? id) ∧
    e'.globals = e.globals ∧
    e.Reaches e' ∧ ∀ e₁ : Engine, e₁.Reaches e' → ∀ id, id < e₁.scopes.size →
      e'.scopes.parent? id = e₁.scopes.parent? id := by
  intro e'
  have hstart : e.Confined scope e := ⟨.refl, rfl, fun _ _ => rfl⟩
  have hend : e.Confined scope e' :=
    Run.script_keeps (e.confined_keeps scope) hstart (e.within_confined h scope) allowance s
      (.inr (.inl rfl))
  refine ⟨fun id hid hscope hcaptured => ?_, hend.globals, hend.reaches,
    fun e₁ hr id hid => hr.parent?_eq hid⟩
  refine hend.scopes id ?_
  rintro (hle | heq | hc)
  · omega
  · exact hscope heq
  · exact hcaptured hc

/-- A function defined in scope 2, a handler that waits in scope 1 and a routine of the host. Each of
them is called from scope 0, and scope 2 alone keeps its variables. -/
theorem script_writes_locally_of_calls :
    let assignment := Node.assign "x" (.literal (.bool true))
    let greet : Native := fun _ => .ask (.report (.log .info) "hello") fun _ => .done (.ok .null)
    let e : Engine := {
      functions := ⟨[("greet", ⟨"greet", [], .native greet⟩), ("f", .ofScript "f" [] assignment 2)]⟩
      events := ⟨[("tick", { name := "tick", parameters := [], handlers := [⟨⟨0, assignment⟩, 1⟩] })]⟩
      scopes := ⟨#[{}, {}, {}]⟩ }
    let root := Node.block [assignment, .call "f" [], .call "greet" [], .trigger "tick" []]
    let r := Run.script 2 ⟨1, root⟩ 0 e
    e.NativesAsk Request.SparesGlobals ∧ ¬e.Captures 2 ∧ r.1 = .ok .null ∧
      (r.2.scopes.local? 0 "x").isSome ∧ (r.2.scopes.local? 1 "x").isSome ∧
      r.2.scopes.get? 2 = e.scopes.get? 2 ∧ r.2.globals = e.globals := by
  intro assignment greet e root r
  have hnatives : e.NativesAsk Request.SparesGlobals := by
    intro name f routine hf hb args
    simp only [e, Table.get?, List.lookup_cons, List.lookup_nil] at hf
    split at hf
    · cases hf
      cases hb
      exact ⟨trivial, fun _ => trivial⟩
    · split at hf <;> cases hf
      cases hb
  have hcaptures : ¬e.Captures 2 := by
    rintro ⟨name, handler, ⟨event, hev, hh⟩, hscope⟩
    simp only [e, Table.get?, List.lookup_cons, List.lookup_nil] at hev
    split at hev <;> cases hev
    rw [List.mem_singleton.1 hh] at hscope
    cases hscope
  have hlocal := script_writes_locally 2 ⟨1, root⟩ 0 e hnatives
  exact ⟨hnatives, hcaptures, rfl, rfl, rfl, hlocal.1 2 (by decide) (by decide) hcaptures, hlocal.2.1⟩

end Parlance
