import Parlance.Engine.Run
import Parlance.Proofs.Engine.Stored
import Parlance.Proofs.Scope
import Parlance.Proofs.Table

/-! What running code does to an engine, as a short list of acts, and what it may be permitted to do.
Code runs in scopes, calls open frames inside scopes, and routines of the host put requests. Where
the tables of an engine hold only what is permitted, no permitted act changes that. -/

namespace Parlance

/-- One change that running code makes. An act that cannot be done changes nothing. -/
inductive Act where
  | assign (scope : ScopeId) (name : String) (v : Value)
  | addScope (parent : Option ScopeId)
  | writeMember (owner : Value) (member : String) (v : Value)
  | define (name : String) (params : List String) (body : Node) (closure : ScopeId)
  | mark (node : Node)
  | addHandler (event : String) (handler : Handler)
  | removeHandler (event : String) (script : Script) (scope : ScopeId)
  | declareEvent (name : String) (parameters : List Parameter)
  | flush
  | setGlobal (name : String) (v : Value)
  | report (channel : Channel) (message : String)
  | addObject (o : HostObject)
  | changeObject (id : ObjectId) (o : HostObject)
  | draw

namespace Act

def apply (act : Act) (e : Engine) : Engine :=
  match act with
  | assign scope name v => { e with scopes := e.scopes.set scope name v }
  | addScope parent => (e.addScope parent).2
  | writeMember owner member v =>
    match owner.writeMember e.objects member v with
    | .ok objects => { e with objects }
    | .error _ => e
  | define name params body closure => e.defineFunction (.ofScript name params body closure)
  | mark node => (e.mark node).2
  | addHandler event handler =>
    match e.registerHandler event handler with
    | .ok e => e
    | .error _ => e
  | removeHandler event script scope => (e.unregisterHandler event script scope).1
  | declareEvent name parameters => e.registerEvent name parameters
  | flush => e.flush
  | setGlobal name v => e.setGlobal name v
  | report channel message => e.report channel message
  | addObject o => (e.addObject o).2
  | changeObject id o => e.changeObject id o
  | draw => e.draw.2

/-! What an act does to each table of the engine, which depends on that table alone. -/

def onScopes (act : Act) (t : ScopeTree) : ScopeTree :=
  match act with
  | assign scope name v => t.set scope name v
  | addScope parent => t.add parent
  | _ => t

def onFunctions (act : Act) (t : Table Function) : Table Function :=
  match act with
  | define name params body closure => t.insert name (.ofScript name params body closure)
  | _ => t

def onGlobals (act : Act) (t : Table Value) : Table Value :=
  match act with
  | setGlobal name v => t.insert name v
  | _ => t

def onEvents (act : Act) (t : Table Event) : Table Event :=
  match act with
  | addHandler event handler =>
    t.modify event fun ev => { ev with handlers := ev.handlers ++ [handler] }
  | removeHandler event script scope =>
    t.modify event fun ev =>
      { ev with handlers := ev.handlers.filter fun h => !Engine.Handler.isFor script scope h }
  | declareEvent name parameters =>
    t.insert name <| match t.get? name with
      | some ev => { ev with parameters }
      | none => { name, parameters }
  | flush => t.map fun (ev : Event) => { ev with handlers := [] }
  | _ => t

theorem apply_eq (act : Act) (e : Engine) : ∃ (objects : Objects) (entries : List Entry)
    (scriptCount drawn : Nat), act.apply e =
      { e with
        functions := act.onFunctions e.functions
        events := act.onEvents e.events
        globals := act.onGlobals e.globals
        scopes := act.onScopes e.scopes
        objects
        journal := e.journal ++ entries
        scriptCount
        drawn } := by
  cases act with
  | writeMember owner member v =>
    simp only [apply]
    split
    · next objects _ => exact ⟨objects, [], e.scriptCount, e.drawn, rfl⟩
    · exact ⟨e.objects, [], e.scriptCount, e.drawn, rfl⟩
  | addHandler event handler =>
    simp only [apply, onEvents, Engine.registerHandler, Table.modify]
    cases e.events.get? event with
    | none => exact ⟨e.objects, [], e.scriptCount, e.drawn, rfl⟩
    | some ev => exact ⟨e.objects, [_], e.scriptCount, e.drawn, rfl⟩
  | removeHandler event script scope =>
    simp only [apply, onEvents, Engine.unregisterHandler, Table.modify]
    cases e.events.get? event <;> exact ⟨e.objects, [], e.scriptCount, e.drawn, rfl⟩
  | draw => exact ⟨e.objects, [], e.scriptCount, e.drawn + 1, rfl⟩
  | mark node => exact ⟨e.objects, [], e.scriptCount + node.cues.length, e.drawn, rfl⟩
  | addObject | changeObject => exact ⟨_, [], e.scriptCount, e.drawn, rfl⟩
  | assign | addScope | setGlobal => exact ⟨e.objects, [], e.scriptCount, e.drawn, rfl⟩
  | define | declareEvent | flush | report =>
    exact ⟨e.objects, [_], e.scriptCount, e.drawn, rfl⟩

theorem apply_withScopes (act : Act) (e : Engine) (t : ScopeTree) :
    act.apply { e with scopes := t } = { act.apply e with scopes := act.onScopes t } := by
  cases act with
  | writeMember owner member v =>
    simp only [apply, onScopes]
    split <;> rfl
  | addHandler event handler =>
    simp only [apply, onScopes, Engine.registerHandler]
    cases e.events.get? event <;> rfl
  | removeHandler event script scope =>
    simp only [apply, onScopes, Engine.unregisterHandler]
    cases e.events.get? event <;> rfl
  | _ => rfl

theorem scopes_apply (act : Act) (e : Engine) : (act.apply e).scopes = act.onScopes e.scopes := by
  obtain ⟨objects, entries, scriptCount, drawn, h⟩ := act.apply_eq e
  rw [h]

theorem functions_apply (act : Act) (e : Engine) :
    (act.apply e).functions = act.onFunctions e.functions := by
  obtain ⟨objects, entries, scriptCount, drawn, h⟩ := act.apply_eq e
  rw [h]

theorem events_apply (act : Act) (e : Engine) : (act.apply e).events = act.onEvents e.events := by
  obtain ⟨objects, entries, scriptCount, drawn, h⟩ := act.apply_eq e
  rw [h]

theorem globals_apply (act : Act) (e : Engine) :
    (act.apply e).globals = act.onGlobals e.globals := by
  obtain ⟨objects, entries, scriptCount, drawn, h⟩ := act.apply_eq e
  rw [h]

theorem size_le (act : Act) (e : Engine) : e.scopes.size ≤ (act.apply e).scopes.size := by
  rw [scopes_apply]
  cases act with
  | assign scope name v => exact Nat.le_of_eq (e.scopes.size_set scope name v).symm
  | addScope parent =>
    show e.scopes.size ≤ (e.scopes.add parent).size
    rw [ScopeTree.size_add]
    exact Nat.le_succ _
  | _ => exact Nat.le_refl _

theorem function_of_apply {act : Act} {e : Engine} {name : String} {f : Function}
    (h : (act.apply e).functions.get? name = some f) :
    e.functions.get? name = some f ∨ ∃ params body closure,
      act = .define name params body closure ∧ f = .ofScript name params body closure := by
  rw [functions_apply] at h
  cases act with
  | define name' params body closure =>
    simp only [onFunctions, Table.get?_insert] at h
    split at h
    · next hname =>
      subst hname
      exact .inr ⟨params, body, closure, rfl, (Option.some.inj h).symm⟩
    · exact .inl h
  | _ => exact .inl h

end Act

def Engine.Waits (e : Engine) (name : String) (h : Handler) : Prop :=
  ∃ event, e.events.get? name = some event ∧ h ∈ event.handlers

theorem Act.waits_of_apply {act : Act} {e : Engine} {name : String} {h : Handler}
    (hw : (act.apply e).Waits name h) : e.Waits name h ∨ act = .addHandler name h := by
  obtain ⟨event, hev, hh⟩ := hw
  rw [events_apply] at hev
  cases act with
  | addHandler name' handler =>
    simp only [onEvents, Table.get?_modify] at hev
    split at hev
    · next hname =>
      subst hname
      obtain ⟨old, hold, rfl⟩ := Option.map_eq_some_iff.1 hev
      rcases List.mem_append.1 hh with hh | hh
      · exact .inl ⟨old, hold, hh⟩
      · exact .inr (by rw [List.mem_singleton.1 hh])
    · exact .inl ⟨event, hev, hh⟩
  | removeHandler name' script scope =>
    simp only [onEvents, Table.get?_modify] at hev
    split at hev
    · next hname =>
      subst hname
      obtain ⟨old, hold, rfl⟩ := Option.map_eq_some_iff.1 hev
      exact .inl ⟨old, hold, (List.mem_filter.1 hh).1⟩
    · exact .inl ⟨event, hev, hh⟩
  | declareEvent name' parameters =>
    simp only [onEvents, Table.get?_insert] at hev
    split at hev
    · next hname =>
      subst hname
      cases hev
      cases hold : e.events.get? name with
      | none => simp [hold] at hh
      | some old =>
        rw [hold] at hh
        exact .inl ⟨old, hold, hh⟩
    · exact .inl ⟨event, hev, hh⟩
  | flush =>
    simp only [onEvents, Table.get?_map] at hev
    obtain ⟨old, -, rfl⟩ := Option.map_eq_some_iff.1 hev
    simp at hh
  | _ => exact .inl ⟨event, hev, hh⟩

/-- The routine puts only such requests, whatever it is answered. -/
def Routine.Asks (may : Request → Prop) {α : Type} : Routine α → Prop
  | done _ => True
  | ask q next => may q ∧ ∀ a, (next a).Asks may

/-- What running code may do while there are `n` scopes: in which scopes it may run, in which a call
may open its frame, and which requests routines of the host may put. -/
structure Permit where
  runs : Nat → ScopeId → Prop
  opens : Nat → ScopeId → Prop
  asks : Request → Prop
  runs_later {n k : Nat} {scope : ScopeId} : n ≤ k → runs n scope → runs k scope
  opens_later {n k : Nat} {scope : ScopeId} : n ≤ k → opens n scope → opens k scope
  opens_of_runs {n : Nat} {scope : ScopeId} : runs n scope → opens n scope

def Permit.all : Permit where
  runs _ _ := True
  opens _ _ := True
  asks _ := True
  runs_later _ _ := trivial
  opens_later _ _ := trivial
  opens_of_runs _ := trivial

def Act.Permitted (p : Permit) (n : Nat) : Act → Prop
  | assign scope _ _ => p.runs n scope
  | addScope parent => ∀ scope, parent = some scope → p.opens n scope
  | define _ _ _ closure => p.runs n closure
  | addHandler _ handler => p.runs n handler.scope
  | removeHandler event script scope => p.asks (.removeHandler event script scope)
  | declareEvent name parameters => p.asks (.declareEvent name parameters)
  | flush => p.asks .flush
  | setGlobal name v => p.asks (.writeGlobal name v)
  | addObject o => p.asks (.addObject o)
  | changeObject id o => p.asks (.changeObject id o)
  | draw => p.asks .random
  | writeMember .. | mark _ | report .. => True

def Function.Permitted (p : Permit) (n : Nat) (f : Function) : Prop :=
  match f.body with
  | .native routine => ∀ args, (routine args).Asks p.asks
  | .script _ closure => p.opens n closure

theorem Function.Permitted.later {p : Permit} {n k : Nat} {f : Function} (h : f.Permitted p n)
    (hk : n ≤ k) : f.Permitted p k := by
  unfold Function.Permitted at h ⊢
  split
  · next routine hb => simpa only [hb] using h
  · next body closure hb =>
    simp only [hb] at h
    exact p.opens_later hk h

structure Engine.Within (p : Permit) (e : Engine) : Prop where
  functions : ∀ name f, e.functions.get? name = some f → f.Permitted p e.scopes.size
  handlers : ∀ name h, e.Waits name h → p.runs e.scopes.size h.scope

def Engine.NativesAsk (may : Request → Prop) (e : Engine) : Prop :=
  ∀ name f routine, e.functions.get? name = some f → f.body = .native routine →
    ∀ args, (routine args).Asks may

theorem Engine.NativesAsk.within {p : Permit} {e : Engine} (h : e.NativesAsk p.asks)
    (hopens : ∀ n id, p.opens n id)
    (hhandlers : ∀ name handler, e.Waits name handler → p.runs e.scopes.size handler.scope) :
    e.Within p where
  functions name f hf := by
    unfold Function.Permitted
    split
    · next routine hb => exact h name f routine hf hb
    · exact hopens _ _
  handlers := hhandlers

theorem Engine.Within.act {p : Permit} {e : Engine} (h : e.Within p) {act : Act}
    (hact : act.Permitted p e.scopes.size) : (act.apply e).Within p where
  functions name f hf := by
    refine Function.Permitted.later ?_ (act.size_le e)
    rcases Act.function_of_apply hf with hf | ⟨params, body, closure, rfl, rfl⟩
    · exact h.functions name f hf
    · exact p.opens_of_runs hact
  handlers name handler hw := by
    refine p.runs_later (act.size_le e) ?_
    rcases Act.waits_of_apply hw with hw | rfl
    · exact h.handlers name handler hw
    · exact hact

theorem Routine.asks_all {α : Type} (routine : Routine α) : routine.Asks fun _ => True := by
  induction routine with
  | done a => trivial
  | ask q next ih => exact ⟨trivial, ih⟩

theorem Function.permitted_all (f : Function) (n : Nat) : f.Permitted .all n := by
  unfold Function.Permitted
  split
  · exact fun args => Routine.asks_all _
  · trivial

theorem Engine.within_all (e : Engine) : e.Within .all where
  functions _ f _ := f.permitted_all _
  handlers _ _ _ := trivial

end Parlance
