import Parlance.Proofs.Engine.Lockstep

/-! Lexical scoping. Running code comes to the scope where it starts, to the scopes in which functions
were defined and handlers wait, and from each of these outward. The variables of every other scope
are hidden from it: whatever they are, it does the same. -/

namespace Parlance

/-- Code that starts in the scope `own`, or in none, can come to this scope. -/
inductive Engine.InReach (e : Engine) (own : Option ScopeId) : ScopeId → Prop
  | own {id : ScopeId} : own = some id → InReach e own id
  | closure {name : String} {f : Function} {body : Node} {id : ScopeId} :
      e.functions.get? name = some f → f.body = .script body id → InReach e own id
  | handler {name : String} {h : Handler} : e.Waits name h → InReach e own h.scope
  | parent {id p : ScopeId} : InReach e own id → e.scopes.parent? id = some p → InReach e own p

def Engine.Hidden (e : Engine) (own : Option ScopeId) (id : ScopeId) : Prop :=
  id < e.scopes.size ∧ ¬e.InReach own id

structure Engine.DiffersOnlyIn (H : ScopeId → Prop) (e e' : Engine) : Prop where
  rest : e' = { e with scopes := e'.scopes }
  size : e'.scopes.size = e.scopes.size
  parent : ∀ id, e'.scopes.parent? id = e.scopes.parent? id
  scope : ∀ id, ¬H id → e'.scopes.get? id = e.scopes.get? id

namespace Engine.DiffersOnlyIn
variable {H : ScopeId → Prop} {e e' : Engine}

theorem log_eq (h : e.DiffersOnlyIn H e') : e'.log = e.log := by
  rw [h.rest]
  rfl

theorem act (h : e.DiffersOnlyIn H e') (act : Act) :
    (act.apply e).DiffersOnlyIn H (act.apply e') := by
  have hscopes : (act.apply e').scopes = act.onScopes e'.scopes := act.scopes_apply e'
  have hrest : act.apply e' = { act.apply e with scopes := (act.apply e').scopes } := by
    have hact := act.apply_withScopes e e'.scopes
    rw [← h.rest] at hact
    rw [hscopes]
    exact hact
  refine ⟨hrest, ?_, ?_, ?_⟩
  all_goals rw [act.scopes_apply, act.scopes_apply]
  · cases act with
    | assign scope name v => simp only [Act.onScopes, ScopeTree.size_set, h.size]
    | addScope parent => simp only [Act.onScopes, ScopeTree.size_add, h.size]
    | _ => exact h.size
  · cases act with
    | assign scope name v => simp only [Act.onScopes, ScopeTree.parent?_set, h.parent, implies_true]
    | addScope parent =>
      simp only [Act.onScopes, ScopeTree.parent?_add, h.parent, h.size, implies_true]
    | _ => exact h.parent
  · intro id hid
    cases act with
    | assign scope name v => simp only [Act.onScopes, ScopeTree.get?_set, h.scope id hid]
    | addScope parent => simp only [Act.onScopes, ScopeTree.get?_add, h.scope id hid, h.size]
    | _ => exact h.scope id hid

end Engine.DiffersOnlyIn

def Permit.avoiding (H : ScopeId → Prop) : Permit where
  runs _ id := ¬H id
  opens _ id := ¬H id
  asks _ := True
  runs_later _ h := h
  opens_later _ h := h
  opens_of_runs h := h

/-- The engines differ in hidden scopes only, all of them among the first `n`, and no way outward
leads to one. -/
structure Engine.Shielded (H : ScopeId → Prop) (n : Nat) (e e' : Engine) : Prop
    extends e.DiffersOnlyIn H e' where
  old : n ≤ e.scopes.size
  outward : ∀ id p, ¬H id → e.scopes.parent? id = some p → ¬H p

theorem Engine.shielded_bond {H : ScopeId → Prop} {n : Nat} (hH : ∀ id, H id → id < n) :
    (Permit.avoiding H).Bond (Engine.Shielded H n) where
  rest h := h.rest
  size h := h.size
  lookup {e e' scope} h hs name := by
    have hchain : ∀ j ∈ e.scopes.chain scope, ¬H j :=
      ScopeTree.forall_mem_chain h.outward scope hs
    exact ScopeTree.lookup?_congr h.parent (fun j hj => h.scope j (hchain j hj)) name
  act {e e' act} h _ hact := by
    refine ⟨h.toDiffersOnlyIn.act act, Nat.le_trans h.old (act.size_le e), ?_⟩
    rw [act.scopes_apply]
    cases act with
    | assign scope name v =>
      simp only [Act.onScopes, ScopeTree.parent?_set]
      exact h.outward
    | addScope parent =>
      intro id p hid hp
      simp only [Act.onScopes, ScopeTree.parent?_add] at hp
      split at hp
      · exact hact p hp
      · exact h.outward id p hid hp
    | _ => exact h.outward
  fresh h hhidden := absurd (hH _ hhidden) (Nat.not_lt.2 h.old)

section Start
variable {e e' : Engine} {own : Option ScopeId}

theorem Engine.not_hidden_of_inReach {id : ScopeId} (h : e.InReach own id) : ¬e.Hidden own id :=
  fun hh => hh.2 h

theorem Engine.within_avoiding_hidden (e : Engine) (own : Option ScopeId) :
    e.Within (.avoiding (e.Hidden own)) where
  functions name f hf := by
    unfold Function.Permitted
    split
    · exact fun args => Routine.asks_all _
    · next body closure hb => exact not_hidden_of_inReach (.closure hf hb)
  handlers name h hw := not_hidden_of_inReach (.handler hw)

theorem Engine.DiffersOnlyIn.shielded (h : e.DiffersOnlyIn (e.Hidden own) e') :
    e.Shielded (e.Hidden own) e.scopes.size e' := by
  refine ⟨h, Nat.le_refl _, fun id p hid hp => ?_⟩
  by_cases hlt : id < e.scopes.size
  · have hreach : e.InReach own id := Classical.byContradiction fun hn => hid ⟨hlt, hn⟩
    exact Engine.not_hidden_of_inReach (.parent hreach hp)
  · rw [ScopeTree.parent?_eq_none (Nat.le_of_not_lt hlt)] at hp
    cases hp

theorem Lockstep.indifferent {α : Type} {m : Run α}
    (hm : Lockstep (.avoiding (e.Hidden own)) (Engine.Shielded (e.Hidden own) e.scopes.size)
      e.scopes.size m) (h : e.DiffersOnlyIn (e.Hidden own) e') :
    (m e').1 = (m e).1 ∧ (m e').2.log = (m e).2.log ∧
      (m e).2.DiffersOnlyIn (e.Hidden own) (m e').2 := by
  obtain ⟨hsame, hrel, -, -⟩ := hm e e' h.shielded (e.within_avoiding_hidden own)
    (Nat.le_refl _)
  exact ⟨hsame, hrel.log_eq, hrel.toDiffersOnlyIn⟩

end Start

/-! A call opens a frame where its function was defined, not where it was called from. -/

theorem Engine.DiffersOnlyIn.setAll {H : ScopeId → Prop} {e e' : Engine} (h : e.DiffersOnlyIn H e')
    (scope : ScopeId) (bindings : List (String × Value)) :
    Engine.DiffersOnlyIn H { e with scopes := e.scopes.setAll scope bindings }
      { e' with scopes := e'.scopes.setAll scope bindings } := by
  induction bindings generalizing e e' with
  | nil => exact h
  | cons binding bindings ih => exact ih (h.act (.assign scope binding.1 binding.2))

theorem Run.openFrame_readPath_congr {H : ScopeId → Prop} {e e' : Engine} {closure : ScopeId}
    (hH : ∀ id, H id → id < e.scopes.size ∧ id ∉ e.scopes.chain closure) (h : e.DiffersOnlyIn H e')
    (parameters : List Parameter) (vs : List Value) (path : String) :
    let read := Run.openFrame closure parameters vs >>= fun frame => Run.readPath frame path
    (read e').1 = (read e).1 := by
  intro read
  let bindings := (parameters.map (·.name)).zip vs
  let opened (e : Engine) : Engine :=
    { e with scopes := (e.scopes.add (some closure)).setAll e.scopes.size bindings }
  have hread (e : Engine) : read e =
      ofExcept ((opened e).resolve e.scopes.size (segments path)) (opened e) := rfl
  have hopened : (opened e).DiffersOnlyIn H (opened e') := by
    simp only [opened, h.size]
    exact (h.act (.addScope (some closure))).setAll e.scopes.size bindings
  -- outward from the frame lie only the frame itself and what is around the definition
  have hchain : ∀ j ∈ (opened e).scopes.chain e.scopes.size,
      (opened e').scopes.get? j = (opened e).scopes.get? j := by
    intro j hj
    rw [ScopeTree.chain_congr (ScopeTree.parent?_setAll _ _ _)] at hj
    refine hopened.scope j fun hhidden => ?_
    rcases ScopeTree.mem_chain_add hj with rfl | hj
    · exact Nat.lt_irrefl _ (hH _ hhidden).1
    · exact (hH j hhidden).2 hj
  have hresolve : (opened e').resolve e.scopes.size (segments path) =
      (opened e).resolve e.scopes.size (segments path) :=
    Engine.resolve_congr hopened.rest (ScopeTree.lookup?_congr hopened.parent hchain) _
  rw [hread, hread, h.size, hresolve]
  cases (opened e).resolve e.scopes.size (segments path) <;> rfl

/-- What a script or a called function does, the log included, does not depend on the variables of
scopes that are out of its reach: two engines that differ in nothing else do not after it either. In
particular a function does not see the variables of the scope from which it is called, unless that
scope lies around its definition. -/
theorem runs_independent_of_hidden (allowance : Nat) (e e' : Engine) :
    (∀ s scope, e.DiffersOnlyIn (e.Hidden (some scope)) e' →
      let run := Run.script allowance s scope
      (run e').1 = (run e).1 ∧ (run e').2.log = (run e).2.log ∧
        (run e).2.DiffersOnlyIn (e.Hidden (some scope)) (run e').2) ∧
    (∀ name args, e.DiffersOnlyIn (e.Hidden none) e' →
      let run := Run.function allowance name args
      (run e').1 = (run e).1 ∧ (run e').2.log = (run e).2.log ∧
        (run e).2.DiffersOnlyIn (e.Hidden none) (run e').2) ∧
    ∀ closure parameters vs path,
      e.DiffersOnlyIn (fun id => id < e.scopes.size ∧ id ∉ e.scopes.chain closure) e' →
      let read := Run.openFrame closure parameters vs >>= fun frame => Run.readPath frame path
      (read e').1 = (read e).1 := by
  have hbond (own : Option ScopeId) := Engine.shielded_bond fun id (h : e.Hidden own id) => h.1
  refine ⟨fun s scope h => ?_, fun name args h => ?_, fun closure parameters vs path h => ?_⟩
  · have hscope : ¬e.Hidden (some scope) scope := Engine.not_hidden_of_inReach (.own rfl)
    exact (Run.script_lockstep (hbond (some scope)) allowance s hscope).indifferent h
  · exact (Run.function_lockstep (hbond none) allowance name args).indifferent h
  · exact Run.openFrame_readPath_congr (fun _ hid => hid) h parameters vs path

/-- A function that was defined in the scope 0 reads the variable of this scope, whatever the scope
inside it has under the same name. -/
theorem runs_independent_of_hidden_shadow :
    let f := Function.ofScript "f" [] (.path "x") 0
    let outer : Scope := { locals := ⟨[("x", .bool true)]⟩ }
    let engine (locals : Table Value) : Engine :=
      { functions := ⟨[("f", f)]⟩, scopes := ⟨#[outer, { parent := some 0, locals }]⟩ }
    let e := engine ⟨[("x", .bool false)]⟩
    let e' := engine {}
    let run := Run.function 1 "f" []
    e.Hidden none 1 ∧ e.DiffersOnlyIn (e.Hidden none) e' ∧ (run e').1 = (run e).1 ∧
      (run e).1 = .ok (.bool true) := by
  intro f outer engine e e' run
  have hreach : ∀ id, e.InReach none id → id = 0 := by
    intro id h
    induction h with
    | own h => cases h
    | @closure name g body id hg hb =>
      simp only [e, engine, Table.get?, List.lookup_cons, List.lookup_nil] at hg
      split at hg <;> cases hg
      cases hb
      rfl
    | handler h =>
      obtain ⟨event, hevent, -⟩ := h
      cases hevent
    | parent _ hp ih =>
      subst ih
      cases hp
  have hhidden : e.Hidden none 1 := ⟨by decide, fun h => absurd (hreach 1 h) (by decide)⟩
  have hdiffers : e.DiffersOnlyIn (e.Hidden none) e' := by
    refine ⟨rfl, rfl, fun id => ?_, fun id hid => ?_⟩
    · rcases id with _ | _ | id <;> rfl
    · rcases id with _ | _ | id
      · rfl
      · exact absurd hhidden hid
      · rfl
  have hsame := (runs_independent_of_hidden 1 e e').2.1 "f" [] hdiffers
  -- the way from the frame goes to the scope 0 and not through the scope 1
  let opened : Engine := (e.addScope (some 0)).2
  have hchain : opened.scopes.chain 2 = [2, 0] := by
    rw [ScopeTree.chain]
    show 2 :: (if 0 < 2 then opened.scopes.chain 0 else []) = _
    rw [if_pos (by decide), ScopeTree.chain]
    rfl
  have hlookup : opened.scopes.lookup? 2 "x" = some (.bool true) := by
    rw [ScopeTree.lookup?, hchain]
    rfl
  have hresolve : opened.resolve 2 ["x"] = .ok (.bool true) := by
    simp only [Engine.resolve, Engine.lookup?, hlookup]
    rfl
  have hrun : run e = ((Flow.completed <$> Run.ofExcept (opened.resolve 2 ["x"])) >>=
      fun flow => pure flow.value) opened := rfl
  refine ⟨hhidden, hdiffers, hsame.1, ?_⟩
  rw [hrun, hresolve]
  rfl

end Parlance
