import Parlance.Proofs.Engine.Change

/-! Running code only adds to the tables of an engine. Types and the declarations of events stay as
they are; functions, handlers and variables come at the end, and what was there keeps its place. -/

namespace Parlance

/-- The second engine has all that the first has, in the same places, and perhaps more after it. -/
structure Engine.Extends (e e' : Engine) : Prop where
  types : e'.types = e.types
  functions : e.functions.names <+: e'.functions.names
  eventNames : e'.events.names = e.events.names
  events : ∀ name ev, e.events.get? name = some ev → ∃ ev', e'.events.get? name = some ev' ∧
    ev'.name = ev.name ∧ ev'.parameters = ev.parameters ∧ ev.handlers <+: ev'.handlers
  globals : e.globals.names <+: e'.globals.names
  locals : ∀ id s, e.scopes.get? id = some s → ∃ s', e'.scopes.get? id = some s' ∧
    s.locals.names <+: s'.locals.names

/-- Every table has each name once, and what carries a name of its own is stored under it. -/
structure Engine.Tidy (e : Engine) : Prop where
  functions : e.functions.names.Nodup
  types : e.types.names.Nodup
  events : e.events.names.Nodup
  globals : e.globals.names.Nodup
  locals : ∀ id s, e.scopes.get? id = some s → s.locals.names.Nodup
  functionName : ∀ name f, e.functions.get? name = some f → f.name = name
  eventName : ∀ name ev, e.events.get? name = some ev → ev.name = name

def Request.OnlyAdds : Request → Prop
  | .flush | .removeHandler .. | .declareEvent .. => False
  | _ => True

def Permit.adding : Permit where
  runs _ _ := True
  opens _ _ := True
  asks := Request.OnlyAdds
  runs_later _ _ := trivial
  opens_later _ _ := trivial
  opens_of_runs _ := trivial

namespace Act
variable {act : Act} {e : Engine} {n : Nat}

theorem events_of_permitted (h : act.Permitted .adding n) (name : String) (ev : Event)
    (hev : e.events.get? name = some ev) : ∃ ev', (act.apply e).events.get? name = some ev' ∧
      ev'.name = ev.name ∧ ev'.parameters = ev.parameters ∧ ev.handlers <+: ev'.handlers := by
  have hsame : ∃ ev', e.events.get? name = some ev' ∧ ev'.name = ev.name ∧
      ev'.parameters = ev.parameters ∧ ev.handlers <+: ev'.handlers :=
    ⟨ev, hev, rfl, rfl, List.prefix_rfl⟩
  rw [events_apply]
  cases act with
  | addHandler event handler =>
    simp only [onEvents, Table.get?_modify]
    split
    · next hname =>
      subst hname
      rw [hev]
      exact ⟨_, rfl, rfl, rfl, List.prefix_append _ _⟩
    · exact hsame
  | removeHandler | declareEvent | flush => exact h.elim
  | _ => exact hsame

theorem eventNames_of_permitted (h : act.Permitted .adding n) :
    (act.apply e).events.names = e.events.names := by
  rw [events_apply]
  cases act with
  | addHandler event handler => exact Table.names_modify _ _ _
  | removeHandler | declareEvent | flush => exact h.elim
  | _ => rfl

theorem functions_prefix_apply (act : Act) (e : Engine) :
    e.functions.names <+: (act.apply e).functions.names := by
  rw [functions_apply]
  cases act with
  | define name params body closure => exact Table.names_prefix_insert _ _ _
  | _ => exact List.prefix_rfl

theorem globals_prefix_apply (act : Act) (e : Engine) :
    e.globals.names <+: (act.apply e).globals.names := by
  rw [globals_apply]
  cases act with
  | setGlobal name v => exact Table.names_prefix_insert _ _ _
  | _ => exact List.prefix_rfl

theorem locals_prefix_apply (act : Act) {id : ScopeId} {s : Scope}
    (h : e.scopes.get? id = some s) : ∃ s', (act.apply e).scopes.get? id = some s' ∧
      s.locals.names <+: s'.locals.names := by
  rw [scopes_apply]
  cases act with
  | assign scope name v =>
    simp only [onScopes, ScopeTree.get?_set]
    split
    · exact ⟨_, by rw [h]; rfl, Table.names_prefix_insert _ _ _⟩
    · exact ⟨s, h, List.prefix_rfl⟩
  | addScope parent =>
    -- a scope that is there is not the one that comes
    have hid : id ≠ e.scopes.size := by
      rintro rfl
      rw [ScopeTree.get?_eq_none (Nat.le_refl _)] at h
      cases h
    simp only [onScopes, ScopeTree.get?_add, if_neg hid]
    exact ⟨s, h, List.prefix_rfl⟩
  | _ => exact ⟨s, h, List.prefix_rfl⟩

end Act

namespace Engine
variable {e e₁ e' : Engine}

theorem Extends.refl (e : Engine) : e.Extends e where
  types := rfl
  functions := List.prefix_rfl
  eventNames := rfl
  events _ ev hev := ⟨ev, hev, rfl, rfl, List.prefix_rfl⟩
  globals := List.prefix_rfl
  locals _ s hs := ⟨s, hs, List.prefix_rfl⟩

theorem Extends.trans (h : e.Extends e₁) (h' : e₁.Extends e') : e.Extends e' where
  types := h'.types.trans h.types
  functions := h.functions.trans h'.functions
  eventNames := h'.eventNames.trans h.eventNames
  events name ev hev := by
    obtain ⟨ev₁, hev₁, hname, hparams, hprefix⟩ := h.events name ev hev
    obtain ⟨ev', hev', hname', hparams', hprefix'⟩ := h'.events name ev₁ hev₁
    exact ⟨ev', hev', hname'.trans hname, hparams'.trans hparams, hprefix.trans hprefix'⟩
  globals := h.globals.trans h'.globals
  locals id s hs := by
    obtain ⟨s₁, hs₁, hprefix⟩ := h.locals id s hs
    obtain ⟨s', hs', hprefix'⟩ := h'.locals id s₁ hs₁
    exact ⟨s', hs', hprefix.trans hprefix'⟩

theorem extends_act {act : Act} {n : Nat} (h : act.Permitted .adding n) :
    e.Extends (act.apply e) where
  types := by
    obtain ⟨objects, entries, scriptCount, seed, ha⟩ := act.apply_eq e
    rw [ha]
  functions := act.functions_prefix_apply e
  eventNames := act.eventNames_of_permitted h
  events := act.events_of_permitted h
  globals := act.globals_prefix_apply e
  locals _ _ hs := act.locals_prefix_apply hs

theorem Tidy.act (ht : e.Tidy) {act : Act} {n : Nat} (h : act.Permitted .adding n) :
    (act.apply e).Tidy where
  functions := by
    rw [act.functions_apply]
    cases act with
    | define name params body closure => exact Table.nodup_names_insert ht.functions _ _
    | _ => exact ht.functions
  types := by
    rw [(extends_act h).types]
    exact ht.types
  events := by
    rw [act.eventNames_of_permitted h]
    exact ht.events
  globals := by
    rw [act.globals_apply]
    cases act with
    | setGlobal name v => exact Table.nodup_names_insert ht.globals _ _
    | _ => exact ht.globals
  locals id s hs := by
    rw [act.scopes_apply] at hs
    cases act with
    | assign scope name v =>
      simp only [Act.onScopes, ScopeTree.get?_set] at hs
      split at hs
      · obtain ⟨s₀, hs₀, rfl⟩ := Option.map_eq_some_iff.1 hs
        exact Table.nodup_names_insert (ht.locals id s₀ hs₀) _ _
      · exact ht.locals id s hs
    | addScope parent =>
      simp only [Act.onScopes, ScopeTree.get?_add] at hs
      split at hs
      · cases hs
        exact List.nodup_nil
      · exact ht.locals id s hs
    | _ => exact ht.locals id s hs
  functionName name f hf := by
    rcases Act.function_of_apply hf with hf | ⟨params, body, closure, -, rfl⟩
    · exact ht.functionName name f hf
    · rfl
  eventName name ev hev := by
    rw [act.events_apply] at hev
    cases act with
    | addHandler event handler =>
      simp only [Act.onEvents, Table.get?_modify] at hev
      split at hev
      · next hname =>
        subst hname
        obtain ⟨ev₀, hev₀, rfl⟩ := Option.map_eq_some_iff.1 hev
        exact ht.eventName name ev₀ hev₀
      · exact ht.eventName name ev hev
    | removeHandler | declareEvent | flush => exact h.elim
    | _ => exact ht.eventName name ev hev

theorem extends_keeps (e : Engine) :
    Permit.adding.Keeps fun e' => e.Extends e' ∧ (e.Tidy → e'.Tidy) where
  act h _ hact := ⟨h.1.trans (extends_act hact), fun ht => (h.2 ht).act hact⟩
  fresh _ := trivial

end Engine

/-- Whatever a script does and however it ends: it leaves types and declarations of events alone,
and adds functions, handlers and variables only after those that were there. Names stay distinct. -/
theorem script_only_adds (allowance : Nat) (s : Script) (scope : ScopeId) (e : Engine)
    (h : e.NativesAsk Request.OnlyAdds) :
    let e' := (Run.script allowance s scope e).2
    e.Extends e' ∧ (e.Tidy → e'.Tidy) := by
  have hwithin : e.Within .adding := h.within (fun _ _ => trivial) fun _ _ _ => trivial
  exact Run.script_keeps e.extends_keeps ⟨.refl e, id⟩ hwithin allowance s trivial

/-- A function is defined again and another one after it, from inside a call that a routine of the
host makes; the run ends with a fault, and what it added stays. -/
theorem script_only_adds_until_fault :
    let again : Native := fun _ => .ask (.call "f" []) fun answer => .done answer
    let definitions := Node.block [.functionDef "f" [] .null, .functionDef "g" [] .null,
      .handler "tick" .null, .assign "y" .null, .call "h" []]
    let e : Engine := {
      functions := ⟨[("f", .ofScript "f" [] definitions 0), ("again", ⟨"again", [], .native again⟩)]⟩
      events := ⟨[("tick", { name := "tick", parameters := [] })]⟩
      scopes := ⟨#[{}]⟩ }
    let r := Run.script 3 ⟨0, .block [.assign "x" .null, .call "again" []]⟩ 0 e
    e.NativesAsk Request.OnlyAdds ∧ e.Tidy ∧ e.Extends r.2 ∧ r.2.Tidy ∧
      r.1 = .error (.fault (.unknownFunction "h")) ∧
      r.2.functions.names = ["f", "again", "g"] ∧ r.2.handlerCount "tick" = 1 := by
  intro again definitions e r
  have hnatives : e.NativesAsk Request.OnlyAdds := by
    intro name f routine hf hb args
    simp only [e, Table.get?, List.lookup_cons, List.lookup_nil] at hf
    split at hf
    · cases hf
      cases hb
    · split at hf <;> cases hf
      cases hb
      exact ⟨trivial, fun _ => trivial⟩
  have htidy : e.Tidy := by
    refine ⟨by decide, by decide, by decide, by decide, ?_, ?_, ?_⟩
    · intro id s hs
      simp only [e, ScopeTree.get?, Array.getElem?_singleton] at hs
      split at hs <;> cases hs
      exact List.nodup_nil
    · intro name f hf
      simp only [e, Table.get?, List.lookup_cons, List.lookup_nil] at hf
      split at hf
      · next heq =>
        cases hf
        exact (eq_of_beq heq).symm
      · split at hf <;> cases hf
        next heq => exact (eq_of_beq heq).symm
    · intro name ev hev
      simp only [e, Table.get?, List.lookup_cons, List.lookup_nil] at hev
      split at hev <;> cases hev
      next heq => exact (eq_of_beq heq).symm
  have hadds := script_only_adds 3 ⟨0, .block [.assign "x" .null, .call "again" []]⟩ 0 e hnatives
  exact ⟨hnatives, htidy, hadds.1, hadds.2 htidy, rfl, rfl, rfl⟩

end Parlance
