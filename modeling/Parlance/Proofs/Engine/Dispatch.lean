import Parlance.Proofs.Engine.Change

/-! Triggering an event. The handlers that wait at this moment run one after the other, whatever they
do to the tables meanwhile, and a fault in one of them is logged and stays with it. -/

namespace Parlance

/-! The log only gets longer. -/

namespace Engine

theorem log_append (e : Engine) (entries : List Entry) :
    ({ e with journal := e.journal ++ entries } : Engine).log =
      e.log ++ ({ e with journal := entries.toArray } : Engine).log := by
  simp only [log, Array.toList_appendList, List.filterMap_append]

theorem log_trace (e : Engine) (activity : String) (details : List (String × String)) :
    (e.trace activity details).log = e.log := by
  simp [trace, report, log]

theorem log_report_error (e : Engine) (message : String) :
    (e.report (.log .error) message).log = e.log ++ [(.error, message)] := by
  simp [report, log]

theorem log_prefix_apply (e : Engine) (act : Act) : e.log <+: (act.apply e).log := by
  obtain ⟨objects, entries, scriptCount, drawn, ha⟩ := act.apply_eq e
  rw [ha]
  exact ⟨_, (e.log_append entries).symm⟩

theorem log_keeps (e : Engine) : Permit.all.Keeps fun e' => e.log <+: e'.log where
  act h _ _ := h.trans (log_prefix_apply _ _)
  fresh _ := trivial

end Engine

def Handler.start (h : Handler) (bindings : List (String × Value)) (e : Engine) : Engine :=
  { e with scopes := e.scopes.setAll h.scope bindings }

/-- The scope has every argument under the name of its parameter, just as it was given. Of two
parameters with the same name the later one counts. -/
def Engine.HasArguments (e : Engine) (scope : ScopeId) (parameters : List Parameter)
    (args : List Value) : Prop :=
  ∀ i p v, parameters[i]? = some p → args[i]? = some v →
    (∀ q ∈ parameters.drop (i + 1), q.name ≠ p.name) → e.scopes.local? scope p.name = some v

theorem Handler.hasArguments_start (h : Handler) {e : Engine} (hscope : h.scope < e.scopes.size)
    (parameters : List Parameter) (args : List Value) :
    (h.start ((parameters.map (·.name)).zip args) e).HasArguments h.scope parameters args := by
  intro i p v hp hv hlast
  refine ScopeTree.local?_setAll (i := i) hscope ?_ ?_
  · rw [List.getElem?_zip_eq_some, List.getElem?_map, hp]
    exact ⟨rfl, hv⟩
  · rintro ⟨name, w⟩ hpair
    rw [List.zip_eq_zipWith, List.drop_zipWith, ← List.zip_eq_zipWith, ← List.map_drop] at hpair
    obtain ⟨q, hq, rfl⟩ := List.mem_map.1 (List.of_mem_zip hpair).1
    exact hlast q hq

/-- One handler's part of a dispatch: the engine that it found, how its script ended, and the engine
that the script left. -/
structure Turn (allowance : Nat) (bindings : List (String × Value)) where
  handler : Handler
  found : Engine
  outcome : Except Fault Value
  left : Engine
  run_eq : Run.script allowance handler.script handler.scope (handler.start bindings found) =
    (outcome.mapError .fault, left)

namespace Turn
variable {allowance : Nat} {bindings : List (String × Value)}

def entries (t : Turn allowance bindings) : List (Level × String) :=
  t.left.log.drop t.found.log.length

def failure (event : String) (t : Turn allowance bindings) : List (Level × String) :=
  match t.outcome with
  | .ok _ => []
  | .error f => [(.error, s!"handler for event `{event}` failed: {f.message}")]

def after (event : String) (t : Turn allowance bindings) : Engine :=
  match t.outcome with
  | .ok _ => t.left
  | .error f => t.left.report (.log .error) s!"handler for event `{event}` failed: {f.message}"

theorem log_left (t : Turn allowance bindings) : t.left.log = t.found.log ++ t.entries := by
  have hprefix : t.found.log <+: t.left.log := by
    -- having the arguments in the scope adds nothing to the log
    let started := t.handler.start bindings t.found
    have hkeeps :
        started.log <+: (Run.script allowance t.handler.script t.handler.scope started).2.log :=
      Run.script_keeps started.log_keeps List.prefix_rfl started.within_all _ _ trivial
    rw [t.run_eq] at hkeeps
    exact hkeeps
  exact (List.prefix_iff_eq_append.1 hprefix).symm

theorem log_after (event : String) (t : Turn allowance bindings) :
    (t.after event).log = t.found.log ++ (t.entries ++ t.failure event) := by
  unfold after failure
  cases t.outcome with
  | ok v => simp only [t.log_left, List.append_nil]
  | error f => simp only [Engine.log_report_error, t.log_left, List.append_assoc]

end Turn

inductive Turns {allowance : Nat} {bindings : List (String × Value)} (event : String) :
    Engine → List (Turn allowance bindings) → Engine → Prop
  | nil (e : Engine) : Turns event e [] e
  | cons {turns : List (Turn allowance bindings)} {e' : Engine} (t : Turn allowance bindings) :
      Turns event (t.after event) turns e' → Turns event t.found (t :: turns) e'

theorem Turns.log_eq {allowance : Nat} {bindings : List (String × Value)} {event : String}
    {e e' : Engine} {turns : List (Turn allowance bindings)} (h : Turns event e turns e') :
    e'.log = e.log ++ turns.flatMap fun t => t.entries ++ t.failure event := by
  induction h with
  | nil e => simp
  | cons t _ ih => rw [ih, t.log_after, List.flatMap_cons, List.append_assoc]

theorem Turn.exists_or_exhausted (allowance : Nat) (bindings : List (String × Value)) (h : Handler)
    (e : Engine) : (∃ t : Turn allowance bindings, t.handler = h ∧ t.found = e) ∨
      ∃ e₁, Run.script allowance h.script h.scope (h.start bindings e) = (.error .exhausted, e₁) := by
  rcases hrun : Run.script allowance h.script h.scope (h.start bindings e)
    with ⟨(f | _) | v, e₁⟩
  · exact .inl ⟨⟨h, e, .error f, e₁, hrun⟩, rfl, rfl⟩
  · exact .inr ⟨e₁, rfl⟩
  · exact .inl ⟨⟨h, e, .ok v, e₁, hrun⟩, rfl, rfl⟩

namespace Run
variable {allowance : Nat} {bindings : List (String × Value)}

theorem runHandlers_cons_apply (event : String) (h : Handler) (rest : List Handler) (e : Engine) :
    let go := runHandlers allowance (serve allowance) event bindings
    go (h :: rest) e = match script allowance h.script h.scope (h.start bindings e) with
      | (.ok _, e₁) => go rest e₁
      | (.error (.fault f), e₁) => go rest
          (e₁.report (.log .error) s!"handler for event `{event}` failed: {f.message}")
      | (.error .exhausted, e₁) => (.error .exhausted, e₁) := by
  intro go
  show (attempt (script allowance h.script h.scope) >>= fun outcome => do
    match outcome with
    | .ok _ => pure ()
    | .error f => report (.log .error) s!"handler for event `{event}` failed: {f.message}"
    go rest) (h.start bindings e) = _
  rw [bind_apply]
  unfold attempt
  rcases script allowance h.script h.scope (h.start bindings e) with ⟨(f | _) | v, e₁⟩ <;> rfl

theorem runHandlers_cons_turn (event : String) (t : Turn allowance bindings) (rest : List Handler) :
    runHandlers allowance (serve allowance) event bindings (t.handler :: rest) t.found =
      runHandlers allowance (serve allowance) event bindings rest (t.after event) := by
  rw [runHandlers_cons_apply, t.run_eq]
  unfold Turn.after
  cases t.outcome <;> rfl

theorem runHandlers_turns (event : String) (handlers : List Handler) (e : Engine) :
    let r := runHandlers allowance (serve allowance) event bindings handlers e
    ∃ (turns : List (Turn allowance bindings)) (e₁ : Engine), Turns event e turns e₁ ∧
      ((handlers = turns.map (·.handler) ∧ r = (.ok (), e₁)) ∨
        ∃ h rest e₂, handlers = turns.map (·.handler) ++ h :: rest ∧
          script allowance h.script h.scope (h.start bindings e₁) = (.error .exhausted, e₂) ∧
          r = (.error .exhausted, e₂)) := by
  induction handlers generalizing e with
  | nil => exact ⟨[], e, .nil e, .inl ⟨rfl, rfl⟩⟩
  | cons h rest ih =>
    -- the first handler has its turn, and the others go on from the engine that it leaves
    rcases Turn.exists_or_exhausted allowance bindings h e with ⟨t, rfl, rfl⟩ | ⟨e₂, hend⟩
    · rw [runHandlers_cons_turn]
      obtain ⟨turns, e₁, hturns, hdone | ⟨h, later, e₂, hhandlers, hend⟩⟩ := ih (t.after event)
      · exact ⟨t :: turns, e₁, .cons t hturns, .inl ⟨by rw [hdone.1, List.map_cons], hdone.2⟩⟩
      · refine ⟨t :: turns, e₁, .cons t hturns, .inr ⟨h, later, e₂, ?_, hend⟩⟩
        rw [hhandlers, List.map_cons, List.cons_append]
    · refine ⟨[], e, .nil e, .inr ⟨h, rest, e₂, rfl, hend, ?_⟩⟩
      rw [runHandlers_cons_apply, hend]

end Run

theorem Run.event_apply (allowance : Nat) (name : String) (args : List Value) :
    Run.event (allowance + 1) name args = Run.trigger allowance (serve allowance) name args := by
  show ((Run.trigger allowance (serve allowance) name args >>= fun _ => pure Value.null) >>=
    fun _ => pure ()) = _
  simp only [bind_assoc, pure_bind]
  exact bind_pure_unit

theorem Run.trigger_apply (laps : Nat) (serve : Call → Run Value) (name : String)
    (args : List Value) (e : Engine) : Run.trigger laps serve name args e =
      match e.events.get? name with
      | none => (.error (.fault (.unknownEvent name)), e)
      | some event =>
        if args.length ≠ event.parameters.length then
          (.error (.fault (.argumentCountMismatch name event.parameters.length args.length)), e)
        else
          Run.runHandlers laps serve name ((event.parameters.map (·.name)).zip args) event.handlers
            (e.trace "triggering event"
              [("event", Text.quoted name), ("handlers", toString event.handlers.length)]) := by
  show (match e.events.get? name with
    | none => Run.fail (.unknownEvent name)
    | some event => if args.length ≠ event.parameters.length then _ else _ : Run Unit) e = _
  cases e.events.get? name with
  | none => rfl
  | some event =>
    simp only
    split
    · rfl
    · rfl

/-- Triggering an event fails for an unknown name or a wrong number of arguments, and then nothing
has happened. Otherwise exactly the handlers that waited at the start have their turns, in their
order and each in the engine that the one before left, with the arguments in its scope. The log has
what each handler logged and, if it failed, one line about that. Only a handler that does not come
to its end keeps the trigger from doing so. A trigger inside a run does the same. -/
theorem event_runs_waiting_handlers (allowance : Nat) (name : String) (args : List Value)
    (e : Engine) :
    let r := Run.event (allowance + 1) name args e
    serve (allowance + 1) (.trigger name args) e = (r.1.map fun _ => .null, r.2) ∧
    (e.events.get? name = none → r = (.error (.fault (.unknownEvent name)), e)) ∧
    ∀ event, e.events.get? name = some event →
      (args.length ≠ event.parameters.length →
        let fault := Fault.argumentCountMismatch name event.parameters.length args.length
        r = (.error (.fault fault), e)) ∧
      (args.length = event.parameters.length →
        let bindings := (event.parameters.map (·.name)).zip args
        let e₀ := e.trace "triggering event"
          [("event", Text.quoted name), ("handlers", toString event.handlers.length)]
        ∃ (turns : List (Turn allowance bindings)) (e₁ : Engine), Turns name e₀ turns e₁ ∧
          (∀ t ∈ turns, t.left.log = t.found.log ++ t.entries ∧
            (t.handler.scope < t.found.scopes.size →
              (t.handler.start bindings t.found).HasArguments t.handler.scope event.parameters
                args)) ∧
          e₁.log = e.log ++ turns.flatMap (fun t => t.entries ++ t.failure name) ∧
          ((event.handlers = turns.map (·.handler) ∧ r = (.ok (), e₁)) ∨
            ∃ h rest e₂, event.handlers = turns.map (·.handler) ++ h :: rest ∧
              Run.script allowance h.script h.scope (h.start bindings e₁) =
                (.error .exhausted, e₂) ∧
              r = (.error .exhausted, e₂))) := by
  intro r
  have hr : r = Run.trigger allowance (serve allowance) name args e := by
    simp only [r, Run.event_apply]
  refine ⟨?_, fun hnone => ?_, fun event hevent => ⟨fun hlength => ?_, fun hlength => ?_⟩⟩
  · show (Run.trigger allowance (serve allowance) name args >>= fun _ => pure Value.null) e = _
    rw [bind_apply, hr]
    rcases Run.trigger allowance (serve allowance) name args e with ⟨halt | _, e₁⟩ <;> rfl
  · rw [hr, Run.trigger_apply, hnone]
  · rw [hr, Run.trigger_apply, hevent]
    exact if_pos hlength
  · intro bindings e₀
    have hrun : r = Run.runHandlers allowance (serve allowance) name bindings event.handlers e₀ := by
      rw [hr, Run.trigger_apply, hevent]
      exact if_neg fun hne => hne hlength
    obtain ⟨turns, e₁, hturns, hend⟩ := Run.runHandlers_turns name event.handlers e₀
    refine ⟨turns, e₁, hturns, fun t _ => ⟨t.log_left, ?_⟩, ?_, ?_⟩
    · exact fun hscope => t.handler.hasArguments_start hscope event.parameters args
    · rw [hturns.log_eq, Engine.log_trace]
    · rw [hrun]
      exact hend

/-- The first handler drops all handlers, declares the event anew and then fails; the second one still
has its turn, with the argument, and finds the new event when it triggers it. -/
theorem event_runs_waiting_handlers_after_flush :
    let reset : Native := fun _ => .ask .flush fun _ => .ask (.declareEvent "tick" []) fun _ =>
      .done (.ok .null)
    let first : Handler := ⟨⟨0, .block [.call "reset" [], .call "h" []]⟩, 0⟩
    let second : Handler := ⟨⟨1, .trigger "tick" []⟩, 1⟩
    let tick : Event := ⟨"tick", [{ name := "x", typeName := "object" }], [first, second]⟩
    let e : Engine := {
      functions := ⟨[("reset", ⟨"reset", [], .native reset⟩)]⟩
      events := ⟨[("tick", tick)]⟩
      scopes := ⟨#[{}, {}]⟩ }
    let r := Run.event 4 "tick" [.bool true] e
    r.1 = .ok () ∧ r.2.handlerCount "tick" = 0 ∧ r.2.scopes.local? 1 "x" = some (.bool true) ∧
      r.2.log = [(.error, "handler for event `tick` failed: function `h` is not defined")] ∧
      ∃ turns : List (Turn 3 [("x", .bool true)]), turns.map (·.handler) = [first, second] ∧
        r.2.log = turns.flatMap fun t => t.entries ++ t.failure "tick" := by
  intro reset first second tick e r
  have hok : r.1 = .ok () := rfl
  refine ⟨hok, rfl, rfl, rfl, ?_⟩
  obtain ⟨turns, e₁, -, -, hlog, hend⟩ :=
    ((event_runs_waiting_handlers 3 "tick" [.bool true] e).2.2 tick rfl).2 rfl
  rcases hend with ⟨hhandlers, hr⟩ | ⟨h, rest, e₂, -, -, hr⟩
  · refine ⟨turns, hhandlers.symm, ?_⟩
    rw [show r = (.ok (), e₁) from hr]
    exact hlog
  · rw [show r = (.error .exhausted, e₂) from hr] at hok
    cases hok

end Parlance
