import Mathlib.Data.List.Basic
import Parlance.Engine.Run
import Parlance.Proofs.Engine.Stored

/-! The handlers of events under any sequence of the operations on them. What waits for an event is
determined by the history alone: the handlers that were registered for it while it was declared, in
their order, less those that a later flush or removal has dropped. -/

namespace Parlance

/-- What tells a handler from others: which script it runs, and in which scope. -/
def Handler.identity (h : Handler) : Nat × ScopeId := (h.script.id, h.scope)

inductive EventOp where
  | declare (event : String) (parameters : List Parameter)
  | register (event : String) (handler : Handler)
  | remove (event : String) (script : Script) (scope : ScopeId)
  | flush

namespace EventOp
variable (event : String)

def declared? : EventOp → Option (List Parameter)
  | declare name parameters => if name = event then some parameters else none
  | _ => none

def registered? : EventOp → Option Handler
  | register name handler => if name = event then some handler else none
  | _ => none

def drops (h : Handler) : EventOp → Bool
  | remove name script scope => name == event && h.identity == (script.id, scope)
  | flush => true
  | _ => false

theorem drops_remove (name : String) (script : Script) (scope : ScopeId) (h : Handler) :
    drops event h (.remove name script scope) =
      (name == event && Engine.Handler.isFor script scope h) := by
  unfold drops Engine.Handler.isFor Handler.identity
  rfl

def change (op : EventOp) (old : Option Event) : Option Event :=
  match op with
  | declare name parameters =>
    if name = event then some { old.getD ⟨event, [], []⟩ with parameters } else old
  | register name handler =>
    if name = event then old.map fun ev => { ev with handlers := ev.handlers ++ [handler] } else old
  | remove .. | flush =>
    old.map fun ev => { ev with handlers := ev.handlers.filter fun h => !drops event h op }

/-- The handlers that the operations leave waiting for the event: each that came when the event was
declared and that no later operation drops. -/
def waiting : Bool → List EventOp → List Handler
  | _, [] => []
  | declared, op :: later =>
    let kept := (op.registered? event).filter fun h => declared && !later.any (drops event h)
    kept.toList ++ waiting (declared || (op.declared? event).isSome) later

end EventOp

namespace Engine

inductive EventReply where
  | done
  | refused (fault : Fault)
  | removed (any : Bool)

/-- Does the operation. One that is refused leaves the engine alone. -/
def performEvent (e : Engine) : EventOp → Engine × EventReply
  | .declare event parameters => (e.registerEvent event parameters, .done)
  | .register event handler =>
    match e.registerHandler event handler with
    | .error fault => (e, .refused fault)
    | .ok e => (e, .done)
  | .remove event script scope =>
    let (e, any) := e.unregisterHandler event script scope
    (e, .removed any)
  | .flush => (e.flush, .done)

def afterEvents (e : Engine) (ops : List EventOp) : Engine :=
  ops.foldl (fun e op => (e.performEvent op).1) e

def parametersOf? (e : Engine) (event : String) : Option (List Parameter) :=
  (e.events.get? event).map (·.parameters)

def handlersOf (e : Engine) (event : String) : List Handler :=
  ((e.events.get? event).map (·.handlers)).getD []

variable (e : Engine) (event : String)

theorem handlerCount_eq : e.handlerCount event = (e.handlersOf event).length := by
  unfold handlerCount handlersOf
  cases e.events.get? event <;> rfl

theorem handlersOf_of_undeclared (h : e.parametersOf? event = none) : e.handlersOf event = [] := by
  have hnone : e.events.get? event = none := by simpa [parametersOf?] using h
  simp [handlersOf, hnone]

/-! One operation. -/

theorem get?_performEvent (op : EventOp) :
    (e.performEvent op).1.events.get? event = op.change event (e.events.get? event) := by
  cases op with
  | declare name parameters =>
    simp only [performEvent, registerEvent, trace, report, Table.get?_insert, EventOp.change]
    by_cases h : name = event
    · subst h
      cases e.events.get? name <;> simp
    · simp [h, Ne.symm h]
  | register name handler =>
    simp only [performEvent, registerHandler, EventOp.change]
    cases hname : e.events.get? name with
    | none =>
      by_cases h : name = event
      · simp [← h, hname]
      · simp [h]
    | some ev =>
      simp only [trace, report, Table.get?_insert]
      by_cases h : name = event
      · simp [← h, hname]
      · simp [h, Ne.symm h]
  | remove name script scope =>
    simp only [performEvent, unregisterHandler, EventOp.change, EventOp.drops_remove]
    by_cases h : name = event
    · subst h
      cases hname : e.events.get? name with
      | none => simp [hname]
      | some ev => simp [Table.get?_insert]
    · have hkept : (name == event) = false := beq_false_of_ne h
      cases e.events.get? name with
      | none => simp [hkept]
      | some ev => simp [Table.get?_insert, Ne.symm h, hkept]
  | flush =>
    simp [performEvent, flush, trace, report, Table.get?_map, EventOp.change, EventOp.drops]

theorem parametersOf?_performEvent (op : EventOp) :
    (e.performEvent op).1.parametersOf? event = (op.declared? event).or (e.parametersOf? event) := by
  rw [parametersOf?, get?_performEvent, parametersOf?]
  cases op with
  | declare name parameters =>
    simp only [EventOp.change, EventOp.declared?]
    split <;> simp
  | register name handler =>
    simp only [EventOp.change, EventOp.declared?]
    split <;> cases e.events.get? event <;> rfl
  | remove | flush => cases e.events.get? event <;> rfl

theorem handlersOf_performEvent (op : EventOp) :
    (e.performEvent op).1.handlersOf event =
      (e.handlersOf event).filter (fun h => !op.drops event h) ++
        ((op.registered? event).filter fun _ => (e.parametersOf? event).isSome).toList := by
  rw [handlersOf, get?_performEvent, handlersOf, parametersOf?]
  cases op with
  | declare name parameters =>
    simp only [EventOp.change, EventOp.drops, EventOp.registered?]
    split <;> cases e.events.get? event <;> simp
  | register name handler =>
    simp only [EventOp.change, EventOp.drops, EventOp.registered?]
    split <;> cases e.events.get? event <;> simp [Option.filter]
  | remove | flush =>
    simp only [EventOp.change, EventOp.registered?]
    cases e.events.get? event <;> simp

theorem performEvent_register (handler : Handler) :
    if (e.parametersOf? event).isSome then (e.performEvent (.register event handler)).2 = .done
    else e.performEvent (.register event handler) = (e, .refused (.unknownEvent event)) := by
  cases h : e.events.get? event <;> simp [performEvent, registerHandler, parametersOf?, h]

theorem unregisterHandler_snd (script : Script) (scope : ScopeId) :
    (e.unregisterHandler event script scope).2 = true ↔
      ∃ h ∈ e.handlersOf event, h.identity = (script.id, scope) := by
  simp only [unregisterHandler, handlersOf]
  cases e.events.get? event with
  | none => simp
  | some ev => simp [Handler.isFor, Parlance.Handler.identity]

/-! Histories. -/

theorem parametersOf?_afterEvents (ops : List EventOp) :
    (e.afterEvents ops).parametersOf? event =
      (ops.filterMap (·.declared? event)).getLast?.or (e.parametersOf? event) := by
  induction ops generalizing e with
  | nil => rfl
  | cons op ops ih =>
    rw [afterEvents, List.foldl_cons, ← afterEvents, ih, parametersOf?_performEvent, List.filterMap_cons]
    cases hop : op.declared? event with
    | none => rfl
    | some parameters => cases h : (ops.filterMap (·.declared? event)).getLast? <;> simp [List.getLast?_cons, h]

theorem handlersOf_afterEvents (ops : List EventOp) :
    (e.afterEvents ops).handlersOf event =
      (e.handlersOf event).filter (fun h => !ops.any (·.drops event h)) ++
        EventOp.waiting event (e.parametersOf? event).isSome ops := by
  induction ops generalizing e with
  | nil => simp [afterEvents, EventOp.waiting]
  | cons op ops ih =>
    rw [afterEvents, List.foldl_cons, ← afterEvents, ih, handlersOf_performEvent, parametersOf?_performEvent]
    have hdeclared : ((op.declared? event).or (e.parametersOf? event)).isSome =
        ((e.parametersOf? event).isSome || (op.declared? event).isSome) := by
      rw [Option.isSome_or, Bool.or_comm]
    have hkept : ((op.registered? event).filter fun _ => (e.parametersOf? event).isSome).toList.filter
          (fun h => !ops.any (·.drops event h)) =
        ((op.registered? event).filter fun h =>
          (e.parametersOf? event).isSome && !ops.any (·.drops event h)).toList := by
      cases op.registered? event with
      | none => rfl
      | some h =>
        cases (e.parametersOf? event).isSome <;>
          cases hlater : ops.any (·.drops event h) <;> simp [Option.filter, hlater]
    rw [hdeclared, List.filter_append, hkept, List.filter_filter, List.append_assoc, EventOp.waiting]
    congr 3
    funext h
    rw [List.any_cons, Bool.not_or, Bool.and_comm]

/-- After any operations, an event has the parameters of its last declaration and exactly the
handlers that the history leaves waiting for it. From there a registration is refused only if the
event is not declared, and then changes nothing; a removal takes the handlers of the one script and
scope off this event alone, and says whether there were any; and a new declaration changes nothing
but the parameters. -/
theorem handlers_follow_history (ops : List EventOp) :
    let after := e.afterEvents ops
    let declared := (ops.filterMap (·.declared? event)).getLast?.or (e.parametersOf? event)
    let waiting := (e.handlersOf event).filter (fun h => !ops.any (·.drops event h)) ++
      EventOp.waiting event (e.parametersOf? event).isSome ops
    (after.parametersOf? event = declared ∧ after.handlersOf event = waiting ∧
      after.handlerCount event = waiting.length ∧ (declared.isSome ∨ waiting = [])) ∧
    (∀ handler, if declared.isSome then (after.performEvent (.register event handler)).2 = .done
      else after.performEvent (.register event handler) = (after, .refused (.unknownEvent event))) ∧
    (∀ script scope,
      let (later, any) := after.unregisterHandler event script scope
      (any ↔ ∃ h ∈ waiting, h.identity = (script.id, scope)) ∧
      ∀ other, later.parametersOf? other = after.parametersOf? other ∧
        later.handlersOf other =
          if other = event then waiting.filter (·.identity != (script.id, scope))
          else after.handlersOf other) ∧
    ∀ parameters,
      let later := after.registerEvent event parameters
      ∀ other, later.handlersOf other = after.handlersOf other ∧
        later.parametersOf? other =
          if other = event then some parameters else after.parametersOf? other := by
  intro after declared waiting
  have hdeclared : after.parametersOf? event = declared := parametersOf?_afterEvents e event ops
  have hwaiting : after.handlersOf event = waiting := handlersOf_afterEvents e event ops
  refine ⟨⟨hdeclared, hwaiting, hwaiting ▸ handlerCount_eq after event, ?_⟩, ?_, ?_, ?_⟩
  · rw [← hdeclared, ← hwaiting]
    cases h : after.parametersOf? event with
    | none => exact .inr (handlersOf_of_undeclared after event h)
    | some parameters => exact .inl rfl
  · intro handler
    rw [← hdeclared]
    exact performEvent_register after event handler
  · intro script scope
    rw [← hwaiting]
    refine ⟨unregisterHandler_snd after event script scope, fun other => ⟨?_, ?_⟩⟩
    · exact parametersOf?_performEvent after other (.remove event script scope)
    · have hstep := handlersOf_performEvent after other (.remove event script scope)
      refine hstep.trans ?_
      by_cases h : other = event
      · simp [h, EventOp.drops, EventOp.registered?, bne]
      · simp [h, Ne.symm h, EventOp.drops, EventOp.registered?]
  · intro parameters later other
    constructor
    · have hstep := handlersOf_performEvent after other (.declare event parameters)
      exact hstep.trans (by simp [EventOp.drops, EventOp.registered?])
    · have hstep := parametersOf?_performEvent after other (.declare event parameters)
      refine hstep.trans ?_
      by_cases h : other = event
      · simp [h, EventOp.declared?]
      · simp [h, Ne.symm h, EventOp.declared?]

/-! `on` statements. -/

/-- Scripts and `on` statements are numbered in a row, so no two of them have the same number. -/
theorem numbers_addScript (root : Node) :
    let (script, after) := e.addScript root
    script.root.cues.map (·.mark) ++ [script.id] =
      List.range' e.scriptCount (after.scriptCount - e.scriptCount) := by
  have hcount : (e.addScript root).2.scriptCount - e.scriptCount = root.cues.length + 1 := by
    simp only [addScript, mark]
    omega
  have hmarks : (e.addScript root).1.root.cues.map (·.mark) =
      List.range' e.scriptCount root.cues.length := by
    simp only [addScript, mark, Node.cues_mark, Node.map_mark_numbered]
  have hid : (e.addScript root).1.id = e.scriptCount + root.cues.length := rfl
  simp only [hcount, hmarks, hid, List.range'_concat, Nat.one_mul]

section
variable (laps : Nat) (serve : Call → Run Value) (scope : ScopeId) (cue : Cue) (body : Node)

theorem exec_handler_snd : (Run.exec laps serve scope (.handler cue body) e).2 =
    (e.performEvent (.register cue.event ⟨⟨cue.mark, body⟩, scope⟩)).1 := by
  change (((Run.ofExcept (e.registerHandler cue.event ⟨⟨cue.mark, body⟩, scope⟩) >>= set) >>=
    fun _ => pure (.completed .null) : Run Flow) e).2 = _
  rw [performEvent]
  cases e.registerHandler cue.event ⟨⟨cue.mark, body⟩, scope⟩ <;> rfl

def afterRuns (node : Node) (n : Nat) : Engine :=
  Nat.repeat (fun e => (Run.exec laps serve scope node e).2) n e

theorem handlersOf_afterRuns (h : (e.parametersOf? cue.event).isSome) (n : Nat) :
    ((e.afterRuns laps serve scope (.handler cue body) n).parametersOf? cue.event).isSome ∧
    (e.afterRuns laps serve scope (.handler cue body) n).handlersOf cue.event =
      e.handlersOf cue.event ++ List.replicate n ⟨⟨cue.mark, body⟩, scope⟩ := by
  induction n with
  | zero => exact ⟨h, (List.append_nil _).symm⟩
  | succ n ih =>
    obtain ⟨hdeclared, hhandlers⟩ := ih
    have hstep : e.afterRuns laps serve scope (.handler cue body) (n + 1) =
        ((e.afterRuns laps serve scope (.handler cue body) n).performEvent
          (.register cue.event ⟨⟨cue.mark, body⟩, scope⟩)).1 := exec_handler_snd _ laps serve scope cue body
    rw [hstep, parametersOf?_performEvent, handlersOf_performEvent, hhandlers, List.replicate_succ']
    refine ⟨hdeclared, ?_⟩
    simp [EventOp.drops, EventOp.registered?, hdeclared]

/-- However often an `on` statement runs in a scope, one script waits there, as many times. Removing
it once takes all of these handlers off, and removing another script takes none. -/
theorem on_waits_as_one_script (h : (e.parametersOf? cue.event).isSome) (n : Nat) :
    let handler : Handler := ⟨⟨cue.mark, body⟩, scope⟩
    let after := e.afterRuns laps serve scope (.handler cue body) n
    after.handlersOf cue.event = e.handlersOf cue.event ++ List.replicate n handler ∧
    ∀ script scope', (after.unregisterHandler cue.event script scope').1.handlersOf cue.event =
      (e.handlersOf cue.event).filter (·.identity != (script.id, scope')) ++
        if handler.identity = (script.id, scope') then [] else List.replicate n handler := by
  intro handler after
  have hafter : after.handlersOf cue.event = e.handlersOf cue.event ++ List.replicate n handler :=
    (e.handlersOf_afterRuns laps serve scope cue body h n).2
  refine ⟨hafter, fun script scope' => ?_⟩
  have hremoved := handlersOf_performEvent after cue.event (.remove cue.event script scope')
  refine hremoved.trans ?_
  rw [hafter, List.filter_append, List.filter_replicate]
  by_cases hsame : handler.identity = (script.id, scope') <;>
    simp [EventOp.drops, EventOp.registered?, bne, hsame]

end

end Engine
end Parlance
