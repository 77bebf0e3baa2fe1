import Parlance.Proofs.Engine.Mirror

/-! Manners of running code that do the same with trees do the same with everything else: routines by
induction on their requests, calls by induction on the allowance, and files one after the other. -/

namespace Parlance
variable {lax : Prop}

def Call.IsSound (lax : Prop) : Call → Prop
  | .invoke f _ => f.IsSound lax
  | _ => True

def ServesAlike (lax : Prop) (serve serve' : Call → Run Value) : Prop :=
  ∀ call : Call, call.IsSound lax → Passes lax (fun _ => True) (serve call) (serve' call)

namespace Run
variable {serve serve' : Call → Run Value}

theorem answer_passes (hserve : ServesAlike lax serve serve') (q : Request) :
    Passes lax (q.Admissible lax) (answer serve q) (answer serve' q) := by
  cases q with
  | call name args =>
    refine Passes.attempt (Q := fun _ => True) (Passes.get.bind fun e he => ?_)
    cases hf : e.functions.get? name with
    | none => exact .fail trivial
    | some f => exact hserve (.invoke f args) (he.function hf)
  | trigger event args =>
    exact Passes.attempt (Q := fun _ => True)
      ((hserve (.trigger event args) trivial).bind fun _ _ => .pure trivial)
  | execute source => exact .attempt (hserve (.execute source) trivial)
  | declareEvent name parameters =>
    exact .modify fun _ he => he.of_stores (he.stores.registerEvent name parameters) rfl
  | removeHandler event script scope =>
    let change := fun e : Engine => (e.unregisterHandler event script scope).swap
    show Passes lax (fun _ => True) (Run.step change) (Run.step change)
    exact .step fun _ he => he.unregisterHandler event script scope
  | flush => exact .modify fun _ he => he.of_stores he.stores.flush rfl
  | handlerCount event => exact Passes.get.bind fun _ _ => .pure trivial
  | readGlobal name => exact Passes.get.bind fun _ _ => .pure trivial
  | writeGlobal name v => exact .modify fun _ he => he.congr rfl rfl
  | report channel message => exact .report channel message
  | objects => exact Passes.get.bind fun _ _ => .pure trivial
  | addObject o =>
    show Passes lax (fun _ => True) (Run.step (·.addObject o)) (Run.step (·.addObject o))
    exact .step fun _ he => he.congr rfl rfl
  | changeObject id o => exact .modify fun _ he => he.congr rfl rfl
  | random =>
    show Passes lax (fun _ => True) (Run.step Engine.draw) (Run.step Engine.draw)
    exact .step fun _ he => he.congr rfl rfl
  | breakDown => exact .exhausted

theorem runRoutine_passes (hserve : ServesAlike lax serve serve')
    {routine : Routine (Except Fault Value)} (h : routine.Admissible lax) :
    Passes lax (Admissible lax) (runRoutine serve routine) (runRoutine serve' routine) := by
  induction routine with
  | done r => exact .pure h
  | ask q next ih => exact (answer_passes hserve q).bind fun a ha => ih a (h a ha)

end Run

/-- Both manners do the same with well-formed trees and sources, as long as calls are served alike. -/
structure Manner.Alike (lax : Prop) (w w' : Manner) : Prop where
  root : ∀ {laps : Nat} {serve serve' : Call → Run Value}, ServesAlike lax serve serve' →
    ∀ (scope : ScopeId) {node : Node}, node.IsStatement →
      Passes lax (fun _ => True) (w.root laps serve scope node) (w'.root laps serve' scope node)
  source : ∀ {laps : Nat} {serve serve' : Call → Run Value}, ServesAlike lax serve serve' →
    ∀ (scope : ScopeId) {nodes : List Node}, (∀ node ∈ nodes, node.IsStatement) →
      Passes lax (fun _ => True) (w.source laps serve scope nodes) (w'.source laps serve' scope nodes)
  ended : ∀ {m r : Run Value}, Passes lax (fun _ => True) m r →
    Passes lax (fun _ => True) (w.ended m) (w'.ended r)

namespace Manner.Alike
variable {w w' : Manner} (hw : Alike lax w w')

section Calls
variable {laps : Nat} {serve serve' : Call → Run Value}
include hw

theorem invoke (hserve : ServesAlike lax serve serve') {f : Function} (hf : f.IsSound lax)
    (args : List Value) :
    Passes lax (fun _ => True) (w.invoke laps serve f args) (w'.invoke laps serve' f args) := by
  refine Passes.get.bind fun e _ => ?_
  refine (Passes.ofExcept (admissible_bindings f e args) fun _ _ => trivial).bind fun vs _ => ?_
  unfold Manner.runBody
  cases hb : f.body with
  | native routine =>
    -- what the routine was told was admissible, so its own end is
    exact (Run.runRoutine_passes hserve (hf.honest _ hb vs)).bind fun r hr =>
      .ofExcept hr fun _ _ => trivial
  | script body closure =>
    exact (Run.openFrame_passes _ _ _).bind fun frame _ => hw.root hserve frame (hf.stores _ _ hb)

theorem runHandlers (hserve : ServesAlike lax serve serve') (event : String)
    (bindings : List (String × Value)) {handlers : List Handler}
    (h : ∀ handler ∈ handlers, handler.script.root.IsStatement) :
    Passes lax (fun _ => True) (w.runHandlers laps serve event bindings handlers)
      (w'.runHandlers laps serve' event bindings handlers) := by
  induction handlers with
  | nil => exact .pure trivial
  | cons handler handlers ih =>
    have hrest := ih fun x hx => h x (List.mem_cons_of_mem _ hx)
    have hroot : Passes lax (fun _ => True) (w.root laps serve handler.scope handler.script.root)
        (w'.root laps serve' handler.scope handler.script.root) :=
      hw.root hserve handler.scope (h handler List.mem_cons_self)
    refine Passes.bind (.modify fun _ he => he.congr rfl rfl) fun _ _ => hroot.attempt.bind
      fun outcome _ => ?_
    cases outcome with
    | ok v => exact hrest
    | error f => exact (Passes.report _ _).bind fun _ _ => hrest

theorem trigger (hserve : ServesAlike lax serve serve') (name : String) (args : List Value) :
    Passes lax (fun _ => True) (w.trigger laps serve name args) (w'.trigger laps serve' name args) := by
  refine Passes.get.bind fun e he => ?_
  cases hev : e.events.get? name with
  | none => exact .fail trivial
  | some event =>
    refine Mirrors.ite (Passes.fail trivial) ?_
    refine Passes.bind (.modify fun _ he => he.congr rfl rfl) fun _ _ => ?_
    exact hw.runHandlers hserve _ _ (he.stores.handlers name event hev)

theorem execute (hserve : ServesAlike lax serve serve') (text : String) (scope? : Option ScopeId) :
    Passes lax (fun _ => True) (w.execute laps serve text scope?)
      (w'.execute laps serve' text scope?) := by
  refine Passes.get.bind fun e _ => (Run.parse_passes text).bind fun root hroot => ?_
  cases scope? with
  | some scope => exact hw.source hserve scope hroot.statements
  | none =>
    exact (Run.newScope_passes none).bind fun scope _ => hw.source hserve scope hroot.statements

theorem perform (hserve : ServesAlike lax serve serve') {call : Call} (h : call.IsSound lax) :
    Passes lax (fun _ => True) (w.perform laps serve call) (w'.perform laps serve' call) := by
  cases call with
  | invoke f args => exact hw.invoke hserve h args
  | trigger event args => exact (hw.trigger hserve event args).bind fun _ _ => .pure trivial
  | execute source => exact hw.execute hserve source none

end Calls

variable (allowance : Nat)
include hw

theorem serve : ServesAlike lax (w.serve allowance) (w'.serve allowance) := by
  -- what a call runs is served with one less, so the trees inside are covered by the induction
  induction allowance with
  | zero => exact fun call _ => .exhausted
  | succ allowance ih => exact fun call hcall => hw.ended (hw.perform ih hcall)

theorem script {s : Script} (hs : s.root.IsStatement) (scope : ScopeId) :
    Passes lax (fun _ => True) (w.script allowance s scope) (w'.script allowance s scope) :=
  hw.root (hw.serve allowance) scope hs

theorem function (name : String) (args : List Value) :
    Passes lax (fun _ => True) (w.function allowance name args) (w'.function allowance name args) := by
  refine Passes.get.bind fun e he => ?_
  cases hf : e.functions.get? name with
  | none => exact .fail trivial
  | some f => exact hw.serve allowance (.invoke f args) (he.function hf)

theorem event (name : String) (args : List Value) :
    Passes lax (fun _ => True) (w.event allowance name args) (w'.event allowance name args) :=
  (hw.serve allowance (.trigger name args) trivial).bind fun _ _ => .pure trivial

theorem loadFile (files : FileTree) (path : String) :
    Passes lax (fun _ => True) (w.loadFile allowance files path) (w'.loadFile allowance files path) :=
  (Passes.ofExcept (admissible_mapError_file _) fun _ _ => trivial).bind fun text _ =>
    (hw.execute (hw.serve allowance) text none).bind fun _ _ => .pure trivial

theorem loadAll (files : FileTree) (paths : List String) (report : LoadReport) :
    Passes lax (fun _ => True) (w.loadAll allowance files paths report)
      (w'.loadAll allowance files paths report) := by
  induction paths generalizing report with
  | nil => exact .pure trivial
  | cons path paths ih =>
    refine Passes.bind (.modify fun _ he => he.congr rfl rfl) fun _ _ =>
      (hw.loadFile allowance files path).attempt.bind fun outcome _ => ?_
    cases outcome with
    | ok u => exact ih _
    | error fault => exact ih _

theorem loadDirectory (files : FileTree) (dir extension : String) :
    Passes lax (fun _ => True) (w.loadDirectory allowance files dir extension)
      (w'.loadDirectory allowance files dir extension) := by
  have hsummary (lines : List (Level × String)) :
      Passes lax (fun _ => True)
        (forIn lines PUnit.unit fun line _ => do
          Run.report (.log line.1) line.2
          pure (ForInStep.yield PUnit.unit) : Run PUnit)
        (forIn lines PUnit.unit fun line _ => do
          Run.report (.log line.1) line.2
          pure (ForInStep.yield PUnit.unit)) := by
    induction lines with
    | nil => exact .pure trivial
    | cons line lines ih =>
      simp only [List.forIn_cons, bind_assoc, pure_bind]
      exact (Passes.report _ _).bind fun _ _ => ih
  refine (Passes.ofExcept (admissible_mapError_file _) fun _ _ => trivial).bind fun names _ => ?_
  exact (hw.loadAll allowance files _ {}).bind fun result _ =>
    (hsummary result.summary).bind fun _ _ => .pure trivial

theorem reload (files : FileTree) (dir extension : String) :
    Passes lax (fun _ => True) (w.reload allowance files dir extension)
      (w'.reload allowance files dir extension) :=
  Passes.bind (.modify fun _ he => he.of_stores he.stores.flush rfl) fun _ _ =>
    hw.loadDirectory allowance files dir extension

end Manner.Alike
end Parlance
