import Parlance.Proofs.Engine.Change
import Parlance.Proofs.Engine.Session
import Parlance.Proofs.Nesting

/-! The tree of scopes along a session. Functions and handlers hold on to scopes, and calls open frames
inside them long after the code that made them has ended. As long as a host names only scopes that are
there, so do the tables of the engine, and every operation lets the tree grow and does nothing else to
it. -/

namespace Parlance

def Permit.existing : Permit where
  runs n id := id < n
  opens n id := id < n
  asks _ := True
  runs_later hk h := Nat.lt_of_lt_of_le h hk
  opens_later hk h := Nat.lt_of_lt_of_le h hk
  opens_of_runs h := h

theorem Act.grows_apply {act : Act} {e : Engine} (h : act.Permitted .existing e.scopes.size) :
    e.scopes.Grows (act.apply e).scopes := by
  rw [act.scopes_apply]
  cases act with
  | assign scope name v => exact .set scope name v .refl
  | addScope parent => exact .add .refl h
  | _ => exact .refl

theorem ScopeTree.grows_keeps (t : ScopeTree) : Permit.existing.Keeps fun e => t.Grows e.scopes where
  act h _ hact := h.trans (Act.grows_apply hact)
  fresh _ := Nat.lt_succ_self _

namespace Engine.Within
variable {p : Permit} {e e' : Engine}

theorem congr (h : e.Within p) (hf : e'.functions = e.functions) (hev : e'.events = e.events)
    (hs : e'.scopes = e.scopes) : e'.Within p where
  functions name f hget := by
    rw [hf] at hget
    rw [hs]
    exact h.functions name f hget
  handlers name handler hw := by
    rw [Waits, hev] at hw
    rw [hs]
    exact h.handlers name handler hw

theorem defineFunction (h : e.Within p) {f : Function} (hf : f.Permitted p e.scopes.size) :
    (e.defineFunction f).Within p where
  functions name g hg := by
    simp only [Engine.defineFunction, trace, report, Table.get?_insert] at hg
    split at hg
    · cases hg
      exact hf
    · exact h.functions name g hg
  handlers := h.handlers

end Engine.Within

theorem Function.permitted_native (name : String) (parameters : List Parameter) (routine : Native) (n : Nat) :
    Function.Permitted .existing n ⟨name, parameters, .native routine⟩ :=
  fun args => (routine args).asks_all

theorem Engine.foldl_registerType (types : List TypeDef) (e : Engine) :
    ∃ table journal, types.foldl registerType e = { e with types := table, journal } := by
  induction types generalizing e with
  | nil => exact ⟨e.types, e.journal, rfl⟩
  | cons t types ih =>
    obtain ⟨table, journal, h⟩ := ih (e.registerType t)
    exact ⟨table, journal, h⟩

theorem Engine.within_new (builtins : Bool) :
    (Engine.new builtins).scopes = .empty ∧ (Engine.new builtins).Within .existing := by
  have hempty : Engine.Within .existing {} := by
    refine ⟨fun name f hf => (by cases hf), ?_⟩
    rintro name handler ⟨event, hev, -⟩
    cases hev
  obtain ⟨table, journal, htypes⟩ := foldl_registerType TypeDef.builtin {}
  have hbare : Engine.Within .existing { types := table, journal } := hempty.congr rfl rfl rfl
  simp only [Engine.new, htypes]
  split
  · exact ⟨rfl, (hbare.defineFunction (Function.permitted_native _ _ _ _)).defineFunction
      (Function.permitted_native _ _ _ _)⟩
  · exact ⟨rfl, hbare⟩

/-! What a host can have run, in lockstep. -/

section Hosted
variable {p : Permit} {R : Engine → Engine → Prop} {n : Nat}

theorem Lockstep.step_of {α : Type} (change : Engine → α × Engine)
    (hR : ∀ {e e'}, R e e' → (change e').1 = (change e).1 ∧ R (change e).2 (change e').2)
    (hw : ∀ {e}, e.Within p → (change e).2.Within p)
    (hsize : ∀ e, e.scopes.size ≤ (change e).2.scopes.size) : Lockstep p R n (Run.step change) := by
  intro e e' h hwithin _
  obtain ⟨hanswer, hrelated⟩ := hR h
  exact ⟨congrArg Except.ok hanswer, hrelated, hw hwithin, hsize e⟩

namespace Run

theorem event_lockstep (hb : p.Bond R) (allowance : Nat) (name : String) (args : List Value) :
    Lockstep p R n (event allowance name args) :=
  (serve_lockstep hb allowance n (.trigger name args) trivial).bind fun _ _ _ => .pure ()

theorem source_lockstep (hb : p.Bond R) (allowance : Nat) (text : String) {scope? : Option ScopeId}
    (hscope : ∀ id, scope? = some id → p.runs n id) : Lockstep p R n (source allowance text scope?) :=
  execute_lockstep hb (serve_lockstep hb allowance) text hscope

theorem loadFile_lockstep (hb : p.Bond R) (allowance : Nat) (files : FileTree) (path : String) :
    Lockstep p R n (loadFile allowance files path) :=
  (Lockstep.ofExcept _).bind fun _ text _ =>
    (source_lockstep hb allowance text fun _ h => by cases h).bind fun _ _ _ => .pure ()

theorem loadAll_lockstep (hb : p.Bond R) (allowance : Nat) (files : FileTree) (paths : List String)
    (report : LoadReport) : Lockstep p R n (loadAll allowance files paths report) := by
  induction paths generalizing report n with
  | nil => exact .pure report
  | cons path paths ih =>
    refine (Lockstep.act hb (.report _ _) fun _ _ => trivial).bind fun k _ _ =>
      (loadFile_lockstep hb allowance files path).attempt.bind fun k' outcome _ => ?_
    cases outcome with
    | ok u => exact ih _
    | error fault => exact ih _

theorem forIn_report_lockstep (hb : p.Bond R) (lines : List (Level × String)) :
    Lockstep p R n (forIn lines PUnit.unit fun line _ => do
      report (.log line.1) line.2
      pure (ForInStep.yield PUnit.unit)) := by
  induction lines generalizing n with
  | nil => exact .pure _
  | cons line lines ih =>
    simp only [List.forIn_cons, bind_assoc, pure_bind]
    exact (Lockstep.act hb (.report _ _) fun _ _ => trivial).bind fun _ _ _ => ih

theorem loadDirectory_lockstep (hb : p.Bond R) (allowance : Nat) (files : FileTree)
    (dir extension : String) : Lockstep p R n (loadDirectory allowance files dir extension) :=
  (Lockstep.ofExcept _).bind fun _ _ _ => (loadAll_lockstep hb allowance files _ {}).bind
    fun _ result _ => (forIn_report_lockstep hb result.summary).bind fun _ _ _ => .pure _

end Run
end Hosted

/-! Operations. -/

def Operation.InScope (n : Nat) : Operation → Prop
  | execute _ scope? => ∀ id, scope? = some id → id < n
  | newScope parent => ∀ id, parent = some id → id < n
  | run _ scope | registerHandler _ _ scope | unregisterHandler _ _ scope | setLocal scope _ _ =>
    scope < n
  | _ => True

def Engine.Grown (t : ScopeTree) (e e' : Engine) : Prop := e' = e ∧ t.Grows e.scopes

theorem Engine.grown_bond (t : ScopeTree) : Permit.existing.Bond (Engine.Grown t) := t.grows_keeps.bond

theorem Lockstep.elsewhere {α : Type} {t : ScopeTree} {n : Nat} (change : Engine → α × Engine)
    (hf : ∀ e, (change e).2.functions = e.functions) (hev : ∀ e, (change e).2.events = e.events)
    (hs : ∀ e, (change e).2.scopes = e.scopes) :
    Lockstep .existing (Engine.Grown t) n (Run.step change) := by
  refine .step_of change ?_ (fun hw => hw.congr (hf _) (hev _) (hs _)) fun e => Nat.le_of_eq (by rw [hs])
  rintro e _ ⟨rfl, hgrows⟩
  exact ⟨rfl, rfl, by rwa [hs]⟩

theorem Operation.perform_lockstep (t : ScopeTree) (allowance : Nat) (scripts : List Script)
    {op : Operation} {n : Nat} (hop : op.InScope n) :
    Lockstep .existing (Engine.Grown t) n (op.perform (.plain allowance) scripts) := by
  have hb := Engine.grown_bond t
  -- an operation is an act, a run, or a change to what neither scopes nor code depend on
  have hdone {m : Run Unit} (hm : Lockstep .existing (Engine.Grown t) n m) (reply : Reply) :
      Lockstep .existing (Engine.Grown t) n (m >>= fun _ => pure reply) :=
    hm.bind fun _ _ _ => .pure reply
  cases op with
  | execute source scope? => exact (Run.source_lockstep hb allowance source hop).bind fun _ _ _ => .pure _
  | parse source =>
    exact .read hb (fun _ _ => rfl) fun e _ _ => (Lockstep.ofExcept _).bind fun _ root _ =>
      (Lockstep.elsewhere (·.addScript root) (fun _ => rfl) (fun _ => rfl) fun _ => rfl).bind
        fun _ _ _ => .pure _
  | run script scope =>
    simp only [perform]
    split
    · exact (Run.script_lockstep hb allowance _ hop).bind fun _ _ _ => .pure _
    · exact .pure _
  | call function args => exact (Run.function_lockstep hb allowance function args).bind fun _ _ _ => .pure _
  | trigger event args => exact hdone (Run.event_lockstep hb allowance event args) _
  | loadFile files path => exact hdone (Run.loadFile_lockstep hb allowance files path) _
  | loadDirectory files dir extension =>
    exact (Run.loadDirectory_lockstep hb allowance files dir extension).bind fun _ _ _ => .pure _
  | reload files dir extension =>
    have hreload : Lockstep .existing (Engine.Grown t) n (Run.reload allowance files dir extension) :=
      (Lockstep.act hb .flush fun _ _ => trivial).bind fun _ _ _ =>
        Run.loadDirectory_lockstep hb allowance files dir extension
    exact hreload.bind fun _ _ _ => .pure _
  | registerFunction name parameters routine =>
    refine hdone (.step_of (fun e => ((), e.defineFunction _)) ?_ ?_ fun _ => Nat.le_refl _) _
    · rintro e _ ⟨rfl, hgrows⟩
      exact ⟨rfl, rfl, hgrows⟩
    · exact fun hw => hw.defineFunction (Function.permitted_native name parameters routine _)
  | registerType t =>
    exact hdone (.elsewhere (fun e => ((), e.registerType t)) (fun _ => rfl) (fun _ => rfl) fun _ => rfl) _
  | registerEvent name parameters =>
    exact hdone (.act hb (.declareEvent name parameters) fun _ _ => trivial) _
  | registerHandler event script scope =>
    simp only [perform]
    split
    · next s _ =>
      have hs : Permit.existing.runs n (Handler.mk s scope).scope := hop
      exact hdone (Run.registerHandler_lockstep hb event hs) _
    · exact .pure _
  | unregisterHandler event script scope =>
    simp only [perform]
    split
    · next s _ =>
      refine (Lockstep.step hb (.removeHandler event s scope) (fun _ _ => trivial) (fun _ => rfl)
        fun e t => ?_).bind fun _ _ _ => .pure _
      simp only [Engine.unregisterHandler]
      cases e.events.get? event <;> rfl
    · exact .pure _
  | flush => exact hdone (.act hb .flush fun _ _ => trivial) _
  | setGlobal name v => exact hdone (.act hb (.setGlobal name v) fun _ _ => trivial) _
  | newScope parent => exact Run.newScope_bind_lockstep hb hop fun _ _ _ _ => .pure _
  | setLocal scope name v =>
    exact hdone (.act hb (.assign scope name v) fun _ hk => Nat.lt_of_lt_of_le hop hk) _
  | addObject o =>
    exact (Lockstep.elsewhere (·.addObject o) (fun _ => rfl) (fun _ => rfl) fun _ => rfl).bind
      fun _ _ _ => .pure _
  | useBook book =>
    exact hdone (.elsewhere (fun e => ((), { e with book })) (fun _ => rfl) (fun _ => rfl) fun _ => rfl) _

/-! Sessions. -/

namespace Session

/-- The second session comes after the first by operations that name scopes that are there. Each of them
has an allowance of its own, and it may fail. -/
inductive Reaches (s : Session) : Session → Prop
  | refl : Reaches s s
  | step {s₁ : Session} (allowance : Nat) (op : Operation) : Reaches s s₁ →
      op.InScope s₁.engine.scopes.size → Reaches s (s₁.step (.plain allowance) op).1

theorem engine_step (w : Runner) (s : Session) (op : Operation) :
    (s.step w op).1.engine = (op.perform w s.scripts s.engine).2 := by
  unfold step
  rcases op.perform w s.scripts s.engine with ⟨reply, e⟩
  dsimp only
  split <;> rfl

theorem step_grows {s : Session} (hs : s.engine.Within .existing) (allowance : Nat) {op : Operation}
    (hop : op.InScope s.engine.scopes.size) :
    s.engine.scopes.Grows (s.step (.plain allowance) op).1.engine.scopes ∧
      (s.step (.plain allowance) op).1.engine.Within .existing := by
  obtain ⟨-, hgrown, hwithin, -⟩ := op.perform_lockstep s.engine.scopes allowance s.scripts hop
    s.engine s.engine ⟨rfl, .refl⟩ hs (Nat.le_refl _)
  rw [engine_step]
  exact ⟨hgrown.2, hwithin⟩

theorem Reaches.grows {s s' : Session} (h : s.Reaches s') (hs : s.engine.Within .existing) :
    s.engine.scopes.Grows s'.engine.scopes ∧ s'.engine.Within .existing := by
  induction h with
  | refl => exact ⟨.refl, hs⟩
  | step allowance op _ hop ih =>
    obtain ⟨hgrows, hwithin⟩ := ih
    obtain ⟨hstep, hwithin'⟩ := step_grows hwithin allowance hop
    exact ⟨hgrows.trans hstep, hwithin'⟩

/-- Whatever a host does with scopes that are there, and whatever scripts, functions and handlers do
meanwhile: no scope lies inside itself, and a scope stays where it is. So the way outward from a scope
comes to an end, a search along it does too, and a name means what the first scope on the way says that
has a variable of this name. After a write, it means the new value where the scope written is the first
one, and what it meant before where it is not. -/
theorem scopes_well_founded (builtins : Bool) {s : Session} (h : (Session.new builtins).Reaches s) :
    let t := s.engine.scopes
    WellFounded t.Encloses ∧ (∀ id, ¬Relation.TransGen t.Encloses id id) ∧
    (∀ s', s.Reaches s' → t.Grows s'.engine.scopes ∧
      ∀ id, id < t.size → s'.engine.scopes.parent? id = t.parent? id) ∧
    ∀ d, ∃ ids, (∀ ids', t.Way d ids' ↔ ids' = ids) ∧
      (∀ name, (∀ found, t.Search name d found ↔ found = ids.find? (t.binds name)) ∧
        t.lookup? d name = (ids.find? (t.binds name)).bind fun id => t.local? id name) ∧
      ∀ c n v m, c < t.size → (t.set c n v).lookup? d m =
        if m = n ∧ ids.find? ((t.set c n v).binds n) = some c then some v else t.lookup? d m := by
  intro t
  obtain ⟨hempty, hnew⟩ := Engine.within_new builtins
  obtain ⟨hgrows, hwithin⟩ := h.grows hnew
  have hstart : (Engine.new builtins).scopes.IsFounded := by
    rw [hempty]
    exact ScopeTree.isFounded_empty
  have ht : t.IsFounded := hgrows.isFounded hstart
  refine ⟨ht.wellFounded, ht.not_transGen_self, fun s' hs' => ?_, fun d => ?_⟩
  · have hgrows' := (hs'.grows hwithin).1
    exact ⟨hgrows', fun id => hgrows'.parent?_eq⟩
  · have hway := ht.way_chain d
    refine ⟨t.chain d, fun ids' => ⟨hway.unique, fun h => h ▸ hway⟩, fun name => ?_, ?_⟩
    · exact ⟨hway.search_iff name, ht.lookup?_eq_find? hway name⟩
    · exact fun c n v m hc => ScopeTree.IsFounded.lookup?_set hc n v ht hway m

/-- The scope 1 lies inside the scope 0. After a script that leaves a function and a handler behind it still
does; what is then written in it can be read in it, and is not seen from outside. -/
theorem scopes_well_founded_after_script :
    let opened := ((Session.new true).run (.plain 0) [.newScope none, .newScope (some 0)]).1
    let source := "function f() x = true\nf()\non tick f()"
    let s := (opened.step (.plain 9) (.execute source (some 1))).1
    let t := s.engine.scopes
    (Session.new true).Reaches opened ∧ (Session.new true).Reaches s ∧ t.parent? 1 = some 0 ∧
      (t.set 1 "x" .null).lookup? 1 "x" = some .null ∧
      (t.set 1 "x" .null).lookup? 0 "x" = t.lookup? 0 "x" := by
  intro opened source s t
  have hopened : (Session.new true).Reaches opened :=
    .step 0 (.newScope (some 0)) (.step 0 (.newScope none) .refl nofun) fun id hid => by cases hid; decide
  have hscript : (Operation.execute source (some 1)).InScope opened.engine.scopes.size :=
    fun id hid => by cases hid; decide
  have hs : (Session.new true).Reaches s := .step 9 _ hopened hscript
  have hrun : opened.Reaches s := .step 9 _ .refl hscript
  obtain ⟨hgrows, hparents⟩ := (scopes_well_founded true hopened).2.2.1 s hrun
  have hinner : t.parent? 1 = some 0 := hparents 1 (by decide)
  have houter : t.parent? 0 = none := hparents 0 (by decide)
  have hsize : 1 < t.size := Nat.lt_of_lt_of_le (by decide) hgrows.size_le
  have hlaws := (scopes_well_founded true hs).2.2.2
  refine ⟨hopened, hs, hinner, ?_, ?_⟩
  · obtain ⟨ids, hway, -, hset⟩ := hlaws 1
    obtain rfl := (hway [1, 0]).1 (.inside hinner (.outermost houter))
    have hbinds : (t.set 1 "x" .null).binds "x" 1 = true := by
      rw [ScopeTree.binds, ScopeTree.local?_set hsize]
      rfl
    rw [hset 1 "x" .null "x" hsize, if_pos ⟨rfl, List.find?_cons_of_pos hbinds⟩]
  · obtain ⟨ids, hway, -, hset⟩ := hlaws 0
    obtain rfl := (hway [0]).1 (.outermost houter)
    rw [hset 1 "x" .null "x" hsize, if_neg]
    rintro ⟨-, hfind⟩
    exact absurd (List.mem_of_find?_eq_some hfind) (by decide)

end Session
end Parlance
