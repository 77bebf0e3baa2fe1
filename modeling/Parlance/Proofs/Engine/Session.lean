import Parlance.Engine.Builtin
import Parlance.Proofs.Engine.Safety

/-! Sessions: what a host does with an engine, one operation after the other. Scripts come into a session
only as sources that are read, and so no session gets to a place that a guard could watch, nor ends an
operation with an unknown operator. -/

namespace Parlance

structure Runner where
  manner : Manner
  allowance : Nat

namespace Runner

def plain (allowance : Nat) : Runner := ⟨.plain, allowance⟩

def source (w : Runner) : String → Option ScopeId → Run Value :=
  w.manner.execute w.allowance (w.manner.serve w.allowance)

end Runner

def Guard.runner (g : Guard) (allowance : Nat) : Runner := ⟨g.manner, allowance⟩

/-- What a host can do. Scripts are those that were read earlier in the session, by their number. -/
inductive Operation where
  | execute (source : String) (scope? : Option ScopeId)
  | parse (source : String)
  | run (script : Nat) (scope : ScopeId)
  | call (function : String) (args : List Value)
  | trigger (event : String) (args : List Value)
  | loadFile (files : FileTree) (path : String)
  | loadDirectory (files : FileTree) (dir extension : String)
  | reload (files : FileTree) (dir extension : String)
  | registerFunction (name : String) (parameters : List Parameter) (routine : Native)
  | registerType (t : TypeDef)
  | registerEvent (name : String) (parameters : List Parameter)
  | registerHandler (event : String) (script : Nat) (scope : ScopeId)
  | unregisterHandler (event : String) (script : Nat) (scope : ScopeId)
  | flush
  | setGlobal (name : String) (v : Value)
  | newScope (parent : Option ScopeId)
  | setLocal (scope : ScopeId) (name : String) (v : Value)
  | addObject (o : HostObject)
  | useBook (book : Phrasebook)

inductive Reply where
  | done
  | value (v : Value)
  | script (s : Script)
  | report (r : LoadReport)
  | removed (any : Bool)
  | scope (id : ScopeId)
  | object (id : ObjectId)

namespace Operation

/-- Does the operation with the scripts read so far. One that names no script does nothing. -/
def perform (w : Runner) (scripts : List Script) : Operation → Run Reply
  | execute source scope? => return .value (← w.source source scope?)
  | parse source => do
    let root ← Run.ofExcept ((← get).parse source)
    return .script (← Run.newScript root)
  | run script scope =>
    match scripts[script]? with
    | some s => return .value (← w.manner.script w.allowance s scope)
    | none => return .done
  | call function args => return .value (← w.manner.function w.allowance function args)
  | trigger event args => do
    w.manner.event w.allowance event args
    return .done
  | loadFile files path => do
    w.manner.loadFile w.allowance files path
    return .done
  | loadDirectory files dir extension =>
    return .report (← w.manner.loadDirectory w.allowance files dir extension)
  | reload files dir extension => return .report (← w.manner.reload w.allowance files dir extension)
  | registerFunction name parameters routine => do
    modify (·.defineFunction ⟨name, parameters, .native routine⟩)
    return .done
  | registerType t => do
    modify (·.registerType t)
    return .done
  | registerEvent name parameters => do
    modify (·.registerEvent name parameters)
    return .done
  | registerHandler event script scope =>
    match scripts[script]? with
    | some s => do
      Run.registerHandler event ⟨s, scope⟩
      return .done
    | none => return .done
  | unregisterHandler event script scope =>
    match scripts[script]? with
    | some s => return .removed (← Run.step fun e => (e.unregisterHandler event s scope).swap)
    | none => return .done
  | flush => do
    modify Engine.flush
    return .done
  | setGlobal name v => do
    modify (·.setGlobal name v)
    return .done
  | newScope parent => return .scope (← Run.newScope parent)
  | setLocal scope name v => do
    modify fun e => { e with scopes := e.scopes.set scope name v }
    return .done
  | addObject o => return .object (← Run.step (·.addObject o))
  | useBook book => do
    modify fun e => { e with book }
    return .done

/-- The routines that the operation brings in do not fail by an unknown operator of their own accord. -/
def IsHonest : Operation → Prop
  | registerFunction _ _ routine => ∀ args, (routine args).IsHonest
  | _ => True

end Operation

structure Session where
  engine : Engine
  scripts : List Script := []

namespace Session

def new (builtins : Bool) : Session where
  engine := .new builtins

def step (w : Runner) (s : Session) (op : Operation) : Session × Except Halt Reply :=
  let (reply, engine) := op.perform w s.scripts s.engine
  match reply with
  | .ok (.script new) => ({ engine, scripts := s.scripts ++ [new] }, reply)
  | _ => ({ s with engine }, reply)

/-- Operations in a row, whether or not they fail, and their replies. -/
def run (w : Runner) : Session → List Operation → Session × List (Except Halt Reply)
  | s, [] => (s, [])
  | s, op :: ops =>
    let (s, reply) := s.step w op
    let (s, replies) := run w s ops
    (s, reply :: replies)

end Session

/-! A new engine. -/

theorem Native.print_isHonest (channel : Channel) (args : List Value) :
    (Native.print channel args).IsHonest := fun _ _ _ _ => trivial

theorem Native.random_isHonest (args : List Value) : (Native.random args).IsHonest := by
  unfold Native.random
  split
  · split
    · trivial
    · extract_lets low high
      split
      · trivial
      · split
        · exact fun never _ => nomatch never
        · exact fun _ _ => trivial
  · trivial

theorem Function.isSound_of_native {name : String} {parameters : List Parameter} {run : Native}
    (h : ∀ args, (run args).IsHonest) : Function.IsSound False ⟨name, parameters, .native run⟩ := by
  refine ⟨fun body closure hb => ?_, fun run' hb => ?_⟩
  · cases hb
  · cases hb
    exact h

theorem Engine.isSound_new (builtins : Bool) : (Engine.new builtins).IsSound False := by
  have hempty : Engine.IsSound False {} :=
    ⟨⟨fun name f hf => (by cases hf), fun name event hev => (by cases hev)⟩,
      fun name f hf => (by cases hf)⟩
  have htypes (types : List TypeDef) {e : Engine} (he : e.IsSound False) :
      (types.foldl registerType e).IsSound False := by
    induction types generalizing e with
    | nil => exact he
    | cons t types ih => exact ih (he.congr rfl rfl)
  unfold Engine.new
  split
  · refine ((htypes _ hempty).defineFunction ?_).defineFunction ?_
    · exact Function.isSound_of_native (Native.print_isHonest _)
    · exact Function.isSound_of_native Native.random_isHonest
  · exact htypes _ hempty

/-! Operations. -/

def Reply.IsSound : Reply → Prop
  | .script s => s.root.IsStatement
  | _ => True

theorem Operation.perform_passes (g : Guard) (allowance : Nat) {scripts : List Script}
    (hscripts : ∀ s ∈ scripts, s.root.IsStatement) {op : Operation} (hop : op.IsHonest) :
    Passes False Reply.IsSound (op.perform (.plain allowance) scripts)
      (op.perform (g.runner allowance) scripts) := by
  -- after most operations nothing is left to show
  have hend {α : Type} {Q : α → Prop} {m r : Run α} (hm : Passes False Q m r) (reply : α → Reply)
      (h : ∀ a, (reply a).IsSound) :
      Passes False Reply.IsSound (m >>= fun a => pure (reply a)) (r >>= fun a => pure (reply a)) :=
    hm.bind fun a _ => .pure (h a)
  have hupdate {change : Engine → Engine} (h : ∀ e, e.IsSound False → (change e).IsSound False) :
      Passes False Reply.IsSound (do modify change; return .done) (do modify change; return .done) :=
    hend (.modify h) (fun _ => .done) fun _ => trivial
  have hserve := g.alike.serve allowance
  cases op with
  | execute source scope? => exact hend (g.alike.execute hserve source scope?) _ fun _ => trivial
  | parse source =>
    refine Passes.get.bind fun e _ => (Run.parse_passes source).bind fun root hroot => ?_
    exact (Run.newScript_passes hroot).bind fun s hs => .pure hs
  | run script scope =>
    simp only [perform]
    split
    · next s hs =>
      exact hend (g.alike.script allowance (hscripts s (List.mem_of_getElem? hs)) scope) _
        fun _ => trivial
    · exact .pure trivial
  | call function args => exact hend (g.alike.function allowance function args) _ fun _ => trivial
  | trigger event args => exact hend (g.alike.event allowance event args) _ fun _ => trivial
  | loadFile files path => exact hend (g.alike.loadFile allowance files path) _ fun _ => trivial
  | loadDirectory files dir extension =>
    exact hend (g.alike.loadDirectory allowance files dir extension) _ fun _ => trivial
  | reload files dir extension =>
    exact hend (g.alike.reload allowance files dir extension) _ fun _ => trivial
  | registerFunction name parameters routine =>
    exact hupdate fun _ he => he.defineFunction (Function.isSound_of_native hop)
  | registerType t => exact hupdate fun _ he => he.congr rfl rfl
  | registerEvent name parameters =>
    exact hupdate fun _ he => he.of_stores (he.stores.registerEvent name parameters) rfl
  | registerHandler event script scope =>
    simp only [perform]
    split
    · next s hs =>
      exact hend (Run.registerHandler_passes event (hscripts s (List.mem_of_getElem? hs))) _
        fun _ => trivial
    · exact .pure trivial
  | unregisterHandler event script scope =>
    simp only [perform]
    split
    · next s hs => exact hend (.step fun _ he => he.unregisterHandler event s scope) _ fun _ => trivial
    · exact .pure trivial
  | flush => exact hupdate fun _ he => he.of_stores he.stores.flush rfl
  | setGlobal name v => exact hupdate fun _ he => he.congr rfl rfl
  | newScope parent => exact hend (Run.newScope_passes parent) _ fun _ => trivial
  | setLocal scope name v => exact hupdate fun _ he => he.congr rfl rfl
  | addObject o => exact hend (.step fun _ he => he.congr rfl rfl) _ fun _ => trivial
  | useBook book => exact hupdate fun _ he => he.congr rfl rfl

/-! Sessions. -/

structure Session.IsSound (s : Session) : Prop where
  engine : s.engine.IsSound False
  scripts : ∀ script ∈ s.scripts, script.root.IsStatement

theorem Session.step_isSound (g : Guard) (allowance : Nat) {s : Session} (hs : s.IsSound)
    {op : Operation} (hop : op.IsHonest) :
    s.step (g.runner allowance) op = s.step (.plain allowance) op ∧
      (s.step (.plain allowance) op).1.IsSound ∧
      ∀ h, (s.step (.plain allowance) op).2 = .error h → h.Admissible False := by
  have hpasses := Operation.perform_passes g allowance hs.scripts hop
  obtain ⟨-, hsound, hreply, hhalt⟩ := hpasses s.engine hs.engine
  refine ⟨?_, ?_⟩
  · unfold step
    rw [hpasses.apply_eq hs.engine]
  · unfold step
    rcases hrun : op.perform (.plain allowance) s.scripts s.engine with ⟨reply, e⟩
    rw [hrun] at hsound hreply hhalt
    dsimp only at hsound hreply hhalt ⊢
    split
    · next new =>
      refine ⟨⟨hsound, fun script hm => ?_⟩, hhalt⟩
      rcases List.mem_append.1 hm with hm | hm
      · exact hs.scripts script hm
      · rw [List.mem_singleton.1 hm]
        exact hreply (.script new) rfl
    · exact ⟨⟨hsound, hs.scripts⟩, hhalt⟩

theorem Session.run_isSound (g : Guard) (allowance : Nat) {s : Session} (hs : s.IsSound)
    {ops : List Operation} (hops : ∀ op ∈ ops, op.IsHonest) :
    s.run (g.runner allowance) ops = s.run (.plain allowance) ops ∧
      (s.run (.plain allowance) ops).1.IsSound ∧
      ∀ reply ∈ (s.run (.plain allowance) ops).2, ∀ h, reply = .error h → h.Admissible False := by
  induction ops generalizing s with
  | nil => exact ⟨rfl, hs, fun reply hr => absurd hr List.not_mem_nil⟩
  | cons op ops ih =>
    obtain ⟨heq, hsound, hhalt⟩ := step_isSound g allowance hs (hops op List.mem_cons_self)
    obtain ⟨heqs, hsounds, hhalts⟩ := ih hsound fun x hx => hops x (List.mem_cons_of_mem _ hx)
    simp only [run]
    refine ⟨?_, hsounds, fun reply hr => ?_⟩
    · rw [heq, heqs]
    · rcases List.mem_cons.1 hr with rfl | hr
      · exact hhalt
      · exact hhalts reply hr

theorem Grammar.isExpression_of_readExpression {ts : List Token} {node : Node}
    (h : readExpression ts = .ok node) : node.IsExpression := by
  simp only [readExpression, placed] at h
  split at h
  · next e rest hr =>
    cases h
    exact (expression_gives (T := fun _ => True) _ ts _ rest (fun _ _ => trivial) hr).2
  · cases h

example : BinaryOp.known.map BinaryOp.text =
      ["or", "and", "==", "!=", "<", ">", "<=", ">=", "+", "-", "*", "/", "%"] ∧
    [UnaryOp.neg, .bang, .not].map UnaryOp.text = ["-", "!", "not"] := by decide

/-- Trees that are read are well formed. So in a session whose routines are honest, the trees in the
tables of the engine and the scripts stay well formed, no operation ends with an unknown operator, and
under every guard the session is the same: no statement is ever asked for a value, and no call, handler
or script, however deep, ends with an unknown operator, which could then be logged. -/
theorem Session.safe_of_honest (builtins : Bool) (allowance : Nat) (ops : List Operation)
    (hops : ∀ op ∈ ops, op.IsHonest) :
    (∀ ts root, Grammar.readScript ts = .ok root → root.IsStatement) ∧
    (∀ ts node, Grammar.readExpression ts = .ok node → node.IsExpression) ∧
    let ended := (Session.new builtins).run (.plain allowance) ops
    ended.1.engine.Stores Node.IsStatement ∧
    (∀ script ∈ ended.1.scripts, script.root.IsStatement) ∧
    (∀ reply ∈ ended.2, ∀ t, reply ≠ .error (.fault (.unknownOperator t))) ∧
    ∀ g : Guard, (Session.new builtins).run (g.runner allowance) ops = ended := by
  have hnew : (Session.new builtins).IsSound :=
    ⟨Engine.isSound_new builtins, fun script hm => absurd hm List.not_mem_nil⟩
  have hrun (g : Guard) := run_isSound g allowance hnew hops
  -- the end of the session does not depend on the guard, so any one will do
  obtain ⟨-, hsound, hhalt⟩ := hrun ⟨fun _ _ => pure .null, fun _ => pure .null⟩
  refine ⟨fun _ _ => Grammar.isStatement_of_readScript,
    fun _ _ => Grammar.isExpression_of_readExpression, hsound.engine.stores, hsound.scripts, ?_,
    fun g => (hrun g).1⟩
  intro reply hr t ht
  exact hhalt reply hr _ ht

/-- A routine that passes on whatever it is told is honest, also where the script fails. -/
theorem Session.safe_of_honest_relay :
    let relay : Native := fun args => Routine.request (.call "relayed" args)
    let ops : List Operation := [.registerFunction "relay" [] relay, .registerEvent "called" [],
      .execute "function relayed() return -\"one\"; on called relay()" none,
      .trigger "called" [], .call "relay" []]
    (∀ op ∈ ops, op.IsHonest) ∧
      ∀ reply ∈ ((Session.new true).run (.plain 100) ops).2, ∀ t,
        reply ≠ .error (.fault (.unknownOperator t)) := by
  intro relay ops
  have hops : ∀ op ∈ ops, op.IsHonest := by
    intro op hop
    simp only [ops, List.mem_cons, List.not_mem_nil, or_false] at hop
    rcases hop with rfl | rfl | rfl | rfl | rfl
    · exact fun args answer hanswer => hanswer
    all_goals trivial
  exact ⟨hops, (safe_of_honest true 100 ops hops).2.2.2.2.1⟩

end Parlance
