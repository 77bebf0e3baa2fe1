import Parlance.Proofs.Engine.Mirror
import Parlance.Proofs.Engine.Permit

/-! Two runs of the same code in lockstep. If two engines differ in their scopes only, and in such a
way that permitted code cannot tell them apart, then it does the same in both, act by act. With one
engine on both sides this says what every run keeps. -/

namespace Parlance

theorem Engine.coerceAll_withScopes (e : Engine) (t : ScopeTree) (pairs : List (Parameter × Value)) :
    ({ e with scopes := t } : Engine).coerceAll pairs = e.coerceAll pairs := by
  induction pairs with
  | nil => rfl
  | cons pair rest ih => simp only [coerceAll, ih]

theorem Function.bindings_withScopes (f : Function) (e : Engine) (t : ScopeTree)
    (args : List Value) : f.bindings { e with scopes := t } args = f.bindings e args := by
  simp only [bindings, Engine.coerceAll_withScopes]

theorem Engine.resolve_congr {e e' : Engine} {scope : ScopeId}
    (hrest : e' = { e with scopes := e'.scopes })
    (hlookup : ∀ name, e'.scopes.lookup? scope name = e.scopes.lookup? scope name)
    (names : List String) : e'.resolve scope names = e.resolve scope names := by
  have hglobals : e'.globals = e.globals := by rw [hrest]
  have hobjects : e'.objects = e.objects := by rw [hrest]
  cases names with
  | nil => rfl
  | cons root members => simp only [resolve, lookup?, hlookup, hglobals, hobjects]

/-- A relation between engines that permitted code can neither break nor see through. -/
structure Permit.Bond (p : Permit) (R : Engine → Engine → Prop) : Prop where
  rest : ∀ {e e' : Engine}, R e e' → e' = { e with scopes := e'.scopes }
  size : ∀ {e e' : Engine}, R e e' → e'.scopes.size = e.scopes.size
  lookup : ∀ {e e' : Engine} {scope : ScopeId}, R e e' → p.runs e.scopes.size scope →
    ∀ name, e'.scopes.lookup? scope name = e.scopes.lookup? scope name
  act : ∀ {e e' : Engine} {act : Act}, R e e' → e.Within p → act.Permitted p e.scopes.size →
    R (act.apply e) (act.apply e')
  fresh : ∀ {e e' : Engine}, R e e' → p.runs (e.scopes.size + 1) e.scopes.size

structure Agrees {α : Type} (p : Permit) (R : Engine → Engine → Prop) (n : Nat)
    (r r' : Except Halt α × Engine) : Prop where
  same : r'.1 = r.1
  related : R r.2 r'.2
  within : r.2.Within p
  grows : n ≤ r.2.scopes.size

/-- The code does the same in related engines that have at least `n` scopes. -/
def Lockstep {α : Type} (p : Permit) (R : Engine → Engine → Prop) (n : Nat) (m : Run α) : Prop :=
  ∀ e e', R e e' → e.Within p → n ≤ e.scopes.size → Agrees p R e.scopes.size (m e) (m e')

variable {p : Permit} {R : Engine → Engine → Prop} {n : Nat}

namespace Lockstep
variable {α β : Type} {m : Run α} {f : α → Run β}

theorem pure (a : α) : Lockstep p R n (pure a) :=
  fun _ _ hR hw _ => ⟨rfl, hR, hw, Nat.le_refl _⟩

theorem throw (halt : Halt) : Lockstep p R n (throw halt : Run α) :=
  fun _ _ hR hw _ => ⟨rfl, hR, hw, Nat.le_refl _⟩

theorem fail (fault : Fault) : Lockstep p R n (Run.fail fault : Run α) := throw _

theorem ofExcept (r : Except Fault α) : Lockstep p R n (Run.ofExcept r) := by
  cases r with
  | ok a => exact pure a
  | error fault => exact fail fault

theorem bind (hm : Lockstep p R n m) (hf : ∀ k a, n ≤ k → Lockstep p R k (f a)) :
    Lockstep p R n (m >>= f) := by
  intro e e' hR hw hn
  obtain ⟨hsame, hrel, hwithin, hgrows⟩ := hm e e' hR hw hn
  rw [bind_apply, bind_apply]
  -- they end alike, so it never happens that one stops and the other goes on
  rcases hme : m e with ⟨halt | a, e₁⟩ <;> rcases hme' : m e' with ⟨halt' | a', e₁'⟩ <;>
    rw [hme, hme'] at hsame hrel <;> rw [hme] at hwithin hgrows <;> cases hsame
  · exact ⟨rfl, hrel, hwithin, hgrows⟩
  · obtain ⟨hsame, hrel', hwithin', hgrows'⟩ :=
      hf e₁.scopes.size a (Nat.le_trans hn hgrows) e₁ e₁' hrel hwithin (Nat.le_refl _)
    exact ⟨hsame, hrel', hwithin', Nat.le_trans hgrows hgrows'⟩

theorem map (g : α → β) (hm : Lockstep p R n m) : Lockstep p R n (g <$> m) := by
  rw [map_eq_pure_bind]
  exact hm.bind fun _ a _ => pure (g a)

theorem ite {c : Prop} [Decidable c] {m' : Run α} (hm : Lockstep p R n m)
    (hm' : Lockstep p R n m') : Lockstep p R n (if c then m else m') := by
  split
  · exact hm
  · exact hm'

theorem attempt (hm : Lockstep p R n m) : Lockstep p R n (Run.attempt m) := by
  intro e e' hR hw hn
  obtain ⟨hsame, hrel, hwithin, hgrows⟩ := hm e e' hR hw hn
  unfold Run.attempt
  rcases hme : m e with ⟨(fault | _) | a, e₁⟩ <;> rcases hme' : m e' with ⟨(fault' | _) | a', e₁'⟩ <;>
    rw [hme, hme'] at hsame hrel <;> rw [hme] at hwithin hgrows <;> cases hsame <;>
    exact ⟨rfl, hrel, hwithin, hgrows⟩

theorem read (hb : p.Bond R) {f : Engine → Run β}
    (hf : ∀ (e : Engine) (t : ScopeTree), f { e with scopes := t } = f e)
    (h : ∀ e : Engine, e.Within p → n ≤ e.scopes.size → Lockstep p R e.scopes.size (f e)) :
    Lockstep p R n (get >>= f) := by
  intro e e' hR hw hn
  have hsame : f e' = f e := by
    rw [hb.rest hR]
    exact hf e e'.scopes
  show Agrees p R e.scopes.size (f e e) (f e' e')
  rw [hsame]
  exact h e hw hn e e' hR hw (Nat.le_refl _)

theorem tryAct (hb : p.Bond R) {m : Run Unit} (act : Act) (h : ∀ k, n ≤ k → act.Permitted p k)
    (check : Engine → Except Fault Unit)
    (hcheck : ∀ (e : Engine) (t : ScopeTree), check { e with scopes := t } = check e)
    (hm : ∀ e, m e = match check e with
      | .ok _ => (.ok (), act.apply e)
      | .error fault => (.error (.fault fault), e)) : Lockstep p R n m := by
  intro e e' hR hw hn
  have hsame : check e' = check e := by
    rw [hb.rest hR]
    exact hcheck e e'.scopes
  rw [hm, hm, hsame]
  cases check e with
  | ok _ => exact ⟨rfl, hb.act hR hw (h _ hn), hw.act (h _ hn), act.size_le e⟩
  | error fault => exact ⟨rfl, hR, hw, Nat.le_refl _⟩

theorem act (hb : p.Bond R) (act : Act) (h : ∀ k, n ≤ k → act.Permitted p k) :
    Lockstep p R n (modify act.apply : Run Unit) :=
  tryAct hb act h (fun _ => .ok ()) (fun _ _ => rfl) fun _ => rfl

theorem step (hb : p.Bond R) {change : Engine → α × Engine} (act : Act)
    (h : ∀ k, n ≤ k → act.Permitted p k) (hchange : ∀ e, (change e).2 = act.apply e)
    (hanswer : ∀ (e : Engine) (t : ScopeTree), (change { e with scopes := t }).1 = (change e).1) :
    Lockstep p R n (Run.step change) := by
  intro e e' hR hw hn
  have hsame : (change e').1 = (change e).1 := by
    rw [hb.rest hR]
    exact hanswer e e'.scopes
  refine ⟨congrArg Except.ok hsame, ?_, ?_, ?_⟩
  · show R (change e).2 (change e').2
    rw [hchange, hchange]
    exact hb.act hR hw (h _ hn)
  · show (change e).2.Within p
    rw [hchange]
    exact hw.act (h _ hn)
  · show e.scopes.size ≤ (change e).2.scopes.size
    rw [hchange]
    exact act.size_le e

end Lockstep

namespace Run

/-! The steps that running a tree is made of. -/

theorem resolve_lockstep (hb : p.Bond R) {scope : ScopeId} (hs : p.runs n scope)
    (names : List String) :
    Lockstep p R n (get >>= fun e => ofExcept (e.resolve scope names)) := by
  intro e e' hR hw hn
  have hresolve : e'.resolve scope names = e.resolve scope names :=
    Engine.resolve_congr (hb.rest hR) (hb.lookup hR (p.runs_later hn hs)) names
  show Agrees p R e.scopes.size (ofExcept (e.resolve scope names) e)
    (ofExcept (e'.resolve scope names) e')
  rw [hresolve]
  exact Lockstep.ofExcept _ e e' hR hw hn

theorem writeMember_lockstep (hb : p.Bond R) (owner : Value) (member : String) (v : Value) :
    Lockstep p R n (do
      let objects ← ofExcept (owner.writeMember (← get).objects member v)
      modify fun e => { e with objects }) := by
  refine .tryAct hb (.writeMember owner member v) (fun _ _ => trivial)
    (fun e => (owner.writeMember e.objects member v).map fun _ => ()) (fun _ _ => rfl) fun e => ?_
  show (ofExcept (owner.writeMember e.objects member v) >>= fun objects =>
    modify fun e => { e with objects }) e = _
  simp only [Act.apply]
  cases owner.writeMember e.objects member v <;> rfl

theorem assign_lockstep (hb : p.Bond R) {scope : ScopeId} (hs : p.runs n scope) (path : String)
    (v : Value) : Lockstep p R n (assign scope path v) := by
  have hset : Lockstep p R n (modify (Act.assign scope path v).apply) :=
    .act hb _ fun k hk => p.runs_later hk hs
  unfold assign
  split
  · exact hset
  · exact hset
  · exact (resolve_lockstep hb hs _).bind fun _ owner _ => writeMember_lockstep hb owner _ v

theorem registerHandler_lockstep (hb : p.Bond R) (event : String) {handler : Handler}
    (hs : p.runs n handler.scope) : Lockstep p R n (registerHandler event handler) := by
  refine .tryAct hb (.addHandler event handler) (fun k hk => p.runs_later hk hs)
    (fun e => (e.registerHandler event handler).map fun _ => ()) (fun e t => ?_) fun e => ?_
  · simp only [Engine.registerHandler]
    cases e.events.get? event <;> rfl
  · show (ofExcept (e.registerHandler event handler) >>= fun e' => set e') e = _
    simp only [Act.apply]
    cases e.registerHandler event handler <;> rfl

theorem newTree_lockstep (hb : p.Bond R) (node : Node) : Lockstep p R n (newTree node) :=
  .step hb (.mark node) (fun _ _ => trivial) (fun _ => rfl) fun _ _ => rfl

theorem newScope_bind_lockstep {α : Type} (hb : p.Bond R) {parent : Option ScopeId}
    (hparent : ∀ scope, parent = some scope → p.opens n scope) {f : ScopeId → Run α}
    (hf : ∀ k scope, n ≤ k → p.runs k scope → Lockstep p R k (f scope)) :
    Lockstep p R n (newScope parent >>= f) := by
  intro e e' hR hw hn
  have hact : (Act.addScope parent).Permitted p e.scopes.size :=
    fun scope hscope => p.opens_later hn (hparent scope hscope)
  have hsize : ((Act.addScope parent).apply e).scopes.size = e.scopes.size + 1 :=
    e.scopes.size_add parent
  show Agrees p R e.scopes.size (f e.scopes.size ((Act.addScope parent).apply e))
    (f e'.scopes.size ((Act.addScope parent).apply e'))
  -- the new scope has the same number on both sides
  rw [hb.size hR]
  obtain ⟨hsame, hrel, hwithin, hgrows⟩ :=
    hf (e.scopes.size + 1) e.scopes.size (by omega) (hb.fresh hR) _ _ (hb.act hR hw hact)
      (hw.act hact) (Nat.le_of_eq hsize.symm)
  exact ⟨hsame, hrel, hwithin, by omega⟩

theorem setAll_lockstep (hb : p.Bond R) {scope : ScopeId} (hs : p.runs n scope)
    (bindings : List (String × Value)) :
    Lockstep p R n (modify fun e => { e with scopes := e.scopes.setAll scope bindings }) := by
  induction bindings generalizing n with
  | nil => exact Lockstep.pure ()
  | cons binding rest ih =>
    obtain ⟨name, v⟩ := binding
    have hset : Lockstep p R n (modify (Act.assign scope name v).apply) :=
      .act hb _ fun k hk => p.runs_later hk hs
    exact hset.bind fun k _ hk => ih (p.runs_later hk hs)

theorem openFrame_bind_lockstep {α : Type} (hb : p.Bond R) {closure : ScopeId}
    (hclosure : p.opens n closure) (parameters : List Parameter) (vs : List Value)
    {f : ScopeId → Run α} (hf : ∀ k scope, n ≤ k → p.runs k scope → Lockstep p R k (f scope)) :
    Lockstep p R n (openFrame closure parameters vs >>= f) := by
  unfold openFrame
  rw [bind_assoc]
  refine newScope_bind_lockstep hb (fun scope hscope => ?_) fun k scope hk hs => ?_
  · cases hscope
    exact hclosure
  · rw [bind_assoc]
    refine (setAll_lockstep hb hs _).bind fun k' _ hk' => ?_
    rw [pure_bind]
    exact hf k' scope (Nat.le_trans hk hk') (p.runs_later hk' hs)

theorem loop_lockstep {test : Run Value} {body : Run Flow} {advance : Run Unit}
    (ht : ∀ k, n ≤ k → Lockstep p R k test) (hbody : ∀ k, n ≤ k → Lockstep p R k body)
    (ha : ∀ k, n ≤ k → Lockstep p R k advance) (laps : Nat) (last : Value) :
    ∀ k, n ≤ k → Lockstep p R k (loop test body advance laps last) := by
  induction laps generalizing last with
  | zero => exact fun k _ => .throw _
  | succ laps ih =>
    intro k hk
    refine (ht k hk).bind fun k₁ v hk₁ => .ite ?_ (.pure _)
    refine (hbody k₁ (Nat.le_trans hk hk₁)).bind fun k₂ flow hk₂ => ?_
    have hn : n ≤ k₂ := Nat.le_trans hk (Nat.le_trans hk₁ hk₂)
    cases flow with
    | completed v => exact (ha k₂ hn).bind fun k₃ _ hk₃ => ih v k₃ (Nat.le_trans hn hk₃)
    | returned v => exact .pure _

theorem inTurn_lockstep {run : Node → Run Flow} {nodes : List Node}
    (h : ∀ node ∈ nodes, ∀ k, n ≤ k → Lockstep p R k (run node)) (last : Value) :
    ∀ k, n ≤ k → Lockstep p R k (inTurn run nodes last) := by
  induction nodes generalizing last with
  | nil => exact fun k _ => .pure _
  | cons node nodes ih =>
    intro k hk
    refine (h node List.mem_cons_self k hk).bind fun k₁ flow hk₁ => ?_
    cases flow with
    | completed v =>
      exact ih (fun x hx => h x (List.mem_cons_of_mem _ hx)) v k₁ (Nat.le_trans hk hk₁)
    | returned v => exact .pure _

end Run

def Call.Permitted (p : Permit) (n : Nat) : Call → Prop
  | .invoke f _ => f.Permitted p n
  | _ => True

def ServesInLockstep (p : Permit) (R : Engine → Engine → Prop) (serve : Call → Run Value) : Prop :=
  ∀ (n : Nat) (call : Call), call.Permitted p n → Lockstep p R n (serve call)

namespace Run

section Served
variable {laps : Nat} {serve : Call → Run Value}

mutual
theorem exec_lockstep (hb : p.Bond R) (hserve : ServesInLockstep p R serve) (scope : ScopeId) :
    ∀ (node : Node) (n : Nat), p.runs n scope → Lockstep p R n (exec laps serve scope node)
  | .literal v, _, _ => .pure _
  | .path name, n, hs => (resolve_lockstep hb hs (segments name)).bind fun _ _ _ => .pure _
  | .assign path value, n, hs =>
    ((exec_lockstep hb hserve scope value n hs).map _).bind fun k _ hk =>
      (assign_lockstep hb (p.runs_later hk hs) path _).bind fun _ _ _ => .pure _
  | .binary op left right, n, hs =>
    ((exec_lockstep hb hserve scope left n hs).map _).bind fun k _ hk =>
      .ite (.pure _) <| .ite (.pure _) <|
        ((exec_lockstep hb hserve scope right k (p.runs_later hk hs)).map _).bind fun _ _ _ =>
          .read hb (fun _ _ => rfl) fun e _ _ => (Lockstep.ofExcept _).bind fun _ _ _ => .pure _
  | .unary op operand, n, hs =>
    ((exec_lockstep hb hserve scope operand n hs).map _).bind fun _ _ _ =>
      .read hb (fun _ _ => rfl) fun e _ _ => (Lockstep.ofExcept _).bind fun _ _ _ => .pure _
  | .block statements, n, hs => execAll_lockstep hb hserve scope statements .null n hs
  | .branch condition yes (some no), n, hs =>
    ((exec_lockstep hb hserve scope condition n hs).map _).bind fun k _ hk =>
      .ite (exec_lockstep hb hserve scope yes k (p.runs_later hk hs))
        (exec_lockstep hb hserve scope no k (p.runs_later hk hs))
  | .branch condition yes none, n, hs =>
    ((exec_lockstep hb hserve scope condition n hs).map _).bind fun k _ hk =>
      .ite (exec_lockstep hb hserve scope yes k (p.runs_later hk hs)) (.pure _)
  | .whileLoop condition body, n, hs =>
    loop_lockstep
      (fun k hk => (exec_lockstep hb hserve scope condition k (p.runs_later hk hs)).map _)
      (fun k hk => exec_lockstep hb hserve scope body k (p.runs_later hk hs))
      (fun _ _ => .pure ()) laps .null n (Nat.le_refl n)
  | .forLoop init condition advance body, n, hs =>
    ((exec_lockstep hb hserve scope init n hs).map _).bind fun k _ hk =>
      loop_lockstep
        (fun k hk => (exec_lockstep hb hserve scope condition k (p.runs_later hk hs)).map _)
        (fun k hk => exec_lockstep hb hserve scope body k (p.runs_later hk hs))
        (fun k hk => ((exec_lockstep hb hserve scope advance k (p.runs_later hk hs)).map _).bind
          fun _ _ _ => .pure ()) laps .null k hk
  | .functionDef name params body, n, hs =>
    (Lockstep.act hb (.define name params body scope) fun k hk => p.runs_later hk hs).bind
      fun _ _ _ => .pure _
  | .returnWith value, n, hs =>
    ((exec_lockstep hb hserve scope value n hs).map _).bind fun _ _ _ => .pure _
  | .call name args, n, hs => .read hb (fun _ _ => rfl) fun e hw hn => by
    cases hf : e.functions.get? name with
    | none => exact .fail _
    | some f =>
      refine (evalAll_lockstep hb hserve scope args _ (p.runs_later hn hs)).bind fun k vs hk => ?_
      exact (hserve k (.invoke f vs) ((hw.functions name f hf).later hk)).bind fun _ _ _ => .pure _
  | .handler cue body, n, hs =>
    (registerHandler_lockstep hb cue.event hs).bind fun _ _ _ => .pure _
  | .trigger event args, n, hs =>
    (evalAll_lockstep hb hserve scope args n hs).bind fun k vs _ =>
      (hserve k (.trigger event vs) trivial).bind fun _ _ _ => .pure _
theorem execAll_lockstep (hb : p.Bond R) (hserve : ServesInLockstep p R serve) (scope : ScopeId) :
    ∀ (nodes : List Node) (last : Value) (n : Nat), p.runs n scope →
      Lockstep p R n (execAll laps serve scope nodes last)
  | [], last, _, _ => .pure _
  | node :: nodes, last, n, hs => (exec_lockstep hb hserve scope node n hs).bind fun k flow hk => by
    cases flow with
    | completed v => exact execAll_lockstep hb hserve scope nodes v k (p.runs_later hk hs)
    | returned v => exact .pure _
theorem evalAll_lockstep (hb : p.Bond R) (hserve : ServesInLockstep p R serve) (scope : ScopeId) :
    ∀ (nodes : List Node) (n : Nat), p.runs n scope →
      Lockstep p R n (evalAll laps serve scope nodes)
  | [], _, _ => .pure _
  | node :: nodes, n, hs => ((exec_lockstep hb hserve scope node n hs).map _).bind fun k _ hk =>
      (evalAll_lockstep hb hserve scope nodes k (p.runs_later hk hs)).bind fun _ _ _ => .pure _
end

theorem execRoot_lockstep (hb : p.Bond R) (hserve : ServesInLockstep p R serve) {scope : ScopeId}
    (hs : p.runs n scope) (root : Node) : Lockstep p R n (execRoot laps serve scope root) :=
  (exec_lockstep hb hserve scope root n hs).map _

theorem execSource_lockstep (hb : p.Bond R) (hserve : ServesInLockstep p R serve) {scope : ScopeId}
    (hs : p.runs n scope) (nodes : List Node) :
    Lockstep p R n (execSource laps serve scope nodes) := by
  refine (inTurn_lockstep (fun node _ k hk => ?_) .null n (Nat.le_refl n)).map _
  exact (newTree_lockstep hb node).bind fun k' marked hk' =>
    exec_lockstep hb hserve scope marked k' (p.runs_later (Nat.le_trans hk hk') hs)

theorem answer_lockstep (hb : p.Bond R) (hserve : ServesInLockstep p R serve) {q : Request}
    (hq : p.asks q) : Lockstep p R n (answer serve q) := by
  cases q with
  | call name args =>
    refine Lockstep.attempt (.read hb (fun _ _ => rfl) fun e hw hn => ?_)
    cases hf : e.functions.get? name with
    | none => exact .fail _
    | some f => exact hserve _ (.invoke f args) (hw.functions name f hf)
  | trigger event args =>
    exact Lockstep.attempt ((hserve n (.trigger event args) trivial).bind fun _ _ _ => .pure ())
  | execute source => exact Lockstep.attempt (hserve n (.execute source) trivial)
  | declareEvent name parameters =>
    exact .act hb (.declareEvent name parameters) fun _ _ => hq
  | removeHandler event script scope =>
    show Lockstep p R n (step fun e => (e.unregisterHandler event script scope).swap)
    refine .step hb (.removeHandler event script scope) (fun _ _ => hq) (fun _ => rfl) fun e t => ?_
    simp only [Engine.unregisterHandler]
    cases e.events.get? event <;> rfl
  | flush => exact .act hb .flush fun _ _ => hq
  | handlerCount event => exact .read hb (fun _ _ => rfl) fun _ _ _ => .pure _
  | readGlobal name => exact .read hb (fun _ _ => rfl) fun _ _ _ => .pure _
  | writeGlobal name v => exact .act hb (.setGlobal name v) fun _ _ => hq
  | report channel message => exact .act hb (.report channel message) fun _ _ => trivial
  | objects => exact .read hb (fun _ _ => rfl) fun _ _ _ => .pure _
  | addObject o =>
    show Lockstep p R n (step (·.addObject o))
    exact .step hb (.addObject o) (fun _ _ => hq) (fun _ => rfl) fun _ _ => rfl
  | changeObject id o => exact .act hb (.changeObject id o) fun _ _ => hq
  | random =>
    show Lockstep p R n (step Engine.draw)
    exact .step hb .draw (fun _ _ => hq) (fun _ => rfl) fun _ _ => rfl
  | breakDown => exact .throw _

theorem runRoutine_lockstep (hb : p.Bond R) (hserve : ServesInLockstep p R serve) {α : Type}
    {routine : Routine α} (h : routine.Asks p.asks) :
    Lockstep p R n (runRoutine serve routine) := by
  induction routine generalizing n with
  | done a => exact .pure a
  | ask q next ih => exact (answer_lockstep hb hserve h.1).bind fun _ a _ => ih a (h.2 a)

theorem runBody_lockstep (hb : p.Bond R) (hserve : ServesInLockstep p R serve) {f : Function}
    (hf : f.Permitted p n) (vs : List Value) : Lockstep p R n (runBody laps serve f vs) := by
  unfold Function.Permitted at hf
  unfold runBody Manner.runBody
  cases hbody : f.body with
  | native routine =>
    rw [hbody] at hf
    exact (runRoutine_lockstep hb hserve (hf vs)).bind fun _ r _ => .ofExcept r
  | script body closure =>
    rw [hbody] at hf
    exact openFrame_bind_lockstep hb hf _ vs fun k frame _ hs => execRoot_lockstep hb hserve hs body

theorem runHandlers_lockstep (hb : p.Bond R) (hserve : ServesInLockstep p R serve) (event : String)
    (bindings : List (String × Value)) {handlers : List Handler}
    (h : ∀ handler ∈ handlers, p.runs n handler.scope) :
    Lockstep p R n (runHandlers laps serve event bindings handlers) := by
  induction handlers generalizing n with
  | nil => exact .pure ()
  | cons handler rest ih =>
    have hs := h handler List.mem_cons_self
    have hrest {k : Nat} (hk : n ≤ k) : ∀ handler ∈ rest, p.runs k handler.scope :=
      fun x hx => p.runs_later hk (h x (List.mem_cons_of_mem _ hx))
    refine (setAll_lockstep hb hs bindings).bind fun k _ hk => ?_
    have hroot : Lockstep p R k (execRoot laps serve handler.scope handler.script.root) :=
      execRoot_lockstep hb hserve (p.runs_later hk hs) handler.script.root
    refine hroot.attempt.bind fun k' outcome hk' => ?_
    have hn : n ≤ k' := Nat.le_trans hk hk'
    cases outcome with
    | ok v => exact ih (hrest hn)
    | error fault =>
      exact (Lockstep.act hb (.report _ _) fun _ _ => trivial).bind fun k'' _ hk'' =>
        ih (hrest (Nat.le_trans hn hk''))

theorem trigger_lockstep (hb : p.Bond R) (hserve : ServesInLockstep p R serve) (name : String)
    (args : List Value) : Lockstep p R n (trigger laps serve name args) := by
  refine .read hb (fun _ _ => rfl) fun e hw _ => ?_
  cases hev : e.events.get? name with
  | none => exact .fail _
  | some event =>
    refine .ite (.fail _) ((Lockstep.act hb (.report _ _) fun _ _ => trivial).bind
      fun k _ hk => runHandlers_lockstep hb hserve _ _ fun handler hh => ?_)
    exact p.runs_later hk (hw.handlers name handler ⟨event, hev, hh⟩)

theorem execute_lockstep (hb : p.Bond R) (hserve : ServesInLockstep p R serve) (text : String)
    {scope? : Option ScopeId} (hscope : ∀ id, scope? = some id → p.runs n id) :
    Lockstep p R n (Manner.plain.execute laps serve text scope?) := by
  refine .read hb (fun _ _ => rfl) fun e _ hn => (Lockstep.ofExcept _).bind fun k root hk => ?_
  cases scope? with
  | none =>
    exact newScope_bind_lockstep hb (fun _ h => by cases h) fun _ _ _ hs =>
      execSource_lockstep hb hserve hs root.statements
  | some id =>
    exact execSource_lockstep hb hserve (p.runs_later (Nat.le_trans hn hk) (hscope id rfl)) _

theorem perform_lockstep (hb : p.Bond R) (hserve : ServesInLockstep p R serve) {call : Call}
    (hcall : call.Permitted p n) : Lockstep p R n (perform laps serve call) := by
  cases call with
  | invoke f args =>
    refine .read hb (fun e t => ?_) fun e _ hn => (Lockstep.ofExcept _).bind fun k vs hk =>
      runBody_lockstep hb hserve (Function.Permitted.later hcall (Nat.le_trans hn hk)) vs
    rw [f.bindings_withScopes]
  | trigger event args => exact (trigger_lockstep hb hserve event args).bind fun _ _ _ => .pure _
  | execute source =>
    have hscope : ∀ id, none = some id → p.runs n id := nofun
    exact execute_lockstep hb hserve source hscope

end Served

theorem serve_lockstep (hb : p.Bond R) (allowance : Nat) :
    ServesInLockstep p R (Parlance.serve allowance) := by
  induction allowance with
  | zero => exact fun _ _ _ => .throw _
  | succ allowance ih => exact fun _ _ hcall => perform_lockstep hb ih hcall

/-! What a host can have run. -/

theorem script_lockstep (hb : p.Bond R) (allowance : Nat) (s : Script) {scope : ScopeId}
    (hs : p.runs n scope) : Lockstep p R n (script allowance s scope) :=
  execRoot_lockstep hb (serve_lockstep hb allowance) hs s.root

theorem function_lockstep (hb : p.Bond R) (allowance : Nat) (name : String) (args : List Value) :
    Lockstep p R n (function allowance name args) := by
  refine .read hb (fun _ _ => rfl) fun e hw _ => ?_
  cases hf : e.functions.get? name with
  | none => exact .fail _
  | some f => exact serve_lockstep hb allowance _ (.invoke f args) (hw.functions name f hf)

end Run
end Parlance
