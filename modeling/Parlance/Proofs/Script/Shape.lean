import Parlance.Proofs.Script.Derivation

/-! The shape of the trees that the grammar builds. Statements and expressions share one type, but
where a value is wanted only an expression is ever read, and a `return` is none. An `else` belongs to
the nearest branch before it, so the first part of a branch that has one does not end with a branch
that has none. Any property that the forms of statements hand on is had by every tree that is
read. -/

namespace Parlance

/-- A tree for a value: no statement stands anywhere in it, and its operators have a meaning. -/
inductive Node.IsExpression : Node → Prop
  | literal (v : Value) : IsExpression (.literal v)
  | path (name : String) : IsExpression (.path name)
  | assign (path : String) {value : Node} : IsExpression value → IsExpression (.assign path value)
  | binary {op : BinaryOp} {left right : Node} : op ∈ BinaryOp.known → IsExpression left →
      IsExpression right → IsExpression (.binary op left right)
  | unary {op : UnaryOp} {operand : Node} : op ∈ [.neg, .bang, .not] → IsExpression operand →
      IsExpression (.unary op operand)
  | call (name : String) {args : List Node} : (∀ arg ∈ args, IsExpression arg) →
      IsExpression (.call name args)

/-- A tree that can be a statement: wherever it wants a value it has an expression. -/
inductive Node.IsStatement : Node → Prop
  | expression {node : Node} : node.IsExpression → IsStatement node
  | block {statements : List Node} : (∀ node ∈ statements, IsStatement node) →
      IsStatement (.block statements)
  | branch {condition yes : Node} {no : Option Node} : condition.IsExpression → IsStatement yes →
      (∀ node ∈ no, IsStatement node) → IsStatement (.branch condition yes no)
  | whileLoop {condition body : Node} : condition.IsExpression → IsStatement body →
      IsStatement (.whileLoop condition body)
  | forLoop {init condition step body : Node} : init.IsExpression → condition.IsExpression →
      step.IsExpression → IsStatement body → IsStatement (.forLoop init condition step body)
  | functionDef (name : String) (params : List String) {body : Node} : IsStatement body →
      IsStatement (.functionDef name params body)
  | returnWith {value : Node} : value.IsExpression → IsStatement (.returnWith value)
  | handler (cue : Cue) {body : Node} : IsStatement body → IsStatement (.handler cue body)
  | trigger (event : String) {args : List Node} : (∀ arg ∈ args, arg.IsExpression) →
      IsStatement (.trigger event args)

/-- An `else` after the tree would belong to a branch at its end. -/
def Node.endsOpen : Node → Bool
  | .branch _ _ none => true
  | .branch _ _ (some no) => no.endsOpen
  | .whileLoop _ body | .forLoop _ _ _ body | .functionDef _ _ body | .handler _ body =>
    body.endsOpen
  | _ => false

theorem Node.IsExpression.endsOpen {node : Node} (h : node.IsExpression) :
    node.endsOpen = false := by
  cases h <;> rfl

namespace Grammar
variable {α β : Type} {T : Token → Prop} {P : α → Prop} {Q : β → Prop}

theorem Stratum.Writes.mem_known {s : Stratum} {t : Token} {op : BinaryOp} (h : s.Writes t op) :
    op ∈ BinaryOp.known := by
  rcases h with ⟨-, hm⟩ | ⟨k, -, hw⟩
  · revert hm
    generalize t.text = text
    cases s <;> simp [signs, BinaryOp.known] <;> grind
  · cases s <;> simp [word?] at hw <;> simp [BinaryOp.known, ← hw.2]

theorem WritesUnary.mem_known {t : Token} {op : UnaryOp} (h : WritesUnary t op) :
    op ∈ [UnaryOp.neg, .bang, .not] := by
  rcases h with ⟨-, hm⟩ | ⟨-, rfl⟩
  · simp only [List.mem_cons, Prod.mk.injEq, List.not_mem_nil, or_false] at hm
    rcases hm with ⟨-, rfl⟩ | ⟨-, rfl⟩ <;> simp
  · simp

theorem Derives.ne_nil {s : Stratum} {ts : List Token} {e : Node} (h : Derives s ts e) : ts ≠ [] := by
  induction h with
  | tighter _ ih => exact ih
  | _ => simp

theorem Derives.isExpression {s : Stratum} {ts : List Token} {e : Node} (h : Derives s ts e) :
    e.IsExpression := by
  induction h with
  | tighter _ ih => exact ih
  | assign _ _ _ _ ih => exact .assign _ ih
  | binary _ hw _ hl hr => exact .binary hw.mem_known hl hr
  | unary hw _ ih => exact .unary hw.mem_known ih
  | number | text | truth | falsehood | null => exact .literal _
  | path => exact .path _
  | call _ _ _ _ _ ih =>
    refine .call _ fun arg ha => ?_
    obtain ⟨p, hp, rfl⟩ := List.mem_map.1 ha
    exact ih p hp
  | group _ _ _ ih => exact ih

def TakesFront (p : Parser α) : Prop := ∀ ts a rest, p ts = .ok (a, rest) → rest <:+ ts

/-- From tokens that all have the property `T` the reader takes some at the front, and whatever it
gives has the property `P`. -/
def Gives (T : Token → Prop) (P : α → Prop) (p : Parser α) : Prop :=
  ∀ ts a rest, (∀ t ∈ ts, T t) → p ts = .ok (a, rest) → rest <:+ ts ∧ P a

theorem TakesFront.gives {p : Parser α} (h : TakesFront p) : Gives T (fun _ => True) p :=
  fun ts a rest _ hr => ⟨h ts a rest hr, trivial⟩

theorem Gives.pure {a : α} (h : P a) : Gives T P (pure a) := by
  intro ts b rest _ hr
  obtain ⟨rfl, rfl⟩ := pure_eq_ok.1 hr
  exact ⟨List.suffix_rfl, h⟩

theorem Gives.bind {p : Parser α} {f : α → Parser β} (hp : Gives T P p)
    (hf : ∀ a, P a → Gives T Q (f a)) : Gives T Q (p >>= f) := by
  intro ts b rest hts hr
  obtain ⟨a, mid, ha, hb⟩ := bind_eq_ok.1 hr
  obtain ⟨hmid, hpa⟩ := hp _ _ _ hts ha
  obtain ⟨hrest, hqb⟩ := hf a hpa _ _ _ (fun t ht => hts t (hmid.subset ht)) hb
  exact ⟨hrest.trans hmid, hqb⟩

theorem get_takesFront : TakesFront get := by
  intro ts us rest hr
  obtain ⟨rfl, rfl⟩ := get_eq_ok.1 hr
  exact List.suffix_rfl

theorem accept_takesFront (kind : Token.Kind) : TakesFront (accept kind) := by
  intro ts b rest hr
  obtain ⟨-, t, rfl, -⟩ | ⟨-, -, rfl⟩ := accept_eq_ok.1 hr
  · exact List.suffix_cons t rest
  · exact List.suffix_rfl

theorem expect_takesFront (kind : Token.Kind) (what : String) : TakesFront (expect kind what) := by
  intro ts t rest hr
  obtain ⟨rfl, -⟩ := expect_eq_ok.1 hr
  exact List.suffix_cons t rest

theorem expectDelimiter_takesFront (d : Delimiter) : TakesFront (expectDelimiter d) := by
  intro ts u rest hr
  obtain ⟨t, rfl, -⟩ := expectDelimiter_eq_ok.1 hr
  exact List.suffix_cons t rest

theorem expectName_takesFront (what : String) : TakesFront (expectName what) := by
  intro ts name rest hr
  obtain ⟨t, rfl, -⟩ := expectName_eq_ok.1 hr
  exact List.suffix_cons t rest

theorem skipLineEnds_takesFront : TakesFront skipLineEnds := by
  intro ts u rest hr
  cases hr
  exact List.dropWhile_suffix _

theorem acceptElse_takesFront : TakesFront acceptElse := by
  intro ts found rest hr
  simp only [acceptElse] at hr
  split at hr
  · cases hr
    exact (List.tail_suffix _).trans (List.dropWhile_suffix _)
  · cases hr
    exact List.suffix_rfl

theorem separated_gives {item : Parser α} (h : Gives T P item) (n : Nat) :
    Gives T (fun as => ∀ a ∈ as, P a) (separated item n) := by
  induction n with
  | zero => exact h.bind fun a ha => .pure (by simpa using ha)
  | succ n ih =>
    refine h.bind fun a ha => (accept_takesFront _).gives.bind fun comma _ => ?_
    split
    · exact ih.bind fun as has => .pure (by simpa using ⟨ha, has⟩)
    · exact .pure (by simpa using ha)

theorem listed_gives {item : Parser α} (h : Gives T P item) :
    Gives T (fun as => ∀ a ∈ as, P a) (listed item) := by
  refine get_takesFront.gives.bind fun ts _ => ?_
  split
  · exact (expectDelimiter_takesFront _).gives.bind fun _ _ => .pure (by simp)
  · exact get_takesFront.gives.bind fun ts _ => (separated_gives h _).bind fun as has =>
      (expectDelimiter_takesFront _).gives.bind fun _ _ => .pure has

/-! Statements. -/

structure Closed (E S : Node → Prop) : Prop where
  null : E .null
  assign (path : String) {value : Node} : E value → E (.assign path value)
  expression {node : Node} : E node → S node
  block {statements : List Node} : (∀ node ∈ statements, S node) → S (.block statements)
  branch {condition yes : Node} : E condition → S yes → S (.branch condition yes none)
  choice {condition yes no : Node} : E condition → S yes → yes.endsOpen = false → S no →
    S (.branch condition yes (some no))
  whileLoop {condition body : Node} : E condition → S body → S (.whileLoop condition body)
  forLoop {init condition step body : Node} : E init → E condition → E step → S body →
    S (.forLoop init condition step body)
  functionDef (name : String) (params : List String) {body : Node} : S body →
    S (.functionDef name params body)
  returnWith {value : Node} : E value → S (.returnWith value)
  handler (event : String) {body : Node} : S body → S (.handler event body)
  trigger (event : String) {args : List Node} : (∀ arg ∈ args, E arg) → S (.trigger event args)

def Settles (p : Parser Node) : Prop :=
  ∀ ts node rest, p ts = .ok (node, rest) → node.endsOpen = true →
    acceptElse rest = .ok (false, rest)

section Statements
variable {E S : Node → Prop} {expr inner : Parser Node}

theorem condition_gives (he : Gives T E expr) : Gives T E (condition expr) :=
  (expectDelimiter_takesFront _).gives.bind fun _ _ => he.bind fun _ h =>
    (expectDelimiter_takesFront _).gives.bind fun _ _ => .pure h

theorem body_gives (hi : Gives T S inner) : Gives T S (body inner) :=
  skipLineEnds_takesFront.gives.bind fun _ _ => hi

theorem sequence_gives {stop : List Token → Bool} {item : Parser Node} (h : Gives T S item)
    (n : Nat) : Gives T (fun nodes => ∀ node ∈ nodes, S node) (sequence stop item n) := by
  induction n with
  | zero => exact .pure (by simp)
  | succ n ih =>
    refine skipLineEnds_takesFront.gives.bind fun _ _ => get_takesFront.gives.bind fun ts _ => ?_
    split
    · exact .pure (by simp)
    · exact h.bind fun node hn => ih.bind fun nodes hs => .pure (by simpa using ⟨hn, hs⟩)

theorem Settles.body (h : Settles inner) : Settles (body inner) := by
  intro ts node rest hr
  obtain ⟨_, mid, -, hb⟩ := bind_eq_ok.1 hr
  exact h mid node rest hb

variable (hc : Closed E S)
include hc

theorem block_gives (hi : Gives T S inner) : Gives T S (block inner) :=
  get_takesFront.gives.bind fun _ _ => (sequence_gives hi _).bind fun _ h =>
    (expectDelimiter_takesFront _).gives.bind fun _ _ => .pure (hc.block h)

theorem branch_gives (he : Gives T E expr) (hi : Gives T S inner) (hs : Settles inner) :
    Gives T S (branch expr inner) := by
  refine (condition_gives he).bind fun test ht ts node rest hts hr => ?_
  obtain ⟨yes, mid, hyes, hr⟩ := bind_eq_ok.1 hr
  obtain ⟨found, mid', hfound, hr⟩ := bind_eq_ok.1 hr
  obtain ⟨hmid, hy⟩ := body_gives hi _ _ _ hts hyes
  have hmid' := acceptElse_takesFront _ _ _ hfound
  cases found with
  | false =>
    obtain ⟨rfl, rfl⟩ := pure_eq_ok.1 hr
    exact ⟨hmid'.trans hmid, hc.branch ht hy⟩
  | true =>
    -- the `else` was not taken for a branch inside the first part
    have hclosed : yes.endsOpen = false := by
      rw [Bool.eq_false_iff]
      intro hopen
      rw [hs.body _ _ _ hyes hopen] at hfound
      cases hfound
    obtain ⟨no, mid'', hno, hr⟩ := bind_eq_ok.1 hr
    obtain ⟨rfl, rfl⟩ := pure_eq_ok.1 hr
    obtain ⟨hmid'', hn⟩ :=
      body_gives hi _ _ _ (fun t ht => hts t ((hmid'.trans hmid).subset ht)) hno
    exact ⟨hmid''.trans (hmid'.trans hmid), hc.choice ht hy hclosed hn⟩

theorem whileLoop_gives (he : Gives T E expr) (hi : Gives T S inner) :
    Gives T S (whileLoop expr inner) :=
  (condition_gives he).bind fun _ ht => (body_gives hi).bind fun _ hb => .pure (hc.whileLoop ht hb)

theorem declaration_gives (he : Gives T E expr) : Gives T E (declaration expr) := by
  intro ts node rest hts hr
  simp only [declaration, bind_eq_ok, expectName_eq_ok, get_eq_ok] at hr
  obtain ⟨name, _, ⟨t, rfl, -, -⟩, us, _, ⟨rfl, rfl⟩, hr⟩ := hr
  split at hr
  · next u vs =>
    split at hr
    · obtain ⟨_, _, hset, hr⟩ := bind_eq_ok.1 hr
      cases hset
      obtain ⟨value, mid, hv, hr⟩ := bind_eq_ok.1 hr
      obtain ⟨rfl, rfl⟩ := pure_eq_ok.1 hr
      obtain ⟨hmid, hvalue⟩ := he _ _ _ (fun v hv => hts v (by simp [hv])) hv
      exact ⟨hmid.trans ((List.suffix_cons u vs).trans (List.suffix_cons t _)), hc.assign _ hvalue⟩
    · obtain ⟨rfl, rfl⟩ := pure_eq_ok.1 hr
      exact ⟨List.suffix_cons t _, hc.assign _ hc.null⟩
  · obtain ⟨rfl, rfl⟩ := pure_eq_ok.1 hr
    exact ⟨List.suffix_cons t _, hc.assign _ hc.null⟩

theorem forLoop_gives (he : Gives T E expr) (hi : Gives T S inner) :
    Gives T S (forLoop expr inner) := by
  refine (expectDelimiter_takesFront _).gives.bind fun _ _ =>
    (accept_takesFront _).gives.bind fun isVar _ => ?_
  extract_lets rest
  have hrest (init : Node) (h : E init) : Gives T S (rest init) :=
    (expect_takesFront _ _).gives.bind fun _ _ => he.bind fun _ ht =>
      (expect_takesFront _ _).gives.bind fun _ _ => he.bind fun _ hs =>
      (expectDelimiter_takesFront _).gives.bind fun _ _ =>
      (body_gives hi).bind fun _ hb => .pure (hc.forLoop h ht hs hb)
  split
  · exact (declaration_gives hc he).bind hrest
  · exact he.bind hrest

theorem functionDef_gives (hi : Gives T S inner) : Gives T S (functionDef inner) :=
  (expectName_takesFront _).gives.bind fun _ _ => (expectDelimiter_takesFront _).gives.bind fun _ _ =>
    (listed_gives (expectName_takesFront _).gives).bind fun _ _ =>
    (body_gives hi).bind fun _ hb => .pure (hc.functionDef _ _ hb)

theorem returnWith_gives (he : Gives T E expr) : Gives T S (returnWith expr) := by
  refine get_takesFront.gives.bind fun ts _ => ?_
  split
  · exact .pure (hc.returnWith hc.null)
  · exact he.bind fun _ h => .pure (hc.returnWith h)

theorem handler_gives (hi : Gives T S inner) : Gives T S (handler inner) :=
  (expectName_takesFront _).gives.bind fun _ _ =>
    (body_gives hi).bind fun _ hb => .pure (hc.handler _ hb)

theorem trigger_gives (he : Gives T E expr) : Gives T S (trigger expr) := by
  refine (expectName_takesFront _).gives.bind fun event _ =>
    (accept_takesFront _).gives.bind fun found _ => ?_
  extract_lets rest
  have hrest (args : List Node) (h : ∀ arg ∈ args, E arg) : Gives T S (rest args) :=
    (accept_takesFront _).gives.bind fun _ _ => .pure (hc.trigger _ h)
  split
  · exact (listed_gives he).bind hrest
  · exact (Gives.pure (by simp)).bind hrest

end Statements

theorem expression_takes {n : Nat} {ts rest : List Token} {e : Node}
    (h : expression n ts = .ok (e, rest)) : ∃ t us, ts = t :: us ∧ rest <:+ us := by
  obtain ⟨used, rfl, hd⟩ := expression_sound n _ _ _ h
  obtain ⟨t, used, rfl⟩ := List.exists_cons_of_ne_nil hd.ne_nil
  exact ⟨t, used ++ rest, rfl, List.suffix_append used rest⟩

/-! No `else` is left for a branch at the end of a statement. -/

section Settles
variable {expr inner : Parser Node}

theorem Settles.bind {p : Parser α} {f : α → Parser Node} (h : ∀ a, Settles (f a)) :
    Settles (p >>= f) := by
  intro ts node rest hr
  obtain ⟨a, mid, -, hb⟩ := bind_eq_ok.1 hr
  exact h a mid node rest hb

theorem Settles.pure {node : Node} (h : node.endsOpen = false) : Settles (pure node) := by
  intro ts a rest hr hopen
  obtain ⟨rfl, rfl⟩ := pure_eq_ok.1 hr
  rw [h] at hopen
  cases hopen

theorem Settles.around {f : Node → Node} (h : Settles inner)
    (hf : ∀ node, (f node).endsOpen = node.endsOpen) :
    Settles (do return f (← Grammar.body inner)) := by
  intro ts node rest hr hopen
  obtain ⟨inside, mid, hb, hp⟩ := bind_eq_ok.1 hr
  obtain ⟨rfl, rfl⟩ := pure_eq_ok.1 hp
  exact h.body _ _ _ hb (hf inside ▸ hopen)

theorem block_settles : Settles (block inner) :=
  .bind fun _ => .bind fun _ => .bind fun _ => .pure rfl

theorem branch_settles (h : Settles inner) : Settles (branch expr inner) := by
  refine .bind fun test => .bind fun yes ts node rest hr hopen => ?_
  obtain ⟨found, mid, hfound, hr⟩ := bind_eq_ok.1 hr
  cases found with
  | true => exact h.around (f := fun no => .branch test yes (some no)) (fun _ => rfl) _ _ _ hr hopen
  | false =>
    obtain ⟨rfl, rfl⟩ := pure_eq_ok.1 hr
    -- looking for an `else` in vain takes nothing
    have hsame : mid = ts := by
      simp only [acceptElse] at hfound
      split at hfound <;> cases hfound
      rfl
    rwa [hsame] at hfound ⊢

theorem whileLoop_settles (h : Settles inner) : Settles (whileLoop expr inner) :=
  .bind fun _ => h.around fun _ => rfl

theorem functionDef_settles (h : Settles inner) : Settles (functionDef inner) :=
  .bind fun _ => .bind fun _ => .bind fun _ => h.around fun _ => rfl

theorem handler_settles (h : Settles inner) : Settles (handler inner) :=
  .bind fun _ => h.around fun _ => rfl

theorem declaration_settles : Settles (declaration expr) := by
  refine .bind fun name => .bind fun ts => ?_
  split
  · split
    · exact .bind fun _ => .bind fun _ => .pure rfl
    · exact .pure rfl
  · exact .pure rfl

theorem forLoop_settles (h : Settles inner) : Settles (forLoop expr inner) := by
  refine .bind fun _ => .bind fun isVar => ?_
  extract_lets rest
  have hrest (init : Node) : Settles (rest init) :=
    .bind fun _ => .bind fun _ => .bind fun _ => .bind fun _ => .bind fun _ => h.around fun _ => rfl
  split
  · exact .bind hrest
  · exact .bind hrest

theorem returnWith_settles : Settles (returnWith expr) := by
  refine .bind fun ts => ?_
  split
  · exact .pure rfl
  · exact .bind fun _ => .pure rfl

theorem trigger_settles : Settles (trigger expr) := by
  refine .bind fun event => .bind fun found => ?_
  extract_lets rest
  have hrest (args : List Node) : Settles (rest args) := .bind fun _ => .pure rfl
  split
  · exact .bind hrest
  · exact .bind hrest

theorem expressionStatement_settles (n : Nat) :
    Settles (expressionStatement (expression n)) := by
  intro ts node rest hr hopen
  obtain ⟨e, mid, he, hr⟩ := bind_eq_ok.1 hr
  obtain ⟨_, _, -, hp⟩ := bind_eq_ok.1 hr
  obtain ⟨rfl, rfl⟩ := pure_eq_ok.1 hp
  obtain ⟨_, -, hd⟩ := expression_sound n _ _ _ he
  rw [hd.isExpression.endsOpen] at hopen
  cases hopen

theorem statement_settles (n : Nat) : Settles (statement n) := by
  induction n with
  | zero =>
    intro ts node rest hr
    cases hr
  | succ n ih =>
    intro ts node rest hr
    simp only [statement] at hr
    split at hr
    · cases hr
    · split at hr
      · exact branch_settles ih _ _ _ hr
      · exact whileLoop_settles ih _ _ _ hr
      · exact forLoop_settles ih _ _ _ hr
      · exact functionDef_settles ih _ _ _ hr
      · exact returnWith_settles _ _ _ hr
      · exact declaration_settles _ _ _ hr
      · exact handler_settles ih _ _ _ hr
      · exact trigger_settles _ _ _ hr
      · exact block_settles _ _ _ hr
      · cases hr
      · exact expressionStatement_settles _ _ _ _ hr

end Settles

theorem statement_takes_closed {E S : Node → Prop} (hc : Closed E S)
    (he : ∀ n, Gives T E (expression n)) {n : Nat} {ts rest : List Token} {s : Node}
    (hts : ∀ t ∈ ts, T t) (h : statement n ts = .ok (s, rest)) :
    ∃ t us, ts = t :: us ∧ rest <:+ us ∧ S s := by
  induction n generalizing ts rest s with
  | zero => simp [statement] at h
  | succ n ih =>
    have he := he (n + 1)
    have hs := statement_settles n
    have hi : Gives T S (statement n) := by
      intro ts s rest hts hr
      obtain ⟨t, us, rfl, hrest, hs⟩ := ih hts hr
      exact ⟨hrest.trans (List.suffix_cons t us), hs⟩
    simp only [statement] at h
    split at h
    · cases h
    · next t us =>
      have hus : ∀ u ∈ us, T u := fun u hu => hts u (List.mem_cons_of_mem t hu)
      refine ⟨t, us, rfl, ?_⟩
      split at h
      · exact branch_gives hc he hi hs _ _ _ hus h
      · exact whileLoop_gives hc he hi _ _ _ hus h
      · exact forLoop_gives hc he hi _ _ _ hus h
      · exact functionDef_gives hc hi _ _ _ hus h
      · exact returnWith_gives hc he _ _ _ hus h
      · exact (declaration_gives hc he _ _ _ hus h).imp_right hc.expression
      · exact handler_gives hc hi _ _ _ hus h
      · exact trigger_gives hc he _ _ _ hus h
      · exact block_gives hc hi _ _ _ hus h
      · cases h
      · obtain ⟨e, mid, hr, ha⟩ := bind_eq_ok.1 h
        obtain ⟨_, _, hb, hp⟩ := bind_eq_ok.1 ha
        obtain ⟨rfl, rfl⟩ := pure_eq_ok.1 hp
        obtain ⟨_, _, heq, hmid⟩ := expression_takes hr
        cases heq
        exact ⟨(accept_takesFront _ _ _ _ hb).trans hmid, hc.expression (he _ _ _ hts hr).2⟩

theorem forall_of_sequence {E S : Node → Prop} (hc : Closed E S)
    (he : ∀ n, Gives T E (expression n)) {stop : List Token → Bool} {k n : Nat}
    {ts rest : List Token} {nodes : List Node} (hts : ∀ t ∈ ts, T t)
    (h : sequence stop (statement k) n ts = .ok (nodes, rest)) : ∀ node ∈ nodes, S node := by
  have hstatement : Gives T S (statement k) := by
    intro ts s rest hts hr
    obtain ⟨t, us, rfl, hrest, hs⟩ := statement_takes_closed hc he hts hr
    exact ⟨hrest.trans (List.suffix_cons t us), hs⟩
  exact (sequence_gives hstatement n ts nodes rest hts h).2

theorem closed_isStatement : Closed Node.IsExpression Node.IsStatement where
  null := .literal _
  assign _ _ h := .assign _ h
  expression := .expression
  block := .block
  branch ht hy := .branch ht hy (by simp)
  choice ht hy _ hn := .branch ht hy (by simpa using hn)
  whileLoop := .whileLoop
  forLoop := .forLoop
  functionDef := .functionDef
  returnWith := .returnWith
  handler event _ h := .handler event h
  trigger := .trigger

theorem expression_gives (n : Nat) : Gives T Node.IsExpression (expression n) := by
  intro ts e rest _ hr
  obtain ⟨used, rfl, hd⟩ := expression_sound n _ _ _ hr
  exact ⟨List.suffix_append used rest, hd.isExpression⟩

theorem statement_takes {n : Nat} {ts rest : List Token} {s : Node}
    (h : statement n ts = .ok (s, rest)) : ∃ t us, ts = t :: us ∧ rest <:+ us ∧ s.IsStatement :=
  statement_takes_closed (T := fun _ => True) closed_isStatement expression_gives
    (fun _ _ => trivial) h

theorem isStatement_of_readScript {ts : List Token} {root : Node} (h : readScript ts = .ok root) :
    root.IsStatement := by
  simp only [readScript, placed] at h
  split at h
  · next nodes rest hr =>
    cases h
    exact .block (forall_of_sequence (T := fun _ => True) closed_isStatement expression_gives
      (fun _ _ => trivial) hr)
  · cases h

end Grammar
end Parlance
