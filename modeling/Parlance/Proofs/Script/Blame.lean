import Parlance.Proofs.Script.Reading

/-! Which token a refusal shows. A reader looks only at the tokens it is given, from the front on: what
it leaves is an end of them, and a token that it refuses is one of them. -/

namespace Parlance.Grammar
open Token (Kind)
variable {α β : Type}

/-- What is left is an end of the tokens, and a token that is refused is among them. -/
def FairFrom (ts : List Token) : Except Refusal (α × List Token) → Prop
  | .ok (_, rest) => rest <:+ ts
  | .error refusal => ∀ t ∈ refusal.token?, t ∈ ts

def Fair (p : Parser α) : Prop := ∀ ts, FairFrom ts (p ts)

theorem FairFrom.later {ts us : List Token} {r : Except Refusal (α × List Token)}
    (h : FairFrom ts r) (hts : ts <:+ us) : FairFrom us r := by
  cases r with
  | ok r => exact List.IsSuffix.trans h hts
  | error refusal => exact fun t ht => hts.subset (h t ht)

namespace Fair

theorem pure (a : α) : Fair (pure a : Parser α) := fun _ => List.suffix_rfl

theorem bind {p : Parser α} {f : α → Parser β} (hp : Fair p) (hf : ∀ a, Fair (f a)) :
    Fair (p >>= f) := by
  intro ts
  have hts := hp ts
  change FairFrom ts (Except.bind (p ts) fun r => f r.1 r.2)
  cases hr : p ts with
  | error refusal =>
    rw [hr] at hts
    exact hts
  | ok r =>
    rw [hr] at hts
    exact (hf r.1 r.2).later hts

theorem ite {p q : Parser α} {c : Prop} [Decidable c] (hp : Fair p) (hq : Fair q) :
    Fair (if c then p else q) := by
  split
  · exact hp
  · exact hq

end Fair

theorem get_fair : Fair (get : Parser (List Token)) := fun _ => List.suffix_rfl

theorem accept_fair (kind : Kind) : Fair (accept kind) := by
  intro ts
  unfold accept
  split
  · exact List.tail_suffix ts
  · exact List.suffix_rfl

theorem expect_fair (kind : Kind) (what : String) : Fair (expect kind what) := by
  intro ts
  cases ts with
  | nil => nofun
  | cons t ts =>
    simp only [expect]
    split
    · exact List.suffix_cons t ts
    · split
      · nofun
      · rintro u ⟨⟩
        exact List.mem_cons_self

theorem expectName_fair (what : String) : Fair (expectName what) :=
  (expect_fair _ _).bind fun _ => .pure _

theorem expectDelimiter_fair (d : Delimiter) : Fair (expectDelimiter d) :=
  (expect_fair _ _).bind fun _ => .pure _

theorem skipLineEnds_fair : Fair skipLineEnds := fun _ => List.dropWhile_suffix _

theorem acceptElse_fair : Fair acceptElse := by
  intro ts
  simp only [acceptElse]
  split
  · exact (List.tail_suffix _).trans (List.dropWhile_suffix _)
  · exact List.suffix_rfl

theorem separated_fair {item : Parser α} (h : Fair item) (n : Nat) : Fair (separated item n) := by
  induction n with
  | zero => exact h.bind fun a => .pure _
  | succ n ih =>
    exact h.bind fun a => (accept_fair _).bind fun _ => (ih.bind fun _ => .pure _).ite (.pure _)

theorem listed_fair {item : Parser α} (h : Fair item) : Fair (listed item) :=
  get_fair.bind fun _ => ((expectDelimiter_fair _).bind fun _ => .pure _).ite
    (get_fair.bind fun _ => (separated_fair h _).bind fun _ =>
      (expectDelimiter_fair _).bind fun _ => .pure _)

/-! Expressions. -/

section Expressions
variable {operand inner : Parser Node}

theorem chainFrom_fair (h : Fair operand) (op? : Token → Option BinaryOp) (n : Nat) (left : Node) :
    Fair (chainFrom op? operand n left) := by
  induction n generalizing left with
  | zero => exact .pure left
  | succ n ih =>
    intro ts
    cases ts with
    | nil => exact List.suffix_rfl
    | cons t ts =>
      have hts := h ts
      simp only [chainFrom]
      split
      · exact List.suffix_rfl
      · split
        · next refusal hr =>
          rw [hr] at hts
          exact hts.later (List.suffix_cons t ts)
        · next right rest hr =>
          rw [hr] at hts
          exact (ih _ rest).later (hts.trans (List.suffix_cons t ts))

theorem chain_fair (h : Fair operand) (op? : Token → Option BinaryOp) : Fair (chain op? operand) :=
  h.bind fun _ => get_fair.bind fun _ => chainFrom_fair h _ _ _

theorem unary_fair (h : Fair operand) : Fair (unary operand) := by
  intro ts
  induction ts with
  | nil => exact h []
  | cons t ts ih =>
    simp only [unary]
    split
    · exact h (t :: ts)
    · split
      · next refusal hr =>
        rw [hr] at ih
        exact ih.later (List.suffix_cons t ts)
      · next e rest hr =>
        rw [hr] at ih
        exact ih.later (List.suffix_cons t ts)

theorem primary_fair (h : Fair inner) : Fair (primary inner) := by
  intro ts
  cases ts with
  | nil => nofun
  | cons t ts =>
    have htail : ts <:+ t :: ts := List.suffix_cons t ts
    have hself {refusal : Refusal} (hr : refusal.token? = some t) :
        FairFrom (t :: ts) (.error refusal : Except Refusal (Node × List Token)) := by
      intro u hu
      rw [hr, Option.mem_some_iff] at hu
      exact hu ▸ List.mem_cons_self
    simp only [primary]
    split
    · split
      · exact htail
      · exact hself rfl
    · exact htail
    · exact htail
    · exact htail
    · exact htail
    · split
      · have hlist : Fair (do return .call t.text (← listed inner) : Parser Node) :=
          (listed_fair h).bind fun _ => .pure _
        exact (hlist ts.tail).later ((List.tail_suffix ts).trans htail)
      · exact htail
    · have hgroup : Fair (do let e ← inner; expectDelimiter .rightParen; return e : Parser Node) :=
        h.bind fun _ => (expectDelimiter_fair _).bind fun _ => .pure _
      exact (hgroup ts).later htail
    · nofun
    · exact hself rfl

theorem operation_fair (h : Fair inner) : Fair (operation inner) := by
  have hchain (ops : List (Token → Option BinaryOp)) :
      Fair (ops.foldr chain (unary (primary inner))) := by
    induction ops with
    | nil => exact unary_fair (primary_fair h)
    | cons op? ops ih => exact chain_fair ih op?
  exact hchain levels

theorem assignment_fair (h : Fair inner) : Fair (assignment inner) := by
  intro ts
  have hts := operation_fair h ts
  simp only [assignment]
  split
  · next refusal hr => exact hr ▸ hts
  · next left hr => exact hr ▸ hts
  · next left t rest hr =>
    rw [hr] at hts
    have hrest : rest <:+ ts := (List.suffix_cons t rest).trans hts
    split
    · have hvalue := h rest
      split
      · next refusal hv => exact (hv ▸ hvalue).later hrest
      · next value rest' hv =>
        rw [hv] at hvalue
        split
        · exact hvalue.later hrest
        · rintro u ⟨⟩
          exact hts.subset List.mem_cons_self
    · exact hts

theorem expression_fair (n : Nat) : Fair (expression n) := by
  induction n with
  | zero => exact fun _ => nofun
  | succ n ih => exact assignment_fair ih

end Expressions

/-! Statements. -/

section Statements
variable {expr inner : Parser Node}

theorem condition_fair (he : Fair expr) : Fair (condition expr) :=
  (expectDelimiter_fair _).bind fun _ => he.bind fun _ => (expectDelimiter_fair _).bind fun _ => .pure _

theorem body_fair (hi : Fair inner) : Fair (body inner) := skipLineEnds_fair.bind fun _ => hi

theorem sequence_fair (stop : List Token → Bool) (hi : Fair inner) (n : Nat) :
    Fair (sequence stop inner n) := by
  induction n with
  | zero => exact .pure []
  | succ n ih =>
    exact skipLineEnds_fair.bind fun _ => get_fair.bind fun _ =>
      (Fair.pure _).ite (hi.bind fun _ => ih.bind fun _ => .pure _)

theorem block_fair (hi : Fair inner) : Fair (block inner) :=
  get_fair.bind fun _ => (sequence_fair _ hi _).bind fun _ =>
    (expectDelimiter_fair _).bind fun _ => .pure _

theorem branch_fair (he : Fair expr) (hi : Fair inner) : Fair (branch expr inner) :=
  (condition_fair he).bind fun _ => (body_fair hi).bind fun _ => acceptElse_fair.bind fun _ =>
    ((body_fair hi).bind fun _ => .pure _).ite (.pure _)

theorem whileLoop_fair (he : Fair expr) (hi : Fair inner) : Fair (whileLoop expr inner) :=
  (condition_fair he).bind fun _ => (body_fair hi).bind fun _ => .pure _

theorem declaration_fair (he : Fair expr) : Fair (declaration expr) := by
  refine (expectName_fair _).bind fun name ts => ?_
  have hassign : Fair (do return .assign name (← expr) : Parser Node) := he.bind fun _ => .pure _
  cases ts with
  | nil => exact List.suffix_rfl
  | cons t ts =>
    have hget : (get : Parser (List Token)) (t :: ts) = .ok (t :: ts, t :: ts) := rfl
    rw [bind_apply hget]
    simp only
    split
    · have hset : (set ts : Parser Unit) (t :: ts) = .ok ((), ts) := rfl
      rw [bind_apply hset]
      exact (hassign ts).later (List.suffix_cons t ts)
    · exact List.suffix_rfl

theorem forLoop_fair (he : Fair expr) (hi : Fair inner) : Fair (forLoop expr inner) := by
  refine (expectDelimiter_fair _).bind fun _ => (accept_fair _).bind fun isVar => ?_
  extract_lets rest
  have hrest (init : Node) : Fair (rest init) :=
    (expect_fair _ _).bind fun _ => he.bind fun _ => (expect_fair _ _).bind fun _ => he.bind fun _ =>
      (expectDelimiter_fair _).bind fun _ => (body_fair hi).bind fun _ => .pure _
  split
  · exact (declaration_fair he).bind hrest
  · exact he.bind hrest

theorem functionDef_fair (hi : Fair inner) : Fair (functionDef inner) :=
  (expectName_fair _).bind fun _ => (expectDelimiter_fair _).bind fun _ =>
    (listed_fair (expectName_fair _)).bind fun _ => (body_fair hi).bind fun _ => .pure _

theorem returnWith_fair (he : Fair expr) : Fair (returnWith expr) :=
  get_fair.bind fun _ => (Fair.pure _).ite (he.bind fun _ => .pure _)

theorem handler_fair (hi : Fair inner) : Fair (handler inner) :=
  (expectName_fair _).bind fun _ => (body_fair hi).bind fun _ => .pure _

theorem trigger_fair (he : Fair expr) : Fair (trigger expr) := by
  refine (expectName_fair _).bind fun event => (accept_fair _).bind fun found => ?_
  extract_lets rest
  have hrest (args : List Node) : Fair (rest args) := (accept_fair _).bind fun _ => .pure _
  split
  · exact (listed_fair he).bind hrest
  · exact (Fair.pure _).bind hrest

theorem expressionStatement_fair (he : Fair expr) : Fair (expressionStatement expr) :=
  he.bind fun _ => (accept_fair _).bind fun _ => .pure _

end Statements

theorem statement_fair (n : Nat) : Fair (statement n) := by
  induction n with
  | zero => exact fun _ => nofun
  | succ n ih =>
    have he := expression_fair (n + 1)
    intro ts
    simp only [statement]
    split
    · nofun
    · next t ts =>
      have hafter {p : Parser Node} (h : Fair p) : FairFrom (t :: ts) (p ts) :=
        (h ts).later (List.suffix_cons t ts)
      split
      · exact hafter (branch_fair he ih)
      · exact hafter (whileLoop_fair he ih)
      · exact hafter (forLoop_fair he ih)
      · exact hafter (functionDef_fair ih)
      · exact hafter (returnWith_fair he)
      · exact hafter (declaration_fair he)
      · exact hafter (handler_fair ih)
      · exact hafter (trigger_fair he)
      · exact hafter (block_fair ih)
      · nofun
      · exact expressionStatement_fair he (t :: ts)

/-! Whole token lists. -/

theorem exists_of_placed_error {p : Parser α} (h : Fair p) {ts : List Token} (hne : ts ≠ [])
    {refusal : Refusal} {position : Option Position}
    (he : placed ts (p ts) = .error (refusal, position)) :
    ∃ t ∈ ts, position = some t.position := by
  have hts := h ts
  unfold placed at he
  split at he
  · cases he
  · next other hr =>
    rw [hr] at hts
    cases he
    cases ht : refusal.token? with
    | some t => exact ⟨t, hts t ht, rfl⟩
    | none =>
      refine ⟨ts.getLast hne, List.getLast_mem hne, ?_⟩
      rw [List.getLast?_eq_some_getLast hne]
      rfl

end Parlance.Grammar
