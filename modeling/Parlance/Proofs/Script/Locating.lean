import Parlance.Proofs.Script.Progress
import Parlance.Proofs.Script.Rendering
import Parlance.Proofs.Token.Splitting

/-! Where the cursor stands when a script is refused. A reader never changes the tokens, and it is
refused at the token that it looks at: it wanted another one there, or it came to the end of the input.
Only two refusals come later, when the cursor has gone on: an assignment to something that is no name is
refused after its value was read, and a number that cannot be read was taken before. The lexer finds no
such number. -/

namespace Parlance

theorem Grammar.Refusal.token?_eq_none_iff {refusal : Refusal} : refusal.token? = none ↔
    refusal = .statementAtEnd ∨ refusal = .expressionAtEnd ∨ ∃ what, refusal = .wantedAtEnd what := by
  cases refusal <;> simp [token?]

namespace Cursor
open Token (Kind)
open Grammar (Refusal front isOperator)
variable {α β : Type}

inductive RefusedAt (c : Cursor) : Refusal → Prop
  | wanted {what : String} {found : Token} : c.token? = some found → found.kind ≠ .endOfInput →
      RefusedAt c (.wanted what found)
  | atEnd {refusal : Refusal} : refusal.token? = none → c.atEnd = true → RefusedAt c refusal
  | target {equals : Token} : equals ∈ c.tokens → isOperator "=" equals = true →
      RefusedAt c (.invalidTarget equals)
  | number {literal : Token} {fault : Decimal.ReadFault} : literal ∈ c.tokens →
      literal.kind = .number → Decimal.read literal.text.toList = .error fault →
      RefusedAt c (.invalidNumber literal)

/-- What a reader that begins at `c` comes to: the tokens are the same, and a refusal is one for the
place where the cursor stands. -/
def LocatedFrom (c : Cursor) : Option (Except Stop α × Cursor) → Prop
  | none => True
  | some (r, c') => c'.tokens = c.tokens ∧
      ∀ refusal position, r = .error (.refused refusal position) → c'.RefusedAt refusal

def Located (q : Reader α) : Prop := ∀ c, LocatedFrom c (q c)

namespace LocatedFrom
variable {c c' : Cursor}

theorem ok {a : α} (h : c'.tokens = c.tokens) : LocatedFrom c (some (.ok a, c')) := ⟨h, by simp⟩

theorem refuse {refusal : Refusal} (h : c.RefusedAt refusal) :
    LocatedFrom c ((Cursor.refuse refusal : Reader α) c) := by
  refine ⟨rfl, fun refusal' position he => ?_⟩
  cases he
  exact h

theorem later {s : Option (Except Stop α × Cursor)} (h : LocatedFrom c' s)
    (htokens : c'.tokens = c.tokens) : LocatedFrom c s := by
  cases s with
  | none => trivial
  | some r => exact ⟨h.1.trans htokens, h.2⟩

theorem bind {q : Reader α} {g : α → Reader β} (hq : LocatedFrom c (q c))
    (hg : ∀ a c', c'.tokens = c.tokens → LocatedFrom c' (g a c')) : LocatedFrom c ((q >>= g) c) := by
  cases hr : q c with
  | none =>
    have hnone : (q >>= g) c = none := by
      change (q c).bind (fun r => ExceptT.bindCont g r.1 r.2) = none
      rw [hr]
      rfl
    rw [hnone]
    trivial
  | some r =>
    obtain ⟨_ | a, c'⟩ := r
    · rw [hr] at hq
      rw [bind_of_error hr]
      exact ⟨hq.1, fun refusal position he => hq.2 refusal position (by cases he; rfl)⟩
    · rw [hr] at hq
      rw [bind_of_ok hr]
      exact (hg a c' hq.1).later hq.1

end LocatedFrom

namespace Located

theorem pure (a : α) : Located (pure a : Reader α) := fun _ => .ok rfl

theorem cutShort : Located (Cursor.cutShort : Reader α) := fun _ => trivial

theorem bind {q : Reader α} {g : α → Reader β} (hq : Located q) (hg : ∀ a, Located (g a)) :
    Located (q >>= g) := fun c => (hq c).bind fun a c' _ => hg a c'

theorem ite {p : Prop} [Decidable p] {q q' : Reader α} (hq : Located q) (hq' : Located q') :
    Located (if p then q else q') := by
  split
  · exact hq
  · exact hq'

theorem look {g : Cursor → Reader α} (hg : ∀ c, LocatedFrom c (g c c)) : Located (get >>= g) := hg

end Located

/-! Steps that readers share. -/

theorem mem_tokens_of_token? {c : Cursor} {t : Token} (h : c.token? = some t) : t ∈ c.tokens :=
  List.mem_of_getElem? h

theorem previous_located : Located previous := by
  refine .look fun c => ?_
  cases c.tokens[c.place - 1]? with
  | none => exact ⟨rfl, fun refusal position he => by cases he⟩
  | some t => exact .ok rfl

theorem advance_located : Located advance := by
  refine .look fun c => ?_
  split
  · exact previous_located c
  · exact (previous_located (c.moveTo (c.place + 1))).later rfl

theorem accept_located (kind : Kind) : Located (accept kind) :=
  .look fun c => (advance_located.bind fun _ => .pure true).ite (.pure false) c

theorem expect_located (kind : Kind) (what : String) : Located (expect kind what) := by
  refine .look fun c => ?_
  split
  · exact advance_located c
  · cases htoken : c.token? with
    | none => exact .refuse (.atEnd rfl (by simp [atEnd, htoken]))
    | some t =>
      dsimp only
      split
      · next ht => exact .refuse (.atEnd rfl (by simp [atEnd, htoken, ht]))
      · next ht => exact .refuse (.wanted htoken ht)

theorem expectName_located (what : String) : Located (expectName what) :=
  (expect_located _ _).bind fun t => .pure t.text

theorem expectDelimiter_located (d : Delimiter) : Located (expectDelimiter d) :=
  (expect_located _ _).bind fun _ => .pure ()

theorem expectKeyword_located (k : Keyword) : Located (expectKeyword k) :=
  (expect_located _ _).bind fun _ => .pure ()

theorem acceptMeaning_located (meaning? : Token → Option β) : Located (acceptMeaning meaning?) := by
  refine .look fun c => ?_
  cases c.token?.bind meaning? with
  | none => exact .ok rfl
  | some b => exact advance_located.bind (fun _ => .pure (some b)) c

theorem skipLineEnds_located (clock : Nat) : Located (skipLineEnds clock) := by
  induction clock with
  | zero => exact .cutShort
  | succ clock ih => exact (accept_located _).bind fun _ => ih.ite (.pure ())

theorem pastLineEnds_located (clock place : Nat) : Located (pastLineEnds clock place) := by
  induction clock generalizing place with
  | zero => exact .cutShort
  | succ clock ih =>
    refine .look fun c => ?_
    cases c.tokens[place]? with
    | none => exact .ok rfl
    | some t => exact (ih (place + 1)).ite (.pure place) c

theorem takeElse_located (place : Nat) : Located (takeElse place) := by
  refine .look fun c => ?_
  cases c.tokens[place]? with
  | none => exact .ok rfl
  | some t =>
    dsimp only
    split
    · exact .ok rfl
    · exact .ok rfl

theorem acceptElse_located (clock : Nat) : Located (acceptElse clock) :=
  .look fun c => (pastLineEnds_located clock c.place).bind takeElse_located c

/-! Expressions. -/

structure ExpressionsLocated (clock : Nat) : Prop where
  expression : Located (expression clock)
  operation : ∀ ops, Located (operation clock ops)
  operationFrom : ∀ op? tighter left, Located (operationFrom clock op? tighter left)
  unary : Located (unary clock)
  primary : Located (primary clock)
  arguments : Located (arguments clock)
  argumentsFrom : Located (argumentsFrom clock)

section Expressions
variable {clock : Nat} (h : ExpressionsLocated clock)
include h

theorem expression_located : Located (expression (clock + 1)) := by
  refine (h.operation _).bind fun left => .look fun c => ?_
  split
  · next hequals =>
    obtain ⟨t, htoken, ht⟩ := (Option.any_eq_true _ _).1 hequals
    rw [bind_of_ok (advance_eq htoken (kind_ne_of_isOperator "=" t ht))]
    refine ((h.expression (c.moveTo (c.place + 1))).bind fun value c' hc' => ?_).later rfl
    have hmem : t ∈ c'.tokens := hc' ▸ (mem_tokens_of_token? htoken : t ∈ c.tokens)
    cases left with
    | path name => exact .ok rfl
    | _ => exact .refuse (.target hmem ht)
  · exact .ok rfl

theorem operation_located (ops : List (Token → Option BinaryOp)) :
    Located (operation (clock + 1) ops) := by
  cases ops with
  | nil => exact h.unary
  | cons op? tighter => exact (h.operation tighter).bind (h.operationFrom op? tighter)

theorem operationFrom_located (op? : Token → Option BinaryOp)
    (tighter : List (Token → Option BinaryOp)) (left : Node) :
    Located (operationFrom (clock + 1) op? tighter left) := by
  refine (acceptMeaning_located op?).bind fun found => ?_
  cases found with
  | none => exact .pure left
  | some op => exact (h.operation tighter).bind fun right => h.operationFrom op? tighter _

theorem unary_located : Located (unary (clock + 1)) := by
  refine (acceptMeaning_located Grammar.unaryOf).bind fun found => ?_
  cases found with
  | none => exact h.primary
  | some op => exact h.unary.bind fun operand => .pure _

theorem primary_located : Located (primary (clock + 1)) := by
  refine .look fun c => ?_
  have hgive (node : Node) : LocatedFrom c ((do let _ ← advance; return node : Reader Node) c) :=
    advance_located.bind (fun _ => .pure node) c
  cases htoken : c.token? with
  | none => exact .refuse (.atEnd rfl (by simp [atEnd, htoken]))
  | some t =>
    have hwanted (hkind : t.kind ≠ .endOfInput) :
        LocatedFrom c ((refuse (.wanted "expression" t) : Reader Node) c) :=
      .refuse (.wanted htoken hkind)
    dsimp only
    cases hkind : t.kind with
    | number =>
      refine (advance_located c).bind fun _ c' hc' => ?_
      cases hread : Decimal.read t.text.toList with
      | ok x => exact .ok rfl
      | error fault => exact .refuse (.number (hc' ▸ mem_tokens_of_token? htoken) hkind hread)
    | string => exact hgive _
    | keyword k =>
      cases k with
      | trueWord | falseWord | nullWord => exact hgive _
      | _ => exact hwanted (by simp [hkind])
    | identifier =>
      exact advance_located.bind (fun _ => (accept_located _).bind fun _ =>
        (h.arguments.bind fun args => .pure _).ite (.pure _)) c
    | delimiter d =>
      cases d with
      | leftParen =>
        exact advance_located.bind (fun _ => h.expression.bind fun e =>
          (expectDelimiter_located _).bind fun _ => .pure e) c
      | _ => exact hwanted (by simp [hkind])
    | endOfInput => exact .refuse (.atEnd rfl (by simp [atEnd, htoken, hkind]))
    | operator | endOfLine => exact hwanted (by simp [hkind])

theorem arguments_located : Located (arguments (clock + 1)) :=
  .look fun c => ((expectDelimiter_located _).bind fun _ => .pure []).ite
    (h.argumentsFrom.bind fun args => (expectDelimiter_located _).bind fun _ => .pure args) c

theorem argumentsFrom_located : Located (argumentsFrom (clock + 1)) :=
  h.expression.bind fun first => (accept_located _).bind fun _ =>
    (h.argumentsFrom.bind fun _ => .pure _).ite (.pure [first])

end Expressions

theorem expressionsLocated (clock : Nat) : ExpressionsLocated clock := by
  induction clock with
  | zero =>
    exact ⟨.cutShort, fun _ => .cutShort, fun _ _ _ => .cutShort, .cutShort, .cutShort, .cutShort,
      .cutShort⟩
  | succ clock ih =>
    exact ⟨expression_located ih, operation_located ih, operationFrom_located ih, unary_located ih,
      primary_located ih, arguments_located ih, argumentsFrom_located ih⟩

/-! Statements. -/

theorem condition_located (clock : Nat) : Located (condition clock) :=
  (expectDelimiter_located _).bind fun _ => (expressionsLocated clock).expression.bind fun e =>
    (expectDelimiter_located _).bind fun _ => .pure e

theorem parametersFrom_located (clock : Nat) : Located (parametersFrom clock) := by
  induction clock with
  | zero => exact .cutShort
  | succ clock ih =>
    exact (expectName_located _).bind fun first => (accept_located _).bind fun _ =>
      (ih.bind fun others => .pure _).ite (.pure [first])

theorem parameters_located (clock : Nat) : Located (parameters clock) :=
  .look fun c => ((expectDelimiter_located _).bind fun _ => .pure []).ite
    ((parametersFrom_located clock).bind fun names =>
      (expectDelimiter_located _).bind fun _ => .pure names) c

theorem returnWith_located (clock : Nat) : Located (returnWith clock) :=
  (expectKeyword_located _).bind fun _ => .look fun c =>
    (Located.pure _).ite ((expressionsLocated clock).expression.bind fun _ => .pure _) c

theorem declaration_located (clock : Nat) : Located (declaration clock) :=
  (expectKeyword_located _).bind fun _ => (expectName_located _).bind fun _ => .look fun c =>
    (advance_located.bind fun _ => (expressionsLocated clock).expression.bind fun _ =>
      .pure _).ite (.pure _) c

theorem initializer_located (clock : Nat) : Located (initializer clock) :=
  .look fun c => (declaration_located clock).ite (expressionsLocated clock).expression c

theorem triggerArguments_located (clock : Nat) : Located (triggerArguments clock) :=
  (accept_located _).bind fun _ => (expressionsLocated clock).arguments.ite (.pure [])

theorem trigger_located (clock : Nat) : Located (trigger clock) :=
  (expectKeyword_located _).bind fun _ => (expectName_located _).bind fun _ =>
    (triggerArguments_located clock).bind fun _ => (accept_located _).bind fun _ => .pure _

theorem expressionStatement_located (clock : Nat) : Located (expressionStatement clock) :=
  (expressionsLocated clock).expression.bind fun e => (accept_located _).bind fun _ => .pure e

structure StatementsLocated (clock : Nat) : Prop where
  statement : Located (statement clock)
  body : Located (body clock)
  statements : ∀ stop, Located (statements clock stop)
  block : Located (block clock)
  branch : Located (branch clock)
  whileLoop : Located (whileLoop clock)
  forLoop : Located (forLoop clock)
  functionDef : Located (functionDef clock)
  handler : Located (handler clock)

section Statements
variable {clock : Nat} (h : StatementsLocated clock)
include h

theorem statement_located : Located (statement (clock + 1)) := by
  refine .look fun c => ?_
  cases htoken : c.token? with
  | none => exact .refuse (.atEnd rfl (by simp [atEnd, htoken]))
  | some t =>
    dsimp only
    cases hkind : t.kind with
    | keyword k =>
      cases k with
      | ifWord => exact h.branch c
      | whileWord => exact h.whileLoop c
      | forWord => exact h.forLoop c
      | functionWord => exact h.functionDef c
      | returnWord => exact returnWith_located clock c
      | varWord => exact declaration_located clock c
      | onWord => exact h.handler c
      | triggerWord => exact trigger_located clock c
      | _ => exact expressionStatement_located clock c
    | delimiter d =>
      cases d with
      | leftBrace => exact h.block c
      | _ => exact expressionStatement_located clock c
    | endOfInput => exact .refuse (.atEnd rfl (by simp [atEnd, htoken, hkind]))
    | _ => exact expressionStatement_located clock c

theorem body_located : Located (body (clock + 1)) :=
  (skipLineEnds_located clock).bind fun _ => h.statement

theorem statements_located (stop : Cursor → Bool) : Located (statements (clock + 1) stop) :=
  (skipLineEnds_located clock).bind fun _ => .look fun c => (Located.pure []).ite
    (h.statement.bind fun _ => (h.statements stop).bind fun _ => .pure _) c

theorem block_located : Located (block (clock + 1)) :=
  (expectDelimiter_located _).bind fun _ => (h.statements _).bind fun _ =>
    (expectDelimiter_located _).bind fun _ => .pure _

theorem branch_located : Located (branch (clock + 1)) :=
  (expectKeyword_located _).bind fun _ => (condition_located clock).bind fun _ =>
    h.body.bind fun _ => (acceptElse_located clock).bind fun _ =>
      (h.body.bind fun _ => .pure _).ite (.pure _)

theorem whileLoop_located : Located (whileLoop (clock + 1)) :=
  (expectKeyword_located _).bind fun _ => (condition_located clock).bind fun _ =>
    h.body.bind fun _ => .pure _

theorem forLoop_located : Located (forLoop (clock + 1)) := by
  have hexpression := (expressionsLocated clock).expression
  exact (expectKeyword_located _).bind fun _ => (expectDelimiter_located _).bind fun _ =>
    (initializer_located clock).bind fun init => (expect_located _ _).bind fun _ =>
    hexpression.bind fun test => (expect_located _ _).bind fun _ => hexpression.bind fun step =>
    (expectDelimiter_located _).bind fun _ => h.body.bind fun inside => .pure _

theorem functionDef_located : Located (functionDef (clock + 1)) :=
  (expectKeyword_located _).bind fun _ => (expectName_located _).bind fun _ =>
    (expectDelimiter_located _).bind fun _ => (parameters_located clock).bind fun _ =>
      h.body.bind fun _ => .pure _

theorem handler_located : Located (handler (clock + 1)) :=
  (expectKeyword_located _).bind fun _ => (expectName_located _).bind fun _ =>
    h.body.bind fun _ => .pure _

end Statements

theorem statementsLocated (clock : Nat) : StatementsLocated clock := by
  induction clock with
  | zero =>
    exact ⟨.cutShort, .cutShort, fun _ => .cutShort, .cutShort, .cutShort, .cutShort, .cutShort,
      .cutShort, .cutShort⟩
  | succ clock ih =>
    exact ⟨statement_located ih, body_located ih, statements_located ih, block_located ih,
      branch_located ih, whileLoop_located ih, forLoop_located ih, functionDef_located ih,
      handler_located ih⟩

theorem script_located (clock : Nat) : Located (script clock) :=
  ((statementsLocated clock).statements _).bind fun _ => .pure _

theorem exists_refusedAt_of_readScript {ts : List Token} {refusal : Refusal}
    {position : Option Position} (h : Grammar.readScript ts = .error (refusal, position)) :
    ∃ c, Stops (fun clock => script clock (start ts)) (.error (.refused refusal position)) c ∧
      Moved 0 (start ts) c ∧ c.RefusedAt refusal ∧ c.positionOf refusal = position := by
  have hagrees := script_tracks (ts.length + 1) _ ts (within_start ts) rfl (length_start_lt rfl)
  rw [readScript_eq_placed] at h
  revert h hagrees
  generalize (do
    let inside ← Grammar.sequence Grammar.atEnd (Grammar.statement (ts.length + 1)) (ts.length + 1)
    return .block inside : Grammar.Parser Node) ts = r
  intro h hagrees
  cases hagrees with
  | gives => cases h
  | @refuses _ c stops moved =>
    cases h
    obtain ⟨enough, hstops⟩ := stops
    have hstop := hstops enough (Nat.le_refl _)
    have hlocated := script_located enough (start ts)
    dsimp only at hstop
    rw [hstop] at hlocated
    refine ⟨c, ⟨enough, hstops⟩, moved, hlocated.2 _ _ rfl, ?_⟩
    rw [positionOf, moved.tokens_eq]
    rfl

/-! The token that a refusal is placed at. -/

/-- The refusal is placed at this token: the equals sign of an assignment to something that is no name,
and otherwise the token under the cursor, which ends the input exactly for the refusals that say so. -/
structure Blames (c : Cursor) (refusal : Refusal) (t : Token) : Prop where
  mem : t ∈ c.tokens
  position_eq : c.positionOf refusal = some t.position
  readable : ∀ literal, refusal ≠ .invalidNumber literal
  target : ∀ equals, refusal = .invalidTarget equals → t = equals ∧ isOperator "=" t = true
  token_eq : (∀ equals, refusal ≠ .invalidTarget equals) → c.token? = some t
  atEnd_iff : t.kind = .endOfInput ↔
    refusal = .statementAtEnd ∨ refusal = .expressionAtEnd ∨ ∃ what, refusal = .wantedAtEnd what

section Closed
variable {c : Cursor} {us : List Token} {last : Token} (htokens : c.tokens = us ++ [last])
  (hlast : last.kind = .endOfInput) (hus : ∀ t ∈ us, t.kind ≠ .endOfInput) (hc : c.Within)
include htokens hlast hus hc

theorem token?_of_atEnd (hend : c.atEnd = true) : c.token? = some last := by
  have hlimit : c.limit = us.length := by
    have hfront : front (us ++ [last]) = us ++ front [last] :=
      List.takeWhile_append_of_pos fun t ht => by simpa using hus t ht
    rw [limit, htokens, hfront]
    simp [front, hlast]
  have hplace := hc.place_le
  rw [hlimit] at hplace
  rcases Nat.lt_or_eq_of_le hplace with hlt | heq
  · have htoken : c.token? = some (us.get ⟨c.place, hlt⟩) := by
      rw [token?, htokens, List.getElem?_append_left hlt]
      exact List.getElem?_eq_getElem hlt
    rw [atEnd_of_token? htoken (hus _ (List.get_mem us _))] at hend
    cases hend
  · rw [token?, htokens, heq]
    exact List.getElem?_concat_length

theorem RefusedAt.exists_blames {refusal : Refusal} (h : c.RefusedAt refusal)
    (hread : ∀ t ∈ c.tokens, t.kind = .number → ∃ x, Decimal.read t.text.toList = .ok x) :
    ∃ t, c.Blames refusal t := by
  cases h with
  | @wanted what found htoken hkind =>
    exact ⟨found, mem_tokens_of_token? htoken, rfl, by simp, by simp, fun _ => htoken, by simp [hkind]⟩
  | atEnd hnone hend =>
    have htoken := token?_of_atEnd htokens hlast hus hc hend
    have hposition : c.positionOf refusal = some last.position := by
      rw [positionOf, hnone, htokens, List.getLast?_concat]
      rfl
    have hends := Refusal.token?_eq_none_iff.1 hnone
    refine ⟨last, mem_tokens_of_token? htoken, hposition, ?_, ?_, fun _ => htoken,
      iff_of_true hlast hends⟩
    · rintro literal rfl
      cases hnone
    · rintro equals rfl
      cases hnone
  | @target equals hmem hequals =>
    have hkind := kind_ne_of_isOperator "=" equals hequals
    refine ⟨equals, hmem, rfl, by simp, ?_, fun h => absurd rfl (h equals), by simp [hkind]⟩
    rintro _ ⟨⟩
    exact ⟨rfl, hequals⟩
  | @number literal fault hmem hkind hfault =>
    obtain ⟨x, hx⟩ := hread literal hmem hkind
    rw [hfault] at hx
    cases hx

end Closed

end Cursor

namespace Token

theorem Reads.spells_number {rest l text : List Char} (h : Reads rest l .number text) :
    Form.number.Spells text := by
  cases h with
  | @plain form _ _ hlongest hkind =>
    cases form with
    | number => exact hlongest.1
    | _ => exact hkind.elim

theorem Form.exists_read_of_spells {cs : List Char} (h : Form.number.Spells cs) :
    ∃ x, Decimal.read cs = .ok x := by
  obtain ⟨whole, fraction, hne, hdigits, hcs⟩ := h
  have hwhole : ∀ c ∈ whole, c.isDigit = true := fun c hc => hdigits c (List.mem_append_left _ hc)
  have hhead (rest : List Char) := Wording.head_any_isDigit hne hwhole rest
  rcases hcs with rfl | rfl
  · exact ⟨_, Wording.read_of_readDigits (List.append_nil cs ▸ hhead [])
      (Wording.readDigits_of_digits hne hwhole)⟩
  · exact ⟨_, Wording.read_of_readDigits (hhead _) (Wording.readDigits_of_point hne hdigits)⟩

theorem exists_concat_of_tokens {s : String} {ts : List Token} (h : Source.tokens s = .ok ts) :
    ∃ us last, ts = us ++ [last] ∧ last.kind = .endOfInput ∧ (∀ t ∈ us, t.kind ≠ .endOfInput) ∧
      ∀ t ∈ ts, t.kind = .number → ∃ x, Decimal.read t.text.toList = .ok x := by
  obtain ⟨xs, rest, hsplits, rfl | ⟨refusal, hstuck⟩⟩ := exists_splits s.toList
  · rw [hsplits.tokens_eq_ok] at h
    cases h
    have hpiece {t : Token} (ht : t ∈ Piece.tokens [] xs) :
        ∃ rest source text, Reads rest source t.kind text ∧ t.text = String.ofList text := by
      have hmem := List.mem_map_of_mem (f := content) ht
      rw [Piece.map_content_tokens] at hmem
      obtain ⟨x, hx, hcontent⟩ := List.mem_map.1 hmem
      obtain ⟨hkind, htext⟩ := Prod.mk.inj hcontent
      obtain ⟨rest, hreads⟩ := hsplits.forall_mem x hx
      exact ⟨rest, x.source, x.text, hkind ▸ hreads, htext.symm⟩
    refine ⟨_, _, rfl, rfl, fun t ht => ?_, fun t ht hkind => ?_⟩
    · obtain ⟨_, _, _, hreads, -⟩ := hpiece ht
      exact hreads.kind_ne_endOfInput
    · rcases List.mem_append.1 ht with ht | ht
      · obtain ⟨_, _, text, hreads, htext⟩ := hpiece ht
        rw [htext, String.toList_ofList]
        exact Form.exists_read_of_spells (hkind ▸ hreads).spells_number
      · rw [List.mem_singleton.1 ht] at hkind
        cases hkind
  · obtain ⟨before, -, herror⟩ := hsplits.tokens_eq_error hstuck
    rw [h] at herror
    cases herror

end Token

namespace Source

theorem parse_of_tokens {book : Phrasebook} {text : String} {ts : List Token}
    (h : tokens (book.process text) = .ok ts) : parse book text = script ts := by
  unfold parse
  rw [h]
  rfl

/-- A source that has tokens is refused at one of them. The cursor that reads the script stops there
with the same refusal: at the token under it, or past the equals sign of an assignment to something that
is no name. Every number among the tokens can be read, so that none is refused. -/
theorem parse_refused_at_token {book : Phrasebook} {text : String} {ts : List Token}
    (hts : tokens (book.process text) = .ok ts) :
    (∀ t ∈ ts, t.kind = .number → ∃ x, Decimal.read t.text.toList = .ok x) ∧
    ∀ fault, parse book text = .error fault → ∃ refusal t c,
      fault = .grammar refusal (some t.position) ∧ t ∈ ts ∧
      Cursor.Stops (fun clock => Cursor.script clock (.start ts))
        (.error (.refused refusal (some t.position))) c ∧
      c.tokens = ts ∧ c.Blames refusal t := by
  obtain ⟨us, last, rfl, hlast, hus, hread⟩ := Token.exists_concat_of_tokens hts
  refine ⟨hread, fun fault hfault => ?_⟩
  rw [parse_of_tokens hts] at hfault
  cases hscript : Grammar.readScript (us ++ [last]) with
  | ok node =>
    rw [script, hscript] at hfault
    cases hfault
  | error e =>
    obtain ⟨refusal, position⟩ := e
    rw [script, hscript] at hfault
    cases hfault
    obtain ⟨c, hstops, hmoved, hrefused, rfl⟩ := Cursor.exists_refusedAt_of_readScript hscript
    have htokens : c.tokens = us ++ [last] := hmoved.tokens_eq
    obtain ⟨t, hblames⟩ :=
      hrefused.exists_blames htokens hlast hus hmoved.within (htokens ▸ hread)
    rw [hblames.position_eq] at hstops ⊢
    exact ⟨refusal, t, c, rfl, htokens ▸ hblames.mem, hstops, htokens, hblames⟩

theorem parse_refused_at_token_equals :
    let equals : Token := ⟨.operator, "=", ⟨1, 8⟩⟩
    let ts : List Token := [⟨.number, "1.", ⟨1, 1⟩⟩, ⟨.operator, "+", ⟨1, 4⟩⟩,
      ⟨.identifier, "x", ⟨1, 6⟩⟩, equals, ⟨.string, "a", ⟨1, 10⟩⟩, ⟨.endOfInput, "", ⟨1, 13⟩⟩]
    tokens (Phrasebook.english.process "1. plus x = 'a'") = .ok ts ∧
    (∃ x, Decimal.read "1.".toList = .ok x) ∧
    parse .english "1. plus x = 'a'" = .error (.grammar (.invalidTarget equals) (some ⟨1, 8⟩)) ∧
    ∃ c, Cursor.Stops (fun clock => Cursor.script clock (.start ts))
        (.error (.refused (.invalidTarget equals) (some ⟨1, 8⟩))) c ∧
      c.tokens = ts ∧ c.Blames (.invalidTarget equals) equals := by
  intro equals ts
  have hwords : Phrasebook.english.process "1. plus x = 'a'" = "1. + x = 'a'" := by decide +kernel
  have hscan : Token.scan "1. + x = 'a'" = .ok ts := by decide +kernel
  have hts : tokens (Phrasebook.english.process "1. plus x = 'a'") = .ok ts := by
    rw [hwords, tokens, hscan]
  have hread : Grammar.readScript ts = .error (.invalidTarget equals, some ⟨1, 8⟩) := rfl
  have hparse : parse .english "1. plus x = 'a'" =
      .error (.grammar (.invalidTarget equals) (some ⟨1, 8⟩)) := by
    rw [parse_of_tokens hts, script, hread]
    rfl
  obtain ⟨hnumbers, hrefused⟩ := parse_refused_at_token hts
  obtain ⟨refusal, t, c, hfault, -, hstops, htokens, hblames⟩ := hrefused _ hparse
  obtain ⟨rfl, hposition⟩ := Fault.grammar.inj hfault
  obtain ⟨rfl, -⟩ := hblames.target equals rfl
  exact ⟨hts, hnumbers _ List.mem_cons_self rfl, hparse, c, hstops, htokens, hblames⟩

end Source
end Parlance
