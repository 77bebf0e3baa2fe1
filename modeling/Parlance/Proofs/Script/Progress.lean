import Parlance.Proofs.Script.Tracking

/-! Every reader of the grammar stops. A reader that calls itself has taken a token since it was called
last, so the number of tokens ahead bounds how often it can happen; the counts that the readers of
lists are given are never used up. -/

namespace Parlance.Cursor
open Token (Kind)
open Grammar (Parser Refusal front isOperator levels unaryOf)
variable {α β : Type} {n d : Nat}

/-! Lists of items. -/

section Lists
variable {item : Parser α} {item' : Nat → Reader α} {many : Nat → Reader (List α)}

theorem separated_tracks (h : Tracks n 1 item item')
    (hmany : ∀ clock, many (clock + 1) = do
      let first ← item' clock
      if ← accept (.delimiter .comma) then
        let others ← many clock
        return first :: others
      else return [first]) {k m : Nat} (hn : m ≤ n) (hk : m ≤ k + 1) :
    Tracks m 1 (Grammar.separated item k) many := by
  induction k generalizing m with
  | zero =>
    cases m with
    | zero => exact .nothing
    | succ m =>
      -- there is no token after the item
      obtain rfl : m = 0 := by omega
      refine .succ ?_
      simp only [hmany]
      exact (h.fewer hn).after fun _ => .nothing
  | succ k ih =>
    cases m with
    | zero => exact .nothing
    | succ m =>
      refine .succ ?_
      simp only [hmany]
      refine (h.fewer hn).after fun first => (accept_tracks (by simp)).andThen fun comma => ?_
      exact ((ih (by omega) (by omega)).any.bind fun others => .pure _).ite (.pure _)

theorem listed_tracks (h : Tracks n 1 item item')
    (hmany : ∀ clock, many (clock + 1) = do
      let first ← item' clock
      if ← accept (.delimiter .comma) then
        let others ← many clock
        return first :: others
      else return [first]) :
    Tracks n 1 (Grammar.listed item) (fun clock => do
      if (← get).nextIs (.delimiter .rightParen) then
        expectDelimiter .rightParen
        return []
      else
        let items ← many clock
        expectDelimiter .rightParen
        return items) := by
  refine Tracks.test (fun c us hc hs => hs.nextIs_eq hc (by simp)) ?_ ?_
  · exact (expectDelimiter_tracks _).bind fun _ => .pure []
  · intro c us hc hs hlt
    -- the list gives the count, and it may be longer than what lies ahead
    have hlength := hs.length_le
    have hitems : Tracks (min n (us.length + 1)) 1 (do
        let items ← Grammar.separated item us.length
        Grammar.expectDelimiter .rightParen
        return items) (fun clock => do
        let items ← many clock
        expectDelimiter .rightParen
        return items) :=
      (separated_tracks h hmany (Nat.min_le_left _ _) (Nat.min_le_right _ _)).bind fun items =>
        (expectDelimiter_tracks _).any.bind fun _ => .pure items
    exact hitems c us hc hs (by omega)

end Lists

/-! Expressions. -/

section Expressions
variable {operand inner : Parser Node}

theorem kind_ne_of_mem_levels {op? : Token → Option BinaryOp} (h : op? ∈ levels) (t : Token)
    (op : BinaryOp) (ht : op? t = some op) : t.kind ≠ .endOfInput := by
  intro hk
  simp only [levels, List.mem_cons, List.not_mem_nil, or_false] at h
  rcases h with rfl | rfl | rfl | rfl | rfl | rfl <;>
    simp [Grammar.connective, Grammar.symbolOf, isOperator, hk] at ht

theorem kind_ne_of_unaryOf (t : Token) (op : UnaryOp) (ht : unaryOf t = some op) :
    t.kind ≠ .endOfInput := by
  intro hk
  simp [unaryOf, isOperator, hk] at ht

theorem chainFrom_of_some {op? : Token → Option BinaryOp} {t : Token} {op : BinaryOp}
    (ht : op? t = some op) (k : Nat) (left : Node) (us : List Token) :
    Grammar.chainFrom op? operand (k + 1) left (t :: us) = (do
      let right ← operand
      Grammar.chainFrom op? operand k (.binary op left right)) us := by
  simp only [Grammar.chainFrom, ht]
  change _ = Except.bind (operand us) _
  cases operand us <;> rfl

theorem chainFrom_of_none {op? : Token → Option BinaryOp} {us : List Token}
    (h : ∀ t ∈ us.head?, op? t = none) (k : Nat) (left : Node) :
    Grammar.chainFrom op? operand (k + 1) left us = .ok (left, us) := by
  cases us with
  | nil => rfl
  | cons t us => simp only [Grammar.chainFrom, h t rfl]

theorem operationFrom_tracks {op? : Token → Option BinaryOp}
    {tighter : List (Token → Option BinaryOp)}
    (hop : ∀ t op, op? t = some op → t.kind ≠ .endOfInput)
    (h : Tracks n 1 operand (operation · tighter)) {k m : Nat} (hn : m ≤ n) (hk : m ≤ k + 1)
    (left : Node) : Tracks m 0 (Grammar.chainFrom op? operand k left)
      (operationFrom · op? tighter left) := by
  induction k generalizing m left with
  | zero =>
    intro c us hc hs hlt
    refine .succ ?_
    rcases acceptMeaning_cases hop hs hc with ⟨t, us', op, rfl, ht, hq, hmoved, hs'⟩ | ⟨-, hq⟩
    · have hlength := hmoved.length_ahead_le
      omega
    · simp only [operationFrom, bind_of_ok hq]
      exact .stay hc hs rfl
  | succ k ih =>
    intro c us hc hs hlt
    refine .succ ?_
    rcases acceptMeaning_cases hop hs hc with ⟨t, us', op, rfl, ht, hq, hmoved, hs'⟩ | ⟨hnone, hq⟩
    · simp only [operationFrom, bind_of_ok hq]
      rw [chainFrom_of_some ht]
      have hlength := hmoved.length_ahead_le
      have hright := (h.fewer (show m - 1 ≤ n by omega)).any.andThen fun right =>
        ih (by omega) (by omega) (.binary op left right)
      exact (hright _ us' hmoved.within hs' (by omega)).later (d := 0)
        (hmoved.weaken (Nat.zero_le 1))
    · simp only [operationFrom, bind_of_ok hq]
      rw [chainFrom_of_none hnone]
      exact .stay hc hs rfl

theorem operation_tracks (h : Tracks n 1 operand unary) {ops : List (Token → Option BinaryOp)}
    (hops : ∀ op? ∈ ops, op? ∈ levels) :
    Tracks n 1 (ops.foldr Grammar.chain operand) (operation · ops) := by
  induction ops with
  | nil =>
    refine .succ ?_
    simp only [operation]
    exact h
  | cons op? tighter ih =>
    have hoperand := ih fun op?' hmem => hops op?' (List.mem_cons_of_mem _ hmem)
    refine .succ ?_
    simp only [operation]
    refine hoperand.bind fun left c us hc hs hlt => ?_
    have hlength := hs.length_le
    exact operationFrom_tracks (kind_ne_of_mem_levels (hops op? List.mem_cons_self)) hoperand
      (Nat.min_le_left n (us.length + 1)) (Nat.min_le_right _ _) left c us hc hs (by omega)

theorem unary_of_some {t : Token} {op : UnaryOp} (ht : unaryOf t = some op) (us : List Token) :
    Grammar.unary operand (t :: us) =
      (do return .unary op (← Grammar.unary operand) : Parser Node) us := by
  simp only [Grammar.unary, ht]
  change _ = Except.bind (Grammar.unary operand us) _
  cases Grammar.unary operand us <;> rfl

theorem unary_of_none {us : List Token} (h : ∀ t ∈ us.head?, unaryOf t = none) :
    Grammar.unary operand us = operand us := by
  cases us with
  | nil => rfl
  | cons t us => simp only [Grammar.unary, h t rfl]

theorem unary_tracks (h : Tracks n 1 operand primary) :
    Tracks n 1 (Grammar.unary operand) unary := by
  -- each operator takes a token
  induction n with
  | zero => exact .nothing
  | succ n ih =>
    intro c us hc hs hlt
    refine .succ ?_
    rcases acceptMeaning_cases kind_ne_of_unaryOf hs hc with
      ⟨t, us', op, rfl, ht, hq, hmoved, hs'⟩ | ⟨hnone, hq⟩
    · simp only [unary, bind_of_ok hq]
      rw [unary_of_some ht]
      have hlength := hmoved.length_ahead_le
      have hoperand := (ih (h.fewer (Nat.le_succ n))).any.bind fun e => .pure (Node.unary op e)
      exact (hoperand _ us' hmoved.within hs' (by omega)).later hmoved
    · simp only [unary, bind_of_ok hq]
      rw [unary_of_none hnone]
      exact h c us hc hs hlt

theorem arguments_tracks (h : Tracks n 1 inner expression) :
    Tracks n 1 (Grammar.listed inner) arguments := by
  refine .succ ?_
  simp only [arguments]
  exact listed_tracks h argumentsFrom.eq_2

theorem named_tracks (h : Tracks n 1 inner expression) (name : String) :
    Tracks n 0 (fun ts => if Grammar.nextIs (.delimiter .leftParen) ts then
        (do return .call name (← Grammar.listed inner) : Parser Node) ts.tail
      else .ok (.path name, ts)) (fun clock => do
      if ← accept (.delimiter .leftParen) then
        let args ← arguments clock
        return .call name args
      else return .path name) := by
  have hcall : Tracks n 0 (do
      if ← Grammar.accept (.delimiter .leftParen) then
        let args ← Grammar.listed inner
        return .call name args
      else return .path name : Parser Node) (fun clock => do
      if ← accept (.delimiter .leftParen) then
        let args ← arguments clock
        return .call name args
      else return .path name) :=
    (accept_tracks (by simp)).andThen fun _ =>
      ((arguments_tracks h).any.bind fun _ => .pure _).ite (.pure _)
  intro c us hc hs hlt
  have hcall := hcall c us hc hs hlt
  dsimp only
  cases hparen : Grammar.nextIs (.delimiter .leftParen) us with
  | true =>
    have haccept : Grammar.accept (.delimiter .leftParen) us = .ok (true, us.tail) := by
      simp [Grammar.accept, hparen]
    rw [Grammar.bind_apply haccept] at hcall
    exact hcall
  | false =>
    have haccept : Grammar.accept (.delimiter .leftParen) us = .ok (false, us) := by
      simp [Grammar.accept, hparen]
    rw [Grammar.bind_apply haccept] at hcall
    exact hcall

theorem primary_tracks (h : Tracks n 1 inner expression) :
    Tracks (n + 1) 1 (Grammar.primary inner) primary := by
  intro c us hc hs hlt
  refine .succ ?_
  simp only [primary, get_bind]
  rcases hs.cases hc with ⟨t, us', rfl, hne, ht, hmoved, hs'⟩ | ⟨hend, hend'⟩
  · have hadvance := advance_eq ht hne
    have hlength := hmoved.length_ahead_le
    have hgive (node : Node) : Agrees 1 c (fun _ => (do let _ ← advance; return node : Reader Node) c)
        (.ok (node, us')) := .gives ((Stops.always hadvance).bind (.always rfl)) hmoved hs'
    simp only [ht, Grammar.primary]
    cases hkind : t.kind with
    | number =>
      simp only [bind_of_ok hadvance]
      cases Decimal.read t.text.toList with
      | ok x => exact .gives (.always rfl) hmoved hs'
      | error fault => exact (Agrees.refuse hmoved.within _).later hmoved
    | string => exact hgive _
    | keyword k =>
      cases k with
      | trueWord | falseWord | nullWord => exact hgive _
      | _ => exact .refuse hc _
    | identifier =>
      simp only [bind_of_ok hadvance]
      exact (named_tracks h t.text _ us' hmoved.within hs' (by omega)).later hmoved
    | delimiter d =>
      cases d with
      | leftParen =>
        simp only [bind_of_ok hadvance]
        have hgroup := h.any.bind fun e =>
          (expectDelimiter_tracks .rightParen).any.bind fun _ => .pure e
        exact (hgroup _ us' hmoved.within hs' (by omega)).later hmoved
      | _ => exact .refuse hc _
    | endOfInput => exact absurd hkind hne
    | operator | endOfLine => exact .refuse hc _
  · have hlist : Grammar.primary inner us = .error .expressionAtEnd := by
      rcases Grammar.atEnd_cases hend with rfl | ⟨t, us, rfl, ht⟩
      · rfl
      · simp [Grammar.primary, ht]
    rw [hlist]
    rcases atEnd_cases hend' with htoken | ⟨t, htoken, ht⟩
    · simp only [htoken]
      exact .refuse hc _
    · simp only [htoken, ht]
      exact .refuse hc _

theorem kind_ne_of_isOperator (text : String) (t : Token) (ht : isOperator text t = true) :
    t.kind ≠ .endOfInput := by
  intro hk
  simp [isOperator, hk] at ht

def assigned (inner : Parser Node) (left : Node) : Parser Node
  | [] => .ok (left, [])
  | t :: rest =>
    if isOperator "=" t then
      (do
        let value ← inner
        match left with
        | .path name => return .assign name value
        | _ => throw (.invalidTarget t) : Parser Node) rest
    else .ok (left, t :: rest)

theorem assignment_eq : Grammar.assignment inner = (do
    let left ← Grammar.operation inner
    assigned inner left) := by
  funext us
  unfold Grammar.assignment
  change _ = Except.bind (Grammar.operation inner us) fun r => assigned inner r.1 r.2
  cases Grammar.operation inner us with
  | error refusal => rfl
  | ok r =>
    obtain ⟨left, _ | ⟨t, rest⟩⟩ := r
    · rfl
    · dsimp only
      change _ = ite _ (Except.bind (inner rest) _) _
      cases inner rest with
      | error refusal => rfl
      | ok r => cases left <;> rfl

theorem assigned_tracks (h : Tracks n 1 inner expression) (left : Node) :
    Tracks n 0 (assigned inner left) (fun clock => do
      if (← get).token?.any (isOperator "=") then
        let equals ← advance
        let value ← expression clock
        match left with
        | .path name => return .assign name value
        | _ => refuse (.invalidTarget equals)
      else return left) := by
  intro c us hc hs hlt
  simp only [get_bind]
  rcases hs.test_cases (kind_ne_of_isOperator "=") hc with
    ⟨t, us', rfl, hop, htoken, hadvance, hmoved, hs'⟩ | ⟨hnone, htoken⟩
  · have hlength := hmoved.length_ahead_le
    have hvalue := h.any.bind fun value => show Tracks n 0
        (match left with
          | .path name => return .assign name value
          | _ => throw (.invalidTarget t) : Parser Node)
        (fun _ => match left with
          | .path name => return .assign name value
          | _ => refuse (.invalidTarget t)) by
      cases left with
      | path name => exact .pure _
      | _ => exact fun _ _ hc _ _ => .refuse hc _
    simp only [assigned, htoken, Option.any_some, hop, if_true, bind_of_ok hadvance]
    exact (hvalue _ us' hmoved.within hs' (by omega)).later (d := 0) (hmoved.weaken (Nat.zero_le 1))
  · have hlist : assigned inner left us = .ok (left, us) := by
      cases us with
      | nil => rfl
      | cons t us => simp [assigned, hnone t rfl]
    simp only [htoken, Bool.false_eq_true, if_false, hlist]
    exact .stay hc hs rfl

theorem assignment_tracks (h : Tracks n 1 inner expression) :
    Tracks (n + 1) 1 (Grammar.assignment inner) expression := by
  have hleft := operation_tracks (unary_tracks (primary_tracks h)) (fun _ hop => hop)
  refine .succ ?_
  simp only [expression]
  rw [assignment_eq]
  exact hleft.after (assigned_tracks h)

theorem expression_tracks (n : Nat) : Tracks n 1 (Grammar.expression n) expression := by
  induction n with
  | zero => exact .nothing
  | succ n ih => exact assignment_tracks ih

end Expressions

/-! Statements. The grammar's readers of statements begin after the word that tells them apart. -/

section Statements
variable {expr inner : Parser Node}

def afterWord (word : Keyword) (p : Parser α) : Parser α := do
  let _ ← Grammar.expect (.keyword word) word.spelling
  p

theorem afterWord_cons {word : Keyword} {p : Parser α} {t : Token} (h : t.kind = .keyword word)
    (us : List Token) : afterWord word p (t :: us) = p us :=
  Grammar.bind_apply (Grammar.expect_eq_ok.2 ⟨rfl, h⟩)

theorem afterWord_tracks {p : Parser α} {q : Nat → Reader α} (word : Keyword)
    (h : Tracks n 0 p q) :
    Tracks (n + 1) 1 (afterWord word p) (fun clock => do expectKeyword word; q clock) := by
  unfold expectKeyword
  simp only [bind_assoc, pure_bind]
  exact (expect_tracks (by simp) _).after fun _ => h

variable (he : Tracks n 1 expr expression) (hi : Tracks n 1 inner statement)

include he in
theorem condition_tracks : Tracks n 1 (Grammar.condition expr) condition :=
  (expectDelimiter_tracks _).bind fun _ => he.any.bind fun e =>
    (expectDelimiter_tracks _).any.bind fun _ => .pure e

include hi in
theorem body_tracks : Tracks n 1 (Grammar.body inner) body := by
  refine .succ ?_
  simp only [body]
  exact skipLineEnds_tracks.andThen fun _ => hi

include hi in
theorem statements_tracks {stop : List Token → Bool} {stop' : Cursor → Bool}
    (hstop : ∀ c us, c.Within → Shows c us → stop us = stop' c) {k m : Nat} (hn : m ≤ n)
    (hk : m ≤ k) : Tracks m 0 (Grammar.sequence stop inner k) (statements · stop') := by
  induction k generalizing m with
  | zero => exact Tracks.nothing.fewer hk
  | succ k ih =>
    cases m with
    | zero => exact .nothing
    | succ m =>
      refine .succ ?_
      simp only [statements]
      refine skipLineEnds_tracks.andThen fun _ => Tracks.test hstop (.pure []) ?_
      exact ((hi.fewer hn).after fun first =>
        (ih (by omega) (by omega)).bind fun others => .pure _).any

theorem blockEnds_eq {c : Cursor} {us : List Token} (hc : c.Within) (hs : Shows c us) :
    Grammar.blockEnds us = c.blockEnds := by
  unfold Grammar.blockEnds blockEnds
  rw [hs.nextIs_eq hc (by simp), hs.atEnd_eq hc]

include hi in
theorem block_tracks : Tracks (n + 1) 1 (do
    let _ ← Grammar.expectDelimiter .leftBrace
    Grammar.block inner) block := by
  refine .succ ?_
  simp only [block]
  refine (expectDelimiter_tracks _).after fun _ c us hc hs hlt => ?_
  have hlength := hs.length_le
  have hinside : Tracks (min n (us.length + 1)) 0 (do
      let inside ← Grammar.sequence Grammar.blockEnds inner (us.length + 1)
      Grammar.expectDelimiter .rightBrace
      return Node.block inside) (fun clock => do
      let inside ← statements clock blockEnds
      expectDelimiter .rightBrace
      return Node.block inside) :=
    (statements_tracks hi (fun _ _ hc hs => blockEnds_eq hc hs) (Nat.min_le_left _ _)
      (Nat.min_le_right _ _)).bind fun inside => (expectDelimiter_tracks _).any.bind fun _ => .pure _
  exact hinside c us hc hs (by omega)

include he hi in
theorem branch_tracks : Tracks (n + 1) 1 (afterWord .ifWord (Grammar.branch expr inner)) branch := by
  refine .succ ?_
  simp only [branch]
  refine afterWord_tracks _ ((condition_tracks he).any.bind fun test =>
    (body_tracks hi).any.bind fun yes => acceptElse_tracks.bind fun _ => ?_)
  exact ((body_tracks hi).any.bind fun no => .pure _).ite (.pure _)

include he hi in
theorem whileLoop_tracks :
    Tracks (n + 1) 1 (afterWord .whileWord (Grammar.whileLoop expr inner)) whileLoop := by
  refine .succ ?_
  simp only [whileLoop]
  exact afterWord_tracks _ ((condition_tracks he).any.bind fun test =>
    (body_tracks hi).any.bind fun inside => .pure _)

include he in
theorem declaration_tracks :
    Tracks (n + 1) 1 (afterWord .varWord (Grammar.declaration expr)) declaration := by
  refine afterWord_tracks _ ((expectName_tracks _).any.bind fun name c us hc hs hlt => ?_)
  have hget : (get : Parser (List Token)) us = .ok (us, us) := rfl
  simp only [get_bind]
  rw [Grammar.bind_apply hget]
  rcases hs.test_cases (kind_ne_of_isOperator "=") hc with
    ⟨t, us', rfl, hop, htoken, hadvance, hmoved, hs'⟩ | ⟨hnone, htoken⟩
  · have hlength := hmoved.length_ahead_le
    have hvalue := he.any.bind fun value => .pure (Node.assign name value)
    simp only [htoken, Option.any_some, hop, if_true, bind_of_ok hadvance]
    exact (hvalue _ us' hmoved.within hs' (by omega)).later (d := 0) (hmoved.weaken (Nat.zero_le 1))
  · simp only [htoken, Bool.false_eq_true, if_false]
    cases us with
    | nil => exact .stay hc hs rfl
    | cons t us =>
      simp only [hnone t rfl]
      exact .stay hc hs rfl

include he in
theorem initializer_tracks : Tracks n 1 (do
    if ← Grammar.accept (.keyword .varWord) then Grammar.declaration expr else expr)
    initializer := by
  have heq : (do if ← Grammar.accept (.keyword .varWord) then Grammar.declaration expr else expr) =
      (do if Grammar.nextIs (.keyword .varWord) (← get) then
            afterWord .varWord (Grammar.declaration expr)
          else expr : Parser Node) := by
    funext us
    have hget : (get : Parser (List Token)) us = .ok (us, us) := rfl
    rw [Grammar.bind_apply hget]
    cases hvar : Grammar.nextIs (.keyword .varWord) us with
    | false =>
      have haccept : Grammar.accept (.keyword .varWord) us = .ok (false, us) := by
        simp [Grammar.accept, hvar]
      rw [Grammar.bind_apply haccept]
      rfl
    | true =>
      obtain ⟨t, us, rfl, hk⟩ := Grammar.nextIs_iff.1 hvar
      have haccept : Grammar.accept (.keyword .varWord) (t :: us) = .ok (true, us) := by
        simp [Grammar.accept, hvar]
      rw [Grammar.bind_apply haccept]
      exact (afterWord_cons hk us).symm
  rw [heq]
  exact Tracks.test (fun c us hc hs => hs.nextIs_eq hc (by simp))
    ((declaration_tracks he).fewer (Nat.le_succ n)) he

theorem forLoop_eq : Grammar.forLoop expr inner = (do
    Grammar.expectDelimiter .leftParen
    let init ← (do if ← Grammar.accept (.keyword .varWord) then Grammar.declaration expr else expr)
    let _ ← Grammar.expect .endOfLine "`;`"
    let test ← expr
    let _ ← Grammar.expect .endOfLine "`;`"
    let step ← expr
    Grammar.expectDelimiter .rightParen
    let inside ← Grammar.body inner
    return .forLoop init test step inside) := by
  unfold Grammar.forLoop
  simp only [bind_assoc]
  congr 1
  funext _
  congr 1
  funext isVar
  cases isVar <;> rfl

include he hi in
theorem forLoop_tracks :
    Tracks (n + 1) 1 (afterWord .forWord (Grammar.forLoop expr inner)) forLoop := by
  refine .succ ?_
  simp only [forLoop]
  rw [forLoop_eq]
  exact afterWord_tracks _ ((expectDelimiter_tracks _).any.bind fun _ =>
    (initializer_tracks he).any.bind fun init =>
    (expect_tracks (by simp) _).any.bind fun _ => he.any.bind fun test =>
    (expect_tracks (by simp) _).any.bind fun _ => he.any.bind fun step =>
    (expectDelimiter_tracks _).any.bind fun _ => (body_tracks hi).any.bind fun inside => .pure _)

theorem parameters_tracks :
    Tracks n 1 (Grammar.listed (Grammar.expectName "parameter name")) parameters :=
  listed_tracks (expectName_tracks _) parametersFrom.eq_2

include hi in
theorem functionDef_tracks :
    Tracks (n + 1) 1 (afterWord .functionWord (Grammar.functionDef inner)) functionDef := by
  refine .succ ?_
  simp only [functionDef]
  exact afterWord_tracks _ ((expectName_tracks _).any.bind fun name =>
    (expectDelimiter_tracks _).any.bind fun _ => parameters_tracks.any.bind fun params =>
    (body_tracks hi).any.bind fun inside => .pure _)

include he in
theorem returnWith_tracks :
    Tracks (n + 1) 1 (afterWord .returnWord (Grammar.returnWith expr)) returnWith := by
  refine afterWord_tracks _ (Tracks.test (fun c us hc hs => ?_) (.pure _)
    (he.any.bind fun value => .pure _))
  rw [hs.nextIs_eq hc (by simp), blockEnds_eq hc hs]

include hi in
theorem handler_tracks :
    Tracks (n + 1) 1 (afterWord .onWord (Grammar.handler inner)) handler := by
  refine .succ ?_
  simp only [handler]
  exact afterWord_tracks _ ((expectName_tracks _).any.bind fun event =>
    (body_tracks hi).any.bind fun inside => .pure _)

theorem trigger_eq : Grammar.trigger expr = (do
    let event ← Grammar.expectName "event name"
    let args ← (do
      if ← Grammar.accept (.delimiter .leftParen) then Grammar.listed expr else return [])
    let _ ← Grammar.accept .endOfLine
    return .trigger event args) := by
  unfold Grammar.trigger
  simp only [bind_assoc]
  congr 1
  funext event
  congr 1
  funext found
  cases found <;> rfl

include he in
theorem trigger_tracks :
    Tracks (n + 1) 1 (afterWord .triggerWord (Grammar.trigger expr)) trigger := by
  rw [trigger_eq]
  have hargs : Tracks n 0 (do
      if ← Grammar.accept (.delimiter .leftParen) then Grammar.listed expr else return [])
      triggerArguments :=
    (accept_tracks (by simp)).bind fun _ => (arguments_tracks he).any.ite (.pure [])
  exact afterWord_tracks _ ((expectName_tracks _).any.bind fun event => hargs.bind fun args =>
    (accept_tracks (by simp)).bind fun _ => .pure _)

include he in
theorem expressionStatement_tracks :
    Tracks n 1 (Grammar.expressionStatement expr) expressionStatement :=
  he.bind fun e => (accept_tracks (by simp)).bind fun _ => .pure e

end Statements

theorem statement_tracks (n : Nat) : Tracks n 1 (Grammar.statement n) statement := by
  induction n with
  | zero => exact .nothing
  | succ n hi =>
    intro c us hc hs hlt
    have he : Tracks n 1 (Grammar.expression (n + 1)) expression :=
      (expression_tracks (n + 1)).fewer (Nat.le_succ n)
    refine .succ ?_
    simp only [statement, get_bind]
    -- behind its word or brace a statement has one token less for the statements inside it
    rcases hs.cases hc with ⟨t, us', rfl, hne, ht, hmoved, hs'⟩ | ⟨hend, hend'⟩
    · have hword {word : Keyword} (hk : t.kind = .keyword word) {p : Parser Node}
          {q : Nat → Reader Node} (h : Tracks (n + 1) 1 (afterWord word p) q) :
          Agrees 1 c (fun clock => q clock c) (p us') := by
        have heq : afterWord word p (t :: us') = p us' := afterWord_cons hk us'
        rw [← heq]
        exact h c _ hc hs hlt
      have hexpression : Agrees 1 c (fun clock => expressionStatement clock c)
          (Grammar.expressionStatement (Grammar.expression (n + 1)) (t :: us')) :=
        expressionStatement_tracks (expression_tracks (n + 1)) c _ hc hs hlt
      simp only [ht, Grammar.statement]
      cases hkind : t.kind with
      | keyword k =>
        cases k with
        | ifWord => exact hword hkind (branch_tracks he hi)
        | whileWord => exact hword hkind (whileLoop_tracks he hi)
        | forWord => exact hword hkind (forLoop_tracks he hi)
        | functionWord => exact hword hkind (functionDef_tracks hi)
        | returnWord => exact (hword hkind (returnWith_tracks he) :)
        | varWord => exact hword hkind (declaration_tracks he)
        | onWord => exact hword hkind (handler_tracks hi)
        | triggerWord => exact hword hkind (trigger_tracks he)
        | _ => exact hexpression
      | delimiter d =>
        cases d with
        | leftBrace =>
          have hblock := block_tracks hi c _ hc hs hlt
          have hbrace : Grammar.expectDelimiter .leftBrace (t :: us') = .ok ((), us') :=
            Grammar.expectDelimiter_eq_ok.2 ⟨t, rfl, hkind⟩
          rwa [Grammar.bind_apply hbrace] at hblock
        | _ => exact hexpression
      | endOfInput => exact absurd hkind hne
      | _ => exact hexpression
    · have hlist : Grammar.statement (n + 1) us = .error .statementAtEnd := by
        rcases Grammar.atEnd_cases hend with rfl | ⟨t, us, rfl, ht⟩
        · rfl
        · simp [Grammar.statement, ht]
      rw [hlist]
      rcases atEnd_cases hend' with htoken | ⟨t, htoken, ht⟩
      · simp only [htoken]
        exact .refuse hc _
      · simp only [htoken, ht]
        exact .refuse hc _

theorem script_tracks (n : Nat) : Tracks n 0 (do
    let inside ← Grammar.sequence Grammar.atEnd (Grammar.statement n) n
    return .block inside) script :=
  (statements_tracks (statement_tracks n) (fun _ _ hc hs => hs.atEnd_eq hc) (Nat.le_refl n)
    (Nat.le_refl n)).bind fun _ => .pure _

/-! Every reader, and whole lists. -/

inductive Form where
  | statement | expressionStatement | block | branch | whileLoop | forLoop | functionDef | returnWith
  | declaration | handler | trigger | body | condition | initializer | expression
  /-- An operation whose operators are tighter than those of the first `skipped` levels. -/
  | operation (skipped : Nat)
  | unary | primary
  deriving Repr, DecidableEq

def Form.reader : Form → Nat → Reader Node
  | statement => Cursor.statement
  | expressionStatement => Cursor.expressionStatement
  | block => Cursor.block
  | branch => Cursor.branch
  | whileLoop => Cursor.whileLoop
  | forLoop => Cursor.forLoop
  | functionDef => Cursor.functionDef
  | returnWith => Cursor.returnWith
  | declaration => Cursor.declaration
  | handler => Cursor.handler
  | trigger => Cursor.trigger
  | body => Cursor.body
  | condition => Cursor.condition
  | initializer => Cursor.initializer
  | expression => Cursor.expression
  | operation skipped => (Cursor.operation · (levels.drop skipped))
  | unary => Cursor.unary
  | primary => Cursor.primary

/-- The grammar's reader for up to `n` nested levels, with the word or brace that a form begins with. -/
def Form.parser (n : Nat) : Form → Parser Node
  | statement => Grammar.statement (n + 1)
  | expressionStatement => Grammar.expressionStatement (Grammar.expression (n + 1))
  | block => do
    Grammar.expectDelimiter .leftBrace
    Grammar.block (Grammar.statement n)
  | branch => afterWord .ifWord (Grammar.branch (Grammar.expression (n + 1)) (Grammar.statement n))
  | whileLoop =>
    afterWord .whileWord (Grammar.whileLoop (Grammar.expression (n + 1)) (Grammar.statement n))
  | forLoop => afterWord .forWord (Grammar.forLoop (Grammar.expression (n + 1)) (Grammar.statement n))
  | functionDef => afterWord .functionWord (Grammar.functionDef (Grammar.statement n))
  | returnWith => afterWord .returnWord (Grammar.returnWith (Grammar.expression (n + 1)))
  | declaration => afterWord .varWord (Grammar.declaration (Grammar.expression (n + 1)))
  | handler => afterWord .onWord (Grammar.handler (Grammar.statement n))
  | trigger => afterWord .triggerWord (Grammar.trigger (Grammar.expression (n + 1)))
  | body => Grammar.body (Grammar.statement (n + 1))
  | condition => Grammar.condition (Grammar.expression (n + 1))
  | initializer => do
    if ← Grammar.accept (.keyword .varWord) then Grammar.declaration (Grammar.expression (n + 1))
    else Grammar.expression (n + 1)
  | expression => Grammar.expression (n + 1)
  | operation skipped =>
    (levels.drop skipped).foldr Grammar.chain (Grammar.unary (Grammar.primary (Grammar.expression n)))
  | unary => Grammar.unary (Grammar.primary (Grammar.expression n))
  | primary => Grammar.primary (Grammar.expression n)

theorem Form.tracks (form : Form) (n : Nat) : Tracks (n + 1) 1 (form.parser n) form.reader := by
  have he : Tracks n 1 (Grammar.expression (n + 1)) Cursor.expression :=
    (expression_tracks (n + 1)).fewer (Nat.le_succ n)
  have hi := statement_tracks n
  have hprimary := primary_tracks (expression_tracks n)
  cases form with
  | statement => exact statement_tracks (n + 1)
  | expressionStatement => exact expressionStatement_tracks (expression_tracks (n + 1))
  | block => exact block_tracks hi
  | branch => exact branch_tracks he hi
  | whileLoop => exact whileLoop_tracks he hi
  | forLoop => exact forLoop_tracks he hi
  | functionDef => exact functionDef_tracks hi
  | returnWith => exact returnWith_tracks he
  | declaration => exact declaration_tracks he
  | handler => exact handler_tracks hi
  | trigger => exact trigger_tracks he
  | body => exact body_tracks (statement_tracks (n + 1))
  | condition => exact condition_tracks (expression_tracks (n + 1))
  | initializer => exact initializer_tracks (expression_tracks (n + 1))
  | expression => exact expression_tracks (n + 1)
  | operation skipped => exact operation_tracks (unary_tracks hprimary) fun _ => List.mem_of_mem_drop
  | unary => exact unary_tracks hprimary
  | primary => exact hprimary

theorem shows_ahead (c : Cursor) : Shows c c.ahead :=
  Grammar.front_eq_self fun _ ht => Grammar.kind_ne_of_mem_front (List.mem_of_mem_drop ht)

theorem Agrees.safe {c : Cursor} {run : Nat → Option (Except Stop α × Cursor)}
    {r : Except Refusal (α × List Token)} (h : Agrees d c run r) :
    ∃ e c', Stops run e c' ∧ e ≠ .error .outside ∧ Moved 0 c c' ∧ ∀ a, e = .ok a → Moved d c c' := by
  cases h with
  | gives stops moved _ =>
    exact ⟨_, _, stops, by simp, moved.weaken (Nat.zero_le d), fun _ _ => moved⟩
  | refuses stops moved => exact ⟨_, _, stops, by simp, moved, by simp⟩

theorem Agrees.result_eq {d' : Nat} {c : Cursor} {run : Nat → Option (Except Stop α × Cursor)}
    {r r' : Except Refusal (α × List Token)} (h : Agrees d c run r) (h' : Agrees d' c run r') :
    r.map Prod.fst = r'.map Prod.fst := by
  cases h with
  | gives stops _ _ =>
    cases h' with
    | gives stops' _ _ =>
      cases (stops.unique stops').1
      rfl
    | refuses stops' _ => cases (stops.unique stops').1
  | refuses stops _ =>
    cases h' with
    | gives stops' _ _ => cases (stops.unique stops').1
    | refuses stops' _ =>
      cases (stops.unique stops').1
      rfl

def start (ts : List Token) : Cursor := { tokens := ts }

theorem within_start (ts : List Token) : (start ts).Within := by
  rintro i (_ | ⟨_, ⟨⟩⟩)
  exact Nat.zero_le _

theorem length_start_lt {ts us : List Token} (h : Shows (start ts) us) :
    (start ts).ahead.length < us.length + 1 := Nat.lt_succ_of_le h.length_le

def Stop.ofPlaced : Refusal × Option Position → Stop
  | (refusal, position) => .refused refusal position

theorem Agrees.placed {ts : List Token} {run : Nat → Option (Except Stop α × Cursor)}
    {r : Except Refusal (α × List Token)} (h : Agrees d (start ts) run r) :
    ∃ c, Stops run ((Grammar.placed ts r).mapError Stop.ofPlaced) c ∧ Moved 0 (start ts) c := by
  cases h with
  | gives stops moved _ => exact ⟨_, stops, moved.weaken (Nat.zero_le d)⟩
  | refuses stops moved => exact ⟨_, stops, moved⟩

theorem readScript_eq_placed (ts : List Token) : Grammar.readScript ts = Grammar.placed ts ((do
    let inside ← Grammar.sequence Grammar.atEnd (Grammar.statement (ts.length + 1)) (ts.length + 1)
    return .block inside : Parser Node) ts) := by
  change Except.map Node.block (Grammar.placed ts _) = Grammar.placed ts (Except.bind _ _)
  cases Grammar.sequence Grammar.atEnd (Grammar.statement (ts.length + 1)) (ts.length + 1) ts <;> rfl

theorem mapError_placed (ts : List Token) (r : Except Refusal (α × List Token)) :
    (Grammar.placed ts r).mapError Prod.fst = r.map Prod.fst := by
  cases r <;> rfl

/-- Every reader of the grammar stops with a tree or a refusal, from wherever the cursor may stand; it
never asks for a token that is not there, never stands past the end of the input, and to give a tree
it takes at least one token. In all of this it does what the reader of a list does. Whole lists are
read to what `readScript` and `readExpression` say, and nothing after the end of the input counts for
that. -/
theorem readers_stop_within_input :
    (∀ (form : Form) (c : Cursor), c.Within → ∃ r c', Stops (fun clock => form.reader clock c) r c' ∧
      r ≠ .error .outside ∧ Moved 0 c c' ∧ ∀ node, r = .ok node → Moved 1 c c') ∧
    (∀ (form : Form) (c : Cursor) us, c.Within → Shows c us →
      Agrees 1 c (fun clock => form.reader clock c) (form.parser us.length us)) ∧
    (∀ ts, ∃ c, Stops (fun clock => script clock (start ts))
      ((Grammar.readScript ts).mapError Stop.ofPlaced) c ∧ Moved 0 (start ts) c) ∧
    (∀ ts, ∃ c, Stops (fun clock => expression clock (start ts))
      ((Grammar.readExpression ts).mapError Stop.ofPlaced) c ∧ Moved 0 (start ts) c) ∧
    ∀ ts us, front ts = front us →
      (Grammar.readScript ts).mapError Prod.fst = (Grammar.readScript us).mapError Prod.fst := by
  have hform (form : Form) (c : Cursor) (us : List Token) (hc : c.Within) (hs : Shows c us) :
      Agrees 1 c (fun clock => form.reader clock c) (form.parser us.length us) :=
    form.tracks us.length c us hc hs (Nat.lt_succ_of_le hs.length_le)
  refine ⟨fun form c hc => (hform form c _ hc (shows_ahead c)).safe, hform, fun ts => ?_, fun ts => ?_,
    fun ts us hfront => ?_⟩
  · rw [readScript_eq_placed]
    exact (script_tracks _ _ ts (within_start ts) rfl (length_start_lt rfl)).placed
  · exact (expression_tracks _ _ ts (within_start ts) rfl (length_start_lt rfl)).placed
  · rw [readScript_eq_placed, readScript_eq_placed, mapError_placed, mapError_placed]
    have hts := script_tracks _ _ ts (within_start ts) rfl (length_start_lt rfl)
    have hus := script_tracks _ _ us (within_start ts) hfront.symm (length_start_lt hfront.symm)
    exact hts.result_eq hus

-- without a look at the end first, taking a token can fail
example : advance (start []) = some (.error .outside, start []) := rfl

end Parlance.Cursor
