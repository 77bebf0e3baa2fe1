import Parlance.Proofs.Script.Printer

/-! Reading back what was written for a tree. A tree that is read as a statement has expressions where
it wants values, and the first part of a branch with an `else` does not end with a branch without one.
From the tokens that are written for such a tree the same tree is read again. -/

namespace Parlance.Printer
open Grammar
open Source (unplaced)
open Token (Kind)

inductive Printable (numeral : Float → String) : Node → Prop
  | expression {e : Node} : Faithful numeral e → Printable numeral e
  | block {nodes : List Node} : (∀ node ∈ nodes, Printable numeral node) →
      Printable numeral (.block nodes)
  | branch {test yes : Node} : Faithful numeral test → Printable numeral yes →
      Printable numeral (.branch test yes none)
  | choice {test yes no : Node} : Faithful numeral test → Printable numeral yes →
      yes.endsOpen = false → Printable numeral no → Printable numeral (.branch test yes (some no))
  | whileLoop {test body : Node} : Faithful numeral test → Printable numeral body →
      Printable numeral (.whileLoop test body)
  | forLoop {init test step body : Node} : Faithful numeral init → Faithful numeral test →
      Faithful numeral step → Printable numeral body →
      Printable numeral (.forLoop init test step body)
  | functionDef (f : String) (params : List String) {body : Node} : Printable numeral body →
      Printable numeral (.functionDef f params body)
  | returnWith {value : Node} : Faithful numeral value → Printable numeral (.returnWith value)
  | handler (event : String) {body : Node} : Printable numeral body →
      Printable numeral (.handler event body)
  | trigger (event : String) {args : List Node} : (∀ arg ∈ args, Faithful numeral arg) →
      Printable numeral (.trigger event args)

variable {numeral : Float → String}

theorem closed_printable : Closed (Faithful numeral) (Printable numeral) where
  null := .null rfl
  assign x _ h := h.assign x
  expression := .expression
  block := .block
  branch := .branch
  choice := .choice
  whileLoop := .whileLoop
  forLoop := .forLoop
  functionDef := .functionDef
  returnWith := .returnWith
  handler := .handler
  trigger := .trigger

theorem expression_faithful (n : Nat) :
    Gives (ReadsBack numeral) (Faithful numeral) (Grammar.expression n) := by
  intro ts e rest hts hr
  obtain ⟨used, rfl, hd⟩ := expression_sound n _ _ _ hr
  exact ⟨List.suffix_append used rest,
    faithful_of_derives hd fun t ht => hts t (List.mem_append_left _ ht)⟩

/-! How written statements begin. -/

/-- No written statement begins with one of these. A declaration is written as an assignment. -/
def nonStarters : List Kind :=
  [.endOfLine, .endOfInput, .delimiter .rightBrace, .keyword .elseWord, .keyword .varWord]

def Begins (ts : List Token) : Prop := ∃ t us, ts = t :: us ∧ t.kind ∉ nonStarters

theorem Begins.append {ts : List Token} (h : Begins ts) (rest : List Token) : Begins (ts ++ rest) := by
  obtain ⟨t, us, rfl, ht⟩ := h
  exact ⟨t, us ++ rest, rfl, ht⟩

theorem Begins.nextIs {ts : List Token} (h : Begins ts) {kind : Kind} (hk : kind ∈ nonStarters) :
    nextIs kind ts = false := by
  obtain ⟨t, us, rfl, ht⟩ := h
  have hne : t.kind ≠ kind := by
    rintro rfl
    exact ht hk
  simpa [Grammar.nextIs] using hne

theorem Begins.atEnd {ts : List Token} (h : Begins ts) : atEnd ts = false := by
  obtain ⟨t, us, rfl, ht⟩ := h
  have hne : t.kind ≠ .endOfInput := fun hk => ht (by simp [nonStarters, hk])
  simpa [Grammar.atEnd] using hne

theorem Begins.blockEnds {ts : List Token} (h : Begins ts) : blockEnds ts = false := by
  rw [Grammar.blockEnds, h.nextIs (by decide), h.atEnd, Bool.or_self]

theorem Begins.dropLineEnds {ts : List Token} (h : Begins ts) : dropLineEnds ts = ts := by
  obtain ⟨t, us, rfl, ht⟩ := h
  have hk : t.kind ≠ .endOfLine := fun hk => ht (by simp [nonStarters, hk])
  simp [Grammar.dropLineEnds, hk]

theorem begins_of_derives {s : Stratum} {ts : List Token} {e : Node} (h : Derives s ts e) :
    Begins ts := by
  obtain ⟨t, us, rfl, ht⟩ := h.exists_cons
  refine ⟨t, us, rfl, ?_⟩
  unfold nonStarters
  rcases ht with ht | ⟨-, op, ⟨hk, -⟩ | ⟨hk, -⟩⟩
  · simp only [StartsPrimary, List.mem_cons, List.not_mem_nil, or_false] at ht
    rcases ht with hk | hk | hk | hk | hk | hk | hk <;> simp [hk]
  · simp [hk]
  · simp [hk]

theorem statement_of_isExpression (numeral : Float → String) {e : Node} (h : e.IsExpression) :
    statement numeral e = expression numeral e ++ [lineEnd] := by
  cases h <;> rfl

theorem Printable.begins {node : Node} (h : Printable numeral node) :
    Begins (statement numeral node) := by
  cases h with
  | expression he =>
    rw [statement_of_isExpression numeral (Derives.isExpression he)]
    exact (begins_of_derives he).append [lineEnd]
  | _ =>
    rw [statement]
    exact ⟨_, _, rfl, by decide⟩

/-! Reading the parts of a statement. -/

theorem finds_before_lineEnd {p : Parser Node} {used : List Token} {e : Node} (h : Finds p used e)
    (rest : List Token) : p (used ++ lineEnd :: rest) = .ok (e, lineEnd :: rest) := by
  have hends : Ends lineEnd := .inl rfl
  apply h
  · rintro t ⟨⟩
    refine ⟨fun s _ op hw => ?_, fun ⟨hk, _⟩ => nomatch hk⟩
    rw [← Stratum.op?_eq_some_iff, hends.op?_eq_none] at hw
    cases hw
  · rintro t ⟨⟩ ⟨hk, -⟩
    cases hk

theorem Faithful.finds {e : Node} (h : Faithful numeral e) {n : Nat}
    (hn : (expression numeral e).length < n) :
    Finds (Grammar.expression n) (expression numeral e) e := h.assignment.completes.finds hn

theorem expectDelimiter_mark (d : Delimiter) (rest : List Token) :
    expectDelimiter d (mark d :: rest) = .ok ((), rest) :=
  expectDelimiter_eq_ok.2 ⟨mark d, rfl, rfl⟩

theorem expect_lineEnd (what : String) (rest : List Token) :
    expect .endOfLine what (lineEnd :: rest) = .ok (lineEnd, rest) := expect_eq_ok.2 ⟨rfl, rfl⟩

theorem accept_lineEnd (rest : List Token) :
    accept .endOfLine (lineEnd :: rest) = .ok (true, rest) :=
  accept_eq_ok.2 (.inl ⟨rfl, lineEnd, rfl, rfl⟩)

theorem expectName_name (what x : String) (rest : List Token) :
    expectName what (name x :: rest) = .ok (x, rest) := expectName_eq_ok.2 ⟨name x, rfl, rfl, rfl⟩

theorem parens_append (ts rest : List Token) :
    parens ts ++ rest = mark .leftParen :: (ts ++ mark .rightParen :: rest) := by simp [parens]

theorem condition_parens {test : Node} (h : Faithful numeral test) {n : Nat}
    (hn : (expression numeral test).length < n) (rest : List Token) :
    condition (Grammar.expression n) (parens (expression numeral test) ++ rest) =
      .ok (test, rest) := by
  have htest := (h.finds hn).stands (mark .rightParen) _ rest rfl (by decide)
  rw [parens_append, condition, bind_apply (expectDelimiter_mark _ _), bind_apply htest,
    bind_apply (expectDelimiter_mark _ _)]
  rfl

theorem listed_commas {α : Type} {item : Parser α} (render : α → List Token) {args : List α}
    (hfirst : ∀ a ∈ args, ∀ rest, nextIs (.delimiter .rightParen) (render a ++ rest) = false)
    (h : ∀ a ∈ args, Stands item (render a) a) (rest : List Token) :
    listed item (commas (args.map render) ++ mark .rightParen :: rest) = .ok (args, rest) := by
  have hclose : (mark .rightParen).kind = .delimiter .rightParen := rfl
  have hmap : (args.map fun a => (render a, a)).map (·.1) = args.map render := by simp
  have hjoined := hmap ▸ commaJoined_commas (args.map render)
  have hread := listed_complete hclose hjoined (by simpa using hfirst) (by simpa using h) rest
  simpa [Function.comp_def] using hread

theorem listed_expressions {args : List Node} (h : ∀ arg ∈ args, Faithful numeral arg) {n : Nat}
    (hn : (commas (args.map (expression numeral))).length < n) (rest : List Token) :
    listed (Grammar.expression n)
      (commas (args.map (expression numeral)) ++ mark .rightParen :: rest) = .ok (args, rest) := by
  refine listed_commas _ (fun arg ha => (h arg ha).not_rightParen) (fun arg ha => ?_) rest
  have hlen := (commaJoined_commas (args.map (expression numeral))).length_le (List.mem_map_of_mem ha)
  exact ((h arg ha).finds (by omega)).stands

theorem listed_names (what : String) (params : List String) (rest : List Token) :
    listed (expectName what) (commas (params.map ([name ·])) ++ mark .rightParen :: rest) =
      .ok (params, rest) :=
  listed_commas _ (fun _ _ _ => rfl) (fun x _ t _ rest _ _ => expectName_name what x (t :: rest)) rest

/-! Reading whole statements. -/

/-- From the tokens of the tree and any that come after them the tree is read, up to line ends. No
`else` may come after a tree with an open end. -/
def Rereads (numeral : Float → String) (node : Node) : Prop :=
  ∀ n rest, (statement numeral node).length < n →
    (node.endsOpen = true → nextIs (.keyword .elseWord) (dropLineEnds rest) = false) →
    ∃ left, Grammar.statement n (statement numeral node ++ rest) = .ok (node, left) ∧
      dropLineEnds left = dropLineEnds rest

section
variable {node test inside : Node}

theorem Rereads.body (h : Rereads numeral node) (hp : Printable numeral node) {n : Nat}
    (hn : (statement numeral node).length < n) (rest : List Token)
    (hopen : node.endsOpen = true → nextIs (.keyword .elseWord) (dropLineEnds rest) = false) :
    ∃ left, body (Grammar.statement n) (statement numeral node ++ rest) = .ok (node, left) ∧
      dropLineEnds left = dropLineEnds rest := by
  have hskip : skipLineEnds (statement numeral node ++ rest) =
      .ok ((), dropLineEnds (statement numeral node ++ rest)) := rfl
  obtain ⟨left, hread, hleft⟩ := h n rest hn hopen
  refine ⟨left, ?_, hleft⟩
  rw [Grammar.body, bind_apply hskip, (hp.begins.append rest).dropLineEnds, hread]

theorem Rereads.around (h : Rereads numeral node) (hp : Printable numeral node) {n : Nat}
    (hn : (statement numeral node).length < n) (f : Node → Node)
    (hf : (f node).endsOpen = node.endsOpen) {rest : List Token}
    (hopen : (f node).endsOpen = true →
      nextIs (.keyword .elseWord) (dropLineEnds rest) = false) :
    ∃ left, (do return f (← Grammar.body (Grammar.statement n)) : Parser Node)
        (statement numeral node ++ rest) = .ok (f node, left) ∧
      dropLineEnds left = dropLineEnds rest := by
  obtain ⟨left, hread, hleft⟩ := h.body hp hn rest (hf ▸ hopen)
  exact ⟨left, bind_eq_ok.2 ⟨node, left, hread, rfl⟩, hleft⟩

theorem rereads_expression (h : Faithful numeral node) : Rereads numeral node := by
  intro n rest hn _
  have hshape := statement_of_isExpression numeral (Derives.isExpression h)
  rw [hshape, List.length_append] at hn
  obtain ⟨n, rfl⟩ : ∃ m, n = m + 1 := ⟨n - 1, by omega⟩
  have hread := finds_before_lineEnd (h.finds (n := n + 1) (by omega)) rest
  refine ⟨rest, ?_, rfl⟩
  rw [hshape, List.append_assoc, statement_of_expression h.assignment, expressionStatement]
  exact bind_eq_ok.2 ⟨node, _, hread, bind_eq_ok.2 ⟨true, rest, accept_lineEnd rest, rfl⟩⟩

theorem sequence_statements {stop : List Token → Bool} (hgo : ∀ ts, Begins ts → stop ts = false)
    {nodes : List Node} (hp : ∀ node ∈ nodes, Printable numeral node)
    (hr : ∀ node ∈ nodes, Rereads numeral node) {k n : Nat}
    (hk : (statements numeral nodes).length < k) (hn : nodes.length < n) {rest : List Token}
    (hstop : stop (dropLineEnds rest) = true)
    (helse : nextIs (.keyword .elseWord) (dropLineEnds rest) = false) {ts : List Token}
    (hts : dropLineEnds ts = dropLineEnds (statements numeral nodes ++ rest)) :
    sequence stop (Grammar.statement k) n ts = .ok (nodes, dropLineEnds rest) := by
  induction nodes generalizing n ts with
  | nil =>
    obtain ⟨n, rfl⟩ : ∃ m, n = m + 1 := ⟨n - 1, by omega⟩
    have hend : dropLineEnds ts = dropLineEnds rest := hts
    rw [sequence_of_stop (hend ▸ hstop), hend]
  | cons node nodes ih =>
    obtain ⟨n, rfl⟩ : ∃ m, n = m + 1 := ⟨n - 1, by omega⟩
    rw [statements, List.length_append] at hk
    rw [List.length_cons] at hn
    have hlater : ∀ later ∈ nodes, Printable numeral later :=
      fun later hl => hp later (List.mem_cons_of_mem _ hl)
    have hbegin : Begins (statement numeral node ++ (statements numeral nodes ++ rest)) :=
      (hp node List.mem_cons_self).begins.append _
    have hfront : dropLineEnds ts = statement numeral node ++ (statements numeral nodes ++ rest) := by
      rw [hts, statements, List.append_assoc, hbegin.dropLineEnds]
    -- what comes next is another statement or `rest`, and neither begins with an `else`
    have hnext : nextIs (.keyword .elseWord) (dropLineEnds (statements numeral nodes ++ rest)) =
        false := by
      cases nodes with
      | nil => exact helse
      | cons later nodes =>
        have hlater := (hlater later List.mem_cons_self).begins
        have hbegin := hlater.append (statements numeral nodes ++ rest)
        rw [statements, List.append_assoc, hbegin.dropLineEnds]
        exact hbegin.nextIs (by decide)
    obtain ⟨left, hread, hleft⟩ := hr node List.mem_cons_self k _ (by omega) fun _ => hnext
    have hothers := ih hlater (fun later hl => hr later (List.mem_cons_of_mem _ hl)) (by omega)
      (by omega : nodes.length < n) hleft
    exact (sequence_succ_eq_ok (hfront ▸ hgo _ hbegin)).2
      ⟨node, left, nodes, hfront ▸ hread, hothers, rfl⟩

theorem length_le_statements {nodes : List Node} (hp : ∀ node ∈ nodes, Printable numeral node) :
    nodes.length ≤ (statements numeral nodes).length := by
  induction nodes with
  | nil => exact Nat.le_refl 0
  | cons node nodes ih =>
    obtain ⟨t, us, hts, -⟩ := (hp node List.mem_cons_self).begins
    have hlater := ih fun later hl => hp later (List.mem_cons_of_mem _ hl)
    rw [statements, hts]
    simp only [List.length_cons, List.length_append]
    omega

theorem rereads_block {nodes : List Node} (hp : ∀ node ∈ nodes, Printable numeral node)
    (ih : ∀ node ∈ nodes, Rereads numeral node) : Rereads numeral (.block nodes) := by
  intro n rest hn _
  have hlen := length_le_statements hp
  simp only [statement, List.length_cons, List.length_append, List.length_nil] at hn
  obtain ⟨n, rfl⟩ : ∃ m, n = m + 1 := ⟨n - 1, by omega⟩
  have hcut : statement numeral (.block nodes) ++ rest = mark .leftBrace ::
      (statements numeral nodes ++ mark .rightBrace :: lineEnd :: rest) := by simp [statement]
  have hinside : sequence blockEnds (Grammar.statement n)
      ((statements numeral nodes ++ mark .rightBrace :: lineEnd :: rest).length + 1)
      (statements numeral nodes ++ mark .rightBrace :: lineEnd :: rest) =
        .ok (nodes, mark .rightBrace :: lineEnd :: rest) := by
    refine sequence_statements (fun _ => Begins.blockEnds) hp ih (by omega) ?_ rfl rfl rfl
    rw [List.length_append]
    omega
  refine ⟨lineEnd :: rest, ?_, rfl⟩
  rw [hcut]
  change block (Grammar.statement n) _ = _
  exact bind_eq_ok.2 ⟨_, _, rfl, bind_eq_ok.2 ⟨_, _, hinside,
    bind_eq_ok.2 ⟨_, _, expectDelimiter_mark _ _, rfl⟩⟩⟩

theorem rereads_branch {yes : Node} (ht : Faithful numeral test) (hy : Printable numeral yes)
    (ih : Rereads numeral yes) : Rereads numeral (.branch test yes none) := by
  intro n rest hn hopen
  have helse := hopen rfl
  simp only [statement, parens, List.length_cons, List.length_append, List.length_nil] at hn
  obtain ⟨n, rfl⟩ : ∃ m, n = m + 1 := ⟨n - 1, by omega⟩
  obtain ⟨left, hyes, hleft⟩ := ih.body hy (by omega : _ < n) rest fun _ => helse
  refine ⟨left, ?_, hleft⟩
  have hfound : acceptElse left = .ok (false, left) := by
    rw [acceptElse_eq, hleft, helse]
    rfl
  change branch (Grammar.expression (n + 1)) (Grammar.statement n)
    (parens (expression numeral test) ++ statement numeral yes ++ rest) = _
  rw [List.append_assoc, branch, bind_apply (condition_parens ht (by omega) _), bind_apply hyes,
    bind_apply hfound]
  rfl

theorem rereads_choice {yes no : Node} (ht : Faithful numeral test)
    (hy : Printable numeral yes) (hclosed : yes.endsOpen = false) (hn : Printable numeral no)
    (ihy : Rereads numeral yes) (ihn : Rereads numeral no) :
    Rereads numeral (.branch test yes (some no)) := by
  intro n rest hlen hopen
  simp only [statement, parens, List.length_cons, List.length_append, List.length_nil] at hlen
  obtain ⟨n, rfl⟩ : ∃ m, n = m + 1 := ⟨n - 1, by omega⟩
  obtain ⟨left, hyes, hleft⟩ := ihy.body hy (by omega : _ < n)
    (word .elseWord :: (statement numeral no ++ rest)) (by simp [hclosed])
  have hfound : acceptElse left = .ok (true, statement numeral no ++ rest) := by
    rw [acceptElse_eq, hleft]
    rfl
  obtain ⟨left', hno, hleft'⟩ :=
    ihn.around hn (by omega : _ < n) (fun no => .branch test yes (some no)) rfl hopen
  refine ⟨left', ?_, hleft'⟩
  change branch (Grammar.expression (n + 1)) (Grammar.statement n) (parens (expression numeral test) ++
    (statement numeral yes ++ word .elseWord :: statement numeral no) ++ rest) = _
  rw [List.append_assoc, List.append_assoc, branch, bind_apply (condition_parens ht (by omega) _),
    List.cons_append, bind_apply hyes, bind_apply hfound]
  exact hno

theorem rereads_whileLoop (ht : Faithful numeral test) (hp : Printable numeral inside)
    (ih : Rereads numeral inside) : Rereads numeral (.whileLoop test inside) := by
  intro n rest hn hopen
  simp only [statement, parens, List.length_cons, List.length_append, List.length_nil] at hn
  obtain ⟨n, rfl⟩ : ∃ m, n = m + 1 := ⟨n - 1, by omega⟩
  obtain ⟨left, hread, hleft⟩ := ih.around hp (by omega : _ < n) (.whileLoop test) rfl hopen
  refine ⟨left, ?_, hleft⟩
  change whileLoop (Grammar.expression (n + 1)) (Grammar.statement n)
    (parens (expression numeral test) ++ statement numeral inside ++ rest) = _
  rw [List.append_assoc, whileLoop, bind_apply (condition_parens ht (by omega) _)]
  exact hread

theorem rereads_forLoop {init step : Node} (hi : Faithful numeral init)
    (ht : Faithful numeral test) (hs : Faithful numeral step) (hp : Printable numeral inside)
    (ih : Rereads numeral inside) : Rereads numeral (.forLoop init test step inside) := by
  intro n rest hn hopen
  simp only [statement, parens, List.length_cons, List.length_append, List.length_nil] at hn
  obtain ⟨n, rfl⟩ : ∃ m, n = m + 1 := ⟨n - 1, by omega⟩
  obtain ⟨left, hread, hleft⟩ := ih.around hp (by omega : _ < n) (.forLoop init test step) rfl hopen
  refine ⟨left, ?_, hleft⟩
  have hcut : statement numeral (.forLoop init test step inside) ++ rest =
      word .forWord :: mark .leftParen :: (expression numeral init ++ lineEnd ::
        (expression numeral test ++ lineEnd :: (expression numeral step ++ mark .rightParen ::
          (statement numeral inside ++ rest)))) := by
    simp [statement, parens]
  have hvar (us : List Token) : accept (.keyword .varWord) (expression numeral init ++ us) =
      .ok (false, expression numeral init ++ us) :=
    accept_eq_ok.2 (.inr ⟨rfl, ((begins_of_derives hi).append us).nextIs (by decide), rfl⟩)
  have hinit := finds_before_lineEnd (hi.finds (by omega : _ < n + 1))
  have htest := finds_before_lineEnd (ht.finds (by omega : _ < n + 1))
  have hstep := (hs.finds (by omega : _ < n + 1)).stands (mark .rightParen) _
    (statement numeral inside ++ rest) rfl (by decide)
  rw [hcut]
  change forLoop (Grammar.expression (n + 1)) (Grammar.statement n) _ = _
  rw [forLoop, bind_apply (expectDelimiter_mark _ _), bind_apply (hvar _)]
  simp only [Bool.false_eq_true, if_false]
  rw [bind_apply (hinit _), bind_apply (expect_lineEnd _ _), bind_apply (htest _),
    bind_apply (expect_lineEnd _ _), bind_apply hstep, bind_apply (expectDelimiter_mark _ _)]
  exact hread

theorem rereads_functionDef (f : String) (params : List String) (hp : Printable numeral inside)
    (ih : Rereads numeral inside) : Rereads numeral (.functionDef f params inside) := by
  intro n rest hn hopen
  simp only [statement, parens, List.length_cons, List.length_append, List.length_nil] at hn
  obtain ⟨n, rfl⟩ : ∃ m, n = m + 1 := ⟨n - 1, by omega⟩
  obtain ⟨left, hread, hleft⟩ := ih.around hp (by omega : _ < n) (.functionDef f params) rfl hopen
  refine ⟨left, ?_, hleft⟩
  change functionDef (Grammar.statement n) (name f ::
    (parens (commas (params.map ([name ·]))) ++ statement numeral inside ++ rest)) = _
  rw [List.append_assoc, parens_append, functionDef, bind_apply (expectName_name _ _ _),
    bind_apply (expectDelimiter_mark _ _), bind_apply (listed_names _ _ _)]
  exact hread

theorem rereads_returnWith (h : Faithful numeral node) : Rereads numeral (.returnWith node) := by
  intro n rest hn _
  simp only [statement, List.length_cons, List.length_append, List.length_nil] at hn
  obtain ⟨n, rfl⟩ : ∃ m, n = m + 1 := ⟨n - 1, by omega⟩
  refine ⟨lineEnd :: rest, ?_, rfl⟩
  have hcut : statement numeral (.returnWith node) ++ rest =
      word .returnWord :: (returned numeral node ++ lineEnd :: rest) := by simp [statement]
  rw [hcut]
  change returnWith (Grammar.expression (n + 1)) _ = _
  by_cases hnull : node = .null
  · subst hnull
    rfl
  · have hvalue : returned numeral node = expression numeral node := by
      unfold returned
      split
      · exact absurd rfl hnull
      · rfl
    rw [hvalue] at hn ⊢
    have hread := finds_before_lineEnd (h.finds (by omega : _ < n + 1)) rest
    have hbegin := (begins_of_derives h).append (lineEnd :: rest)
    refine bind_eq_ok.2 ⟨_, _, rfl, ?_⟩
    rw [hbegin.nextIs (by decide), hbegin.blockEnds, Bool.or_self, if_neg (by decide)]
    exact bind_eq_ok.2 ⟨node, _, hread, rfl⟩

theorem rereads_handler (event : String) (hp : Printable numeral inside)
    (ih : Rereads numeral inside) : Rereads numeral (.handler event inside) := by
  intro n rest hn hopen
  simp only [statement, List.length_cons] at hn
  obtain ⟨n, rfl⟩ : ∃ m, n = m + 1 := ⟨n - 1, by omega⟩
  obtain ⟨left, hread, hleft⟩ := ih.around hp (by omega : _ < n) (.handler event) rfl hopen
  refine ⟨left, ?_, hleft⟩
  change handler (Grammar.statement n) (name event :: (statement numeral inside ++ rest)) = _
  rw [handler, bind_apply (expectName_name _ _ _)]
  exact hread

theorem rereads_trigger (event : String) {args : List Node} (h : ∀ arg ∈ args, Faithful numeral arg) :
    Rereads numeral (.trigger event args) := by
  intro n rest hn _
  simp only [statement, parens, expressions_eq, List.length_cons, List.length_append,
    List.length_nil] at hn
  obtain ⟨n, rfl⟩ : ∃ m, n = m + 1 := ⟨n - 1, by omega⟩
  refine ⟨rest, ?_, rfl⟩
  have hcut : statement numeral (.trigger event args) ++ rest = word .triggerWord :: name event ::
      mark .leftParen :: (commas (args.map (expression numeral)) ++ mark .rightParen ::
        lineEnd :: rest) := by
    simp [statement, parens, expressions_eq]
  have hopen (us : List Token) : accept (.delimiter .leftParen) (mark .leftParen :: us) =
      .ok (true, us) := accept_eq_ok.2 (.inl ⟨rfl, _, rfl, rfl⟩)
  rw [hcut]
  change trigger (Grammar.expression (n + 1)) _ = _
  rw [trigger, bind_apply (expectName_name _ _ _), bind_apply (hopen _)]
  simp only [if_true]
  rw [bind_apply (listed_expressions h (by omega) _), bind_apply (accept_lineEnd _)]
  rfl

end

theorem Printable.rereads {node : Node} (h : Printable numeral node) : Rereads numeral node := by
  induction h with
  | expression he => exact rereads_expression he
  | block hp ih => exact rereads_block hp ih
  | branch ht hy ih => exact rereads_branch ht hy ih
  | choice ht hy hclosed hn ihy ihn => exact rereads_choice ht hy hclosed hn ihy ihn
  | whileLoop ht hp ih => exact rereads_whileLoop ht hp ih
  | forLoop hi ht hs hp ih => exact rereads_forLoop hi ht hs hp ih
  | functionDef f params hp ih => exact rereads_functionDef f params hp ih
  | returnWith he => exact rereads_returnWith he
  | handler event hp ih => exact rereads_handler event hp ih
  | trigger event hargs => exact rereads_trigger event hargs

theorem Printable.getLast? {node : Node} (h : Printable numeral node) :
    (statement numeral node).getLast? = some lineEnd := by
  induction h with
  | expression he =>
    rw [statement_of_isExpression numeral (Derives.isExpression he), List.getLast?_concat]
  | choice _ _ _ _ _ ihn => simp [statement, List.getLast?_cons, List.getLast?_append, ihn]
  | branch _ _ ih | whileLoop _ _ ih | forLoop _ _ _ _ ih | functionDef _ _ _ ih | handler _ _ ih =>
    simp [statement, List.getLast?_cons, List.getLast?_append, ih]
  | block | returnWith | trigger => simp [statement, List.getLast?_cons, List.getLast?_append]

theorem readScript_statements {nodes : List Node} (hp : ∀ node ∈ nodes, Printable numeral node) :
    readScript (statements numeral nodes ++ [unplaced Token.ending]) = .ok (.block nodes) := by
  have hlen := length_le_statements hp
  refine readScript_eq_ok.2 ⟨[unplaced Token.ending], ?_⟩
  refine sequence_statements (fun _ => Begins.atEnd) hp (fun node hn => (hp node hn).rereads)
    ?_ ?_ rfl rfl rfl
  · simp only [List.length_append, List.length_singleton]
    omega
  · simp only [List.length_append, List.length_singleton]
    omega

/-- Every tree that is read from tokens is read again from the tokens that are written for it. These
are its statements in turn, each with a line end as its last token, and the end of the input. -/
theorem readScript_script {numeral : Float → String} {ts : List Token} {root : Node}
    (h : readScript ts = .ok root) (hts : ∀ t ∈ ts, ReadsBack numeral t) :
    readScript (script numeral root) = .ok root ∧
      ∃ nodes, root = .block nodes ∧
        script numeral root = nodes.flatMap (statement numeral) ++ [unplaced Token.ending] ∧
        ∀ node ∈ nodes, (statement numeral node).getLast? = some lineEnd := by
  obtain ⟨nodes, rfl⟩ := exists_block_of_readScript h
  obtain ⟨rest, hread⟩ := readScript_eq_ok.1 h
  have hp : ∀ node ∈ nodes, Printable numeral node :=
    forall_of_sequence closed_printable expression_faithful hts hread
  refine ⟨readScript_statements hp, nodes, rfl, ?_, fun node hn => (hp node hn).getLast?⟩
  rw [script, statements_eq]

theorem readScript_script_nested :
    let seven := unplaced (.number, "7")
    let test := fun x => word .ifWord :: parens [name x]
    let inside := test "a" ++ test "b" ++ [word .returnWord, lineEnd, lineEnd, word .elseWord,
      word .triggerWord, name "e"] ++ parens [seven]
    let ts := [word .functionWord, name "f"] ++ parens [name "a", mark .comma, name "b"] ++
      [lineEnd, mark .leftBrace] ++ inside ++ [mark .rightBrace, word .onWord, name "e",
      word .whileWord] ++ parens [word .notWord, name "a"] ++ [word .varWord, name "a"]
    let root := Node.block [
      .functionDef "f" ["a", "b"] (.block [
        .branch (.path "a") (.branch (.path "b") (.returnWith .null)
          (some (.trigger "e" [.literal (.number (Decimal.nearest 7 0))]))) none]),
      .handler "e" (.whileLoop (.unary .not (.path "a")) (.assign "a" .null))]
    readScript ts = .ok root ∧ readScript (script (fun _ => "7") root) = .ok root := by
  intro seven test inside ts root
  have hread : readScript ts = .ok root := by
    unfold ts root inside test seven
    rfl
  have hnumbers : ts.filter (·.kind == .number) = [seven] := by rfl
  refine ⟨hread, (readScript_script hread ?_).1⟩
  intro t ht hk x hx
  have ht' : t ∈ ts.filter (·.kind == .number) := List.mem_filter.2 ⟨ht, by simpa using hk⟩
  rw [hnumbers, List.mem_singleton] at ht'
  rw [ht'] at hx
  exact hx

end Parlance.Printer
