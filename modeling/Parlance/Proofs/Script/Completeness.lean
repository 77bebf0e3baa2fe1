import Parlance.Proofs.Script.Derivation

/-! Reading an expression finds the tree of every derivation, as long as the token after it cannot
go on with the expression. The induction is on derivations. For a binary stratum it says more than
that the tree is found: reading comes to the point where the tree is complete and the chain of the
stratum is about to go on, because the tokens on the left of an operator are read in the same go as
the operator itself. -/

namespace Parlance.Grammar
open Token (Kind)

namespace Stratum

def binaries : Stratum → List Stratum
  | or => [or, and, equality, relational, additive, multiplicative]
  | and => [and, equality, relational, additive, multiplicative]
  | equality => [equality, relational, additive, multiplicative]
  | relational => [relational, additive, multiplicative]
  | additive => [additive, multiplicative]
  | multiplicative => [multiplicative]
  | _ => []

def reader (inner : Parser Node) : Stratum → Parser Node
  | primary => Grammar.primary inner
  | s => (s.binaries.map op?).foldr chain (Grammar.unary (Grammar.primary inner))

theorem reader_binary {s : Stratum} (h : s ∈ s.binaries) (inner : Parser Node) :
    s.reader inner = chain s.op? (s.next.reader inner) := by
  cases s <;> first | rfl | exact absurd h (by decide)

theorem Writes.mem_binaries {s : Stratum} {t : Token} {op : BinaryOp} (h : s.Writes t op) :
    s ∈ s.binaries := by
  cases s <;> first | decide | simp [Writes, signs, word?] at h

theorem binaries_next_subset {s : Stratum} (h : s ≠ assignment) : s.next.binaries ⊆ s.binaries := by
  cases s <;> first | exact absurd rfl h | simp [next, binaries]

theorem self_mem_binaries {s : Stratum} (h : s ∈ s.binaries) : s ≠ assignment := by
  rintro rfl
  exact absurd h (by decide)

theorem signs_disjoint {s s' : Stratum} (h : s' ∈ s.next.binaries) :
    ∀ p ∈ s.signs, ∀ q ∈ s'.signs, p.1 ≠ q.1 := by
  revert h
  cases s <;> cases s' <;> decide

theorem words_disjoint {s s' : Stratum} (h : s' ∈ s.next.binaries) :
    ∀ p ∈ s.word?, ∀ q ∈ s'.word?, p.1 ≠ q.1 := by
  revert h
  cases s <;> cases s' <;> decide

theorem Writes.not_tighter {s s' : Stratum} {t : Token} {op op' : BinaryOp} (h : s.Writes t op)
    (hs : s' ∈ s.next.binaries) : ¬s'.Writes t op' := by
  intro h'
  rcases h with ⟨hk, hm⟩ | ⟨k, hk, hw⟩ <;> rcases h' with ⟨hk', hm'⟩ | ⟨k', hk', hw'⟩ <;>
    rw [hk] at hk' <;> cases hk'
  · exact signs_disjoint hs _ hm _ hm' rfl
  · exact words_disjoint hs _ hw _ hw' rfl

theorem Writes.kind_ne_delimiter {s : Stratum} {t : Token} {op : BinaryOp} (h : s.Writes t op)
    (d : Delimiter) : t.kind ≠ .delimiter d := by
  rcases h with ⟨hk, -⟩ | ⟨k, hk, -⟩ <;> simp [hk]

theorem not_writes_of_isEquals {s : Stratum} {t : Token} {op : BinaryOp} (h : IsEquals t) :
    ¬s.Writes t op := by
  rintro (⟨-, hm⟩ | ⟨k, hk, -⟩)
  · rw [h.2] at hm
    cases s <;> simp [signs] at hm
  · simp [h.1] at hk

end Stratum

/-! How an expression begins. -/

def StartsPrimary (t : Token) : Prop :=
  t.kind ∈ [.number, .string, .keyword .trueWord, .keyword .falseWord, .keyword .nullWord,
    .identifier, .delimiter .leftParen]

theorem Derives.exists_cons {s : Stratum} {ts : List Token} {e : Node} (h : Derives s ts e) :
    ∃ t us, ts = t :: us ∧ (StartsPrimary t ∨ s ≠ .primary ∧ ∃ op, WritesUnary t op) := by
  induction h with
  | @tighter s ts e _ ih =>
    obtain ⟨t, us, rfl, ht | ⟨hs, ht⟩⟩ := ih
    · exact ⟨t, us, rfl, .inl ht⟩
    · refine ⟨t, us, rfl, .inr ⟨?_, ht⟩⟩
      rintro rfl
      exact hs rfl
  | assign _ _ _ ih _ =>
    obtain ⟨t, us, rfl, ht⟩ := ih
    exact ⟨t, _, rfl, ht.imp_right fun ht => ⟨by simp, ht.2⟩⟩
  | binary _ _ _ ih _ =>
    obtain ⟨t, us, rfl, ht⟩ := ih
    exact ⟨t, _, rfl, ht⟩
  | unary hw _ _ => exact ⟨_, _, rfl, .inr ⟨by simp, _, hw⟩⟩
  | number hk _ | text hk | truth hk | falsehood hk | null hk | path hk | call hk _ _ _ _ _
  | group hk _ _ _ => exact ⟨_, _, rfl, .inl (by simp [StartsPrimary, hk])⟩

theorem StartsPrimary.unaryOf_eq_none {t : Token} (h : StartsPrimary t) : unaryOf t = none := by
  simp only [StartsPrimary, List.mem_cons, List.not_mem_nil, or_false] at h
  rcases h with h | h | h | h | h | h | h <;> simp [unaryOf, isOperator, h]

theorem Derives.not_rightParen {s : Stratum} {ts : List Token} {e : Node} (h : Derives s ts e)
    (rest : List Token) : nextIs (.delimiter .rightParen) (ts ++ rest) = false := by
  obtain ⟨t, us, rfl, ht | ⟨-, op, ⟨hk, -⟩ | ⟨hk, -⟩⟩⟩ := h.exists_cons
  · simp only [StartsPrimary, List.mem_cons, List.not_mem_nil, or_false] at ht
    rcases ht with ht | ht | ht | ht | ht | ht | ht <;> simp [nextIs, ht]
  · simp [nextIs, hk]
  · simp [nextIs, hk]

/-! Where an expression ends. -/

/-- A parenthesis would make the name at the end of `used` a call. -/
def OpensCall (used : List Token) (t : Token) : Prop :=
  t.kind = .delimiter .leftParen ∧ ∃ u ∈ used.getLast?, u.kind = .identifier

def Continues (used : List Token) (t : Token) : Prop :=
  (∃ s op, Stratum.Writes s t op) ∨ IsEquals t ∨ OpensCall used t

def StopsAt (strata : List Stratum) (used rest : List Token) : Prop :=
  ∀ t ∈ rest.head?, (∀ s ∈ strata, ∀ op, ¬s.Writes t op) ∧ ¬OpensCall used t

theorem StopsAt.mono {strata strata' : List Stratum} {used rest : List Token}
    (h : StopsAt strata used rest) (hs : strata' ⊆ strata) : StopsAt strata' used rest :=
  fun t ht => ⟨fun s hm => (h t ht).1 s (hs hm), (h t ht).2⟩

theorem StopsAt.suffix {strata : List Stratum} {used rest : List Token} (before : List Token)
    (h : StopsAt strata (before ++ used) rest) : StopsAt strata used rest := by
  intro t ht
  refine ⟨(h t ht).1, fun ⟨hk, u, hl, hi⟩ => (h t ht).2 ⟨hk, u, ?_, hi⟩⟩
  rw [Option.mem_def] at hl ⊢
  rw [List.getLast?_append, hl]
  rfl

theorem chainFrom_stop {s : Stratum} {operand : Parser Node} {n : Nat} {e : Node}
    {used rest : List Token} {strata : List Stratum} (h : StopsAt strata used rest)
    (hs : s ∈ s.binaries → s ∈ strata) : chainFrom s.op? operand n e rest = .ok (e, rest) := by
  cases n with
  | zero => rfl
  | succ n =>
    cases rest with
    | nil => rfl
    | cons t us =>
      have hop : s.op? t = none := by
        rw [Option.eq_none_iff_forall_ne_some]
        intro op hop
        have hw := Stratum.op?_eq_some_iff.1 hop
        exact (h t rfl).1 s (hs hw.mem_binaries) op hw
      simp only [chainFrom, hop]

theorem stopsAt_of_delimiter {strata : List Stratum} {used rest : List Token} {t : Token}
    {d : Delimiter} (hk : t.kind = .delimiter d) (hd : d ≠ .leftParen) :
    StopsAt strata used (t :: rest) := by
  rintro u ⟨⟩
  exact ⟨fun s _ op hw => hw.kind_ne_delimiter d hk, fun ⟨hl, _⟩ => hd (by simpa [hk] using hl)⟩

theorem stopsAt_of_writes {s : Stratum} {op : BinaryOp} {used rest : List Token} {t : Token}
    (h : s.Writes t op) : StopsAt s.next.binaries used (t :: rest) := by
  rintro u ⟨⟩
  exact ⟨fun s' hs op' => h.not_tighter hs, fun ⟨hl, _⟩ => h.kind_ne_delimiter _ hl⟩

theorem stopsAt_of_isEquals {strata : List Stratum} {used rest : List Token} {t : Token}
    (h : IsEquals t) : StopsAt strata used (t :: rest) := by
  rintro u ⟨⟩
  exact ⟨fun s _ op => Stratum.not_writes_of_isEquals h, fun ⟨hl, _⟩ => by simp [h.1] at hl⟩

/-! Readers of lists of arguments. -/

def Finds (p : Parser Node) (used : List Token) (e : Node) : Prop :=
  ∀ rest, StopsAt Stratum.or.binaries used rest → (∀ t ∈ rest.head?, ¬IsEquals t) →
    p (used ++ rest) = .ok (e, rest)

def Stands {α : Type} (item : Parser α) (used : List Token) (a : α) : Prop :=
  ∀ t d rest, t.kind = .delimiter d → d ≠ .leftParen → item (used ++ t :: rest) = .ok (a, t :: rest)

theorem Finds.stands {p : Parser Node} {used : List Token} {e : Node} (h : Finds p used e) :
    Stands p used e := by
  intro t d rest hk hd
  apply h _ (stopsAt_of_delimiter hk hd)
  rintro u ⟨⟩ ⟨ho, -⟩
  simp [hk] at ho

theorem separated_complete {α : Type} {item : Parser α} {args : List (List Token × α)}
    {joined : List Token} {r : Token} (hr : r.kind = .delimiter .rightParen)
    (hj : CommaJoined (args.map (·.1)) joined) (hne : args ≠ [])
    (h : ∀ arg ∈ args, Stands item arg.1 arg.2) (rest : List Token) {n : Nat}
    (hn : joined.length ≤ n) :
    separated item n (joined ++ r :: rest) = .ok (args.map (·.2), r :: rest) := by
  induction args generalizing joined n with
  | nil => exact absurd rfl hne
  | cons arg args ih =>
    have hf := h arg List.mem_cons_self
    cases args with
    | nil =>
      cases hj
      have hi := hf r _ rest hr (by decide)
      have hc : nextIs (.delimiter .comma) (r :: rest) = false := by simp [nextIs, hr]
      cases n with
      | zero =>
        simp only [separated, bind_eq_ok, pure_eq_ok]
        exact ⟨arg.2, _, hi, rfl, rfl⟩
      | succ n =>
        simp only [separated, bind_eq_ok]
        exact ⟨arg.2, _, hi, false, _, accept_eq_ok.2 (.inr ⟨rfl, hc, rfl⟩), rfl⟩
    | cons next args =>
      cases hj with
      | @more _ comma _ _ joined hk hj =>
        obtain ⟨n, rfl⟩ : ∃ m, n = m + 1 := ⟨n - 1, by simp at hn; omega⟩
        have hi := hf comma _ (joined ++ r :: rest) hk (by decide)
        have hs := ih hj (by simp) (fun a ha => h a (List.mem_cons_of_mem _ ha)) (n := n)
          (by simp at hn; omega)
        simp only [separated, bind_eq_ok, List.append_assoc, List.cons_append]
        refine ⟨arg.2, _, hi, true, _, accept_eq_ok.2 (.inl ⟨rfl, comma, rfl, hk⟩), ?_⟩
        simp only [if_true, bind_eq_ok, pure_eq_ok]
        exact ⟨_, _, hs, rfl, rfl⟩

theorem CommaJoined.exists_append {part : List Token} {parts : List (List Token)}
    {joined : List Token} (h : CommaJoined (part :: parts) joined) :
    ∃ tail, joined = part ++ tail := by
  cases h with
  | one => exact ⟨[], by simp⟩
  | more => exact ⟨_, rfl⟩

theorem CommaJoined.length_le {parts : List (List Token)} {joined : List Token}
    (h : CommaJoined parts joined) {part : List Token} (hp : part ∈ parts) :
    part.length ≤ joined.length := by
  induction h with
  | none => cases hp
  | one => simp_all
  | more _ _ ih =>
    rcases List.mem_cons.1 hp with rfl | hp
    · simp
    · have := ih hp
      simp only [List.length_append, List.length_cons]
      omega

theorem listed_complete {α : Type} {item : Parser α} {args : List (List Token × α)}
    {inside : List Token} {r : Token} (hr : r.kind = .delimiter .rightParen)
    (hj : CommaJoined (args.map (·.1)) inside)
    (hd : ∀ arg ∈ args, ∀ rest, nextIs (.delimiter .rightParen) (arg.1 ++ rest) = false)
    (h : ∀ arg ∈ args, Stands item arg.1 arg.2) (rest : List Token) :
    listed item (inside ++ r :: rest) = .ok (args.map (·.2), rest) := by
  have hclose : expectDelimiter .rightParen (r :: rest) = .ok ((), rest) :=
    expectDelimiter_eq_ok.2 ⟨r, rfl, hr⟩
  simp only [listed, bind_eq_ok]
  refine ⟨_, _, get_eq_ok.2 ⟨rfl, rfl⟩, ?_⟩
  cases args with
  | nil =>
    cases hj
    rw [if_pos (by simp [nextIs, hr])]
    simp only [bind_eq_ok, pure_eq_ok]
    exact ⟨_, _, hclose, rfl, rfl⟩
  | cons arg args =>
    have hfirst : nextIs (.delimiter .rightParen) (inside ++ r :: rest) = false := by
      obtain ⟨tail, rfl⟩ := hj.exists_append
      rw [List.append_assoc]
      exact hd arg List.mem_cons_self _
    rw [if_neg (by simp [hfirst])]
    have hs := separated_complete hr hj (by simp) h rest (n := (inside ++ r :: rest).length) (by simp)
    simp only [bind_eq_ok, pure_eq_ok]
    exact ⟨_, _, get_eq_ok.2 ⟨rfl, rfl⟩, _, _, hs, _, _, hclose, rfl, rfl⟩

/-! The induction on derivations. -/

/-- What reading makes of the tokens of a derivation. Below assignments it comes to the chain of the
stratum with the whole tree on its left; `n` bounds how deep expressions nest in each other. -/
def Completes (s : Stratum) (used : List Token) (e : Node) : Prop :=
  ∀ n, used.length ≤ n →
    if s = .assignment then Finds (assignment (expression n)) used e
    else ∀ rest, StopsAt s.next.binaries used rest → ∃ k, rest.length ≤ k ∧
      s.reader (expression n) (used ++ rest) =
        chainFrom s.op? (s.next.reader (expression n)) k e rest

theorem Completes.finds {used : List Token} {e : Node} (h : Completes .assignment used e) {n : Nat}
    (hn : used.length < n) : Finds (expression n) used e := by
  obtain ⟨n, rfl⟩ : ∃ m, n = m + 1 := ⟨n - 1, by omega⟩
  exact h n (by omega)

theorem Completes.reader_eq {s : Stratum} {used : List Token} {e : Node} (h : Completes s used e)
    (hs : s ≠ .assignment) {n : Nat} (hn : used.length ≤ n) {rest : List Token}
    (hstop : StopsAt s.binaries used rest) :
    s.reader (expression n) (used ++ rest) = .ok (e, rest) := by
  have hc := h n hn
  rw [if_neg hs] at hc
  obtain ⟨k, -, hk⟩ := hc rest (hstop.mono (Stratum.binaries_next_subset hs))
  rw [hk]
  exact chainFrom_stop hstop id

theorem completes_tighter {s : Stratum} {used : List Token} {e : Node} (hd : Derives s.next used e)
    (h : Completes s.next used e) : Completes s used e := by
  intro n hn
  cases s with
  | assignment =>
    rw [if_pos rfl]
    intro rest hstop heq
    have ho : operation (expression n) (used ++ rest) = .ok (e, rest) :=
      h.reader_eq (by decide) hn hstop
    simp only [assignment, ho]
    cases rest with
    | nil => rfl
    | cons t us =>
      have ht : isOperator "=" t ≠ true := fun ht => heq t rfl (isOperator_equals_iff.1 ht)
      simp only [if_neg ht]
  | unary =>
    rw [if_neg (by decide)]
    intro rest hstop
    have hp := h.reader_eq (by decide) hn hstop
    obtain ⟨t, us, rfl, ht | ⟨hne, -⟩⟩ := hd.exists_cons
    · refine ⟨rest.length, Nat.le_refl _, ?_⟩
      rw [chainFrom_stop hstop (by decide)]
      change unary (primary (expression n)) (t :: (us ++ rest)) = _
      simp only [unary, ht.unaryOf_eq_none]
      exact hp
    · exact absurd rfl hne
  | primary => exact h n hn
  | or | and | equality | relational | additive | multiplicative =>
    rw [if_neg (by decide)]
    intro rest hstop
    have hp := h.reader_eq (by decide) hn hstop
    refine ⟨rest.length, Nat.le_refl _, ?_⟩
    rw [Stratum.reader_binary (by decide)]
    simp only [chain]
    rw [bind_apply hp]
    rfl

theorem completes_assign {left right : List Token} {equals : Token} {name : String} {value : Node}
    (he : IsEquals equals) (hl : Completes .or left (.path name))
    (hr : Completes .assignment right value) :
    Completes .assignment (left ++ equals :: right) (.assign name value) := by
  intro n hn
  rw [if_pos rfl]
  simp only [List.length_append, List.length_cons] at hn
  intro rest hstop heq
  have ho : operation (expression n) (left ++ equals :: (right ++ rest)) =
      .ok (.path name, equals :: (right ++ rest)) :=
    hl.reader_eq (by decide) (by omega) (stopsAt_of_isEquals he)
  have hi : expression n (right ++ rest) = .ok (value, rest) := by
    apply hr.finds (by omega) rest _ heq
    exact StopsAt.suffix (left ++ [equals]) (by simpa using hstop)
  simp only [assignment, List.append_assoc, List.cons_append, ho, isOperator_equals_iff.2 he,
    if_true, hi]

theorem completes_binary {s : Stratum} {left right : List Token} {t : Token} {op : BinaryOp}
    {a b : Node} (hw : s.Writes t op) (hl : Completes s left a) (hr : Completes s.next right b) :
    Completes s (left ++ t :: right) (.binary op a b) := by
  intro n hn
  have hs := Stratum.self_mem_binaries hw.mem_binaries
  have hns : s.next ≠ .assignment := by cases s <;> decide
  rw [if_neg hs]
  simp only [List.length_append, List.length_cons] at hn
  intro rest hstop
  have hc := hl n (by omega)
  rw [if_neg hs] at hc
  obtain ⟨k, hk, hread⟩ := hc (t :: (right ++ rest)) (stopsAt_of_writes hw)
  obtain ⟨k, rfl⟩ : ∃ m, k = m + 1 := ⟨k - 1, by simp at hk; omega⟩
  have hb : s.next.reader (expression n) (right ++ rest) = .ok (b, rest) :=
    hr.reader_eq hns (by omega) (StopsAt.suffix (left ++ [t]) (by simpa using hstop))
  refine ⟨k, by simp at hk; omega, ?_⟩
  rw [List.append_assoc, List.cons_append, hread]
  simp only [chainFrom, Stratum.op?_eq_some_iff.2 hw, hb]

theorem completes_unary {t : Token} {op : UnaryOp} {used : List Token} {e : Node}
    (hw : WritesUnary t op) (h : Completes .unary used e) :
    Completes .unary (t :: used) (.unary op e) := by
  intro n hn
  rw [if_neg (by decide)]
  simp only [List.length_cons] at hn
  intro rest hstop
  have hu : unary (primary (expression n)) (used ++ rest) = .ok (e, rest) :=
    h.reader_eq (by decide) (by omega) (StopsAt.suffix [t] hstop)
  refine ⟨rest.length, Nat.le_refl _, ?_⟩
  rw [chainFrom_stop hstop (by decide)]
  change unary (primary (expression n)) (t :: (used ++ rest)) = _
  simp only [unary, unaryOf_eq_some_iff.2 hw, hu]

theorem completes_primary {used : List Token} {e : Node}
    (h : ∀ n rest, used.length ≤ n → StopsAt [] used rest →
      primary (expression n) (used ++ rest) = .ok (e, rest)) : Completes .primary used e := by
  intro n hn
  rw [if_neg (by decide)]
  intro rest hstop
  refine ⟨rest.length, Nat.le_refl _, ?_⟩
  rw [chainFrom_stop hstop (by decide)]
  exact h n rest hn hstop

theorem completes_call {t l r : Token} {args : List (List Token × Node)} {inside : List Token}
    (ht : t.kind = .identifier) (hl : l.kind = .delimiter .leftParen)
    (hr : r.kind = .delimiter .rightParen) (hj : CommaJoined (args.map (·.1)) inside)
    (hd : ∀ arg ∈ args, Derives .assignment arg.1 arg.2)
    (h : ∀ arg ∈ args, Completes .assignment arg.1 arg.2) :
    Completes .primary (t :: l :: (inside ++ [r])) (.call t.text (args.map (·.2))) := by
  apply completes_primary
  intro n rest hn _
  simp only [List.length_cons, List.length_append, List.length_nil] at hn
  have hf : ∀ arg ∈ args, Stands (expression n) arg.1 arg.2 := by
    intro arg ha
    have := hj.length_le (List.mem_map_of_mem ha)
    exact ((h arg ha).finds (by omega)).stands
  have hp : nextIs (.delimiter .leftParen) (l :: (inside ++ r :: rest)) = true := by
    simp [nextIs, hl]
  simp only [primary, List.cons_append, List.append_assoc, List.nil_append, ht, hp, if_true,
    List.tail_cons]
  rw [bind_apply (listed_complete hr hj (fun arg ha => (hd arg ha).not_rightParen) hf rest)]
  rfl

theorem completes_group {l r : Token} {used : List Token} {e : Node}
    (hl : l.kind = .delimiter .leftParen) (hr : r.kind = .delimiter .rightParen)
    (h : Completes .assignment used e) : Completes .primary (l :: (used ++ [r])) e := by
  apply completes_primary
  intro n rest hn _
  simp only [List.length_cons, List.length_append, List.length_nil] at hn
  have hi := (h.finds (n := n) (by omega)).stands r _ rest hr (by decide)
  have hclose : expectDelimiter .rightParen (r :: rest) = .ok ((), rest) :=
    expectDelimiter_eq_ok.2 ⟨r, rfl, hr⟩
  simp only [primary, List.cons_append, List.append_assoc, List.nil_append, hl]
  rw [bind_apply hi, bind_apply hclose]
  rfl

theorem Derives.completes {s : Stratum} {used : List Token} {e : Node} (h : Derives s used e) :
    Completes s used e := by
  induction h with
  | tighter hd ih => exact completes_tighter hd ih
  | assign _ he _ hl hr => exact completes_assign he hl hr
  | binary _ hw _ hl hr => exact completes_binary hw hl hr
  | unary hw _ ih => exact completes_unary hw ih
  | number hk hx =>
    apply completes_primary
    intro n rest _ _
    simp only [primary, List.cons_append, List.nil_append, hk, hx]
  | text hk | truth hk | falsehood hk | null hk =>
    apply completes_primary
    intro n rest _ _
    simp only [primary, List.cons_append, List.nil_append, hk, Node.null]
  | @path t hk =>
    apply completes_primary
    intro n rest _ hstop
    have hp : nextIs (.delimiter .leftParen) rest ≠ true := by
      intro hp
      obtain ⟨l, us, rfl, hl⟩ := nextIs_iff.1 hp
      exact (hstop l rfl).2 ⟨hl, t, rfl, hk⟩
    simp only [primary, List.cons_append, List.nil_append, hk, if_neg hp]
  | call ht hl hr hj hd ih => exact completes_call ht hl hr hj hd ih
  | group hl hr _ ih => exact completes_group hl hr ih

theorem expression_complete {used rest : List Token} {e : Node} (h : Derives .assignment used e)
    (hstop : ∀ t ∈ rest.head?, ¬Continues used t) {n : Nat} (hn : used.length < n) :
    expression n (used ++ rest) = .ok (e, rest) := by
  apply h.completes.finds hn
  · intro t ht
    exact ⟨fun s _ op hw => hstop t ht (.inl ⟨s, op, hw⟩), fun ho => hstop t ht (.inr (.inr ho))⟩
  · intro t ht he
    exact hstop t ht (.inr (.inl he))

/-- Reading an expression accepts exactly the grammar. What is read from place `i` to place `j` has a
derivation, and what has a derivation is read, if the token at place `j` does not go on with it. -/
theorem expression_accepts_grammar (tokens : List Token) (i n : Nat) (e : Node) :
    (∀ rest, expression n (tokens.drop i) = .ok (e, rest) →
      ∃ j, rest = tokens.drop j ∧ Derives .assignment ((tokens.take j).drop i) e) ∧
    (∀ j, tokens.length < n → Derives .assignment ((tokens.take j).drop i) e →
      (∀ t ∈ tokens[j]?, ¬Continues ((tokens.take j).drop i) t) →
      expression n (tokens.drop i) = .ok (e, tokens.drop j)) := by
  constructor
  · intro rest h
    obtain ⟨used, hu, hd⟩ := expression_sound n _ _ _ h
    refine ⟨i + used.length, ?_, ?_⟩
    · rw [← List.drop_drop, hu, List.drop_left]
    · rwa [List.drop_take, hu, Nat.add_sub_cancel_left, List.take_left]
  · intro j hn hd hstop
    obtain ⟨t, us, hne, -⟩ := hd.exists_cons
    have hij : i ≤ j := by
      apply Nat.le_of_not_lt
      intro hlt
      have hnil : (tokens.take j).drop i = [] :=
        List.drop_eq_nil_of_le (Nat.le_trans (List.length_take_le j tokens) (by omega))
      simp [hnil] at hne
    have hsplit : tokens.drop i = (tokens.take j).drop i ++ tokens.drop j := by
      rw [List.drop_take, ← Nat.add_sub_cancel' hij, ← List.drop_drop, Nat.add_sub_cancel_left,
        List.take_append_drop]
    rw [hsplit]
    refine expression_complete hd (fun t ht => hstop t ?_) ?_
    · rwa [← List.head?_drop]
    · simp only [List.length_drop, List.length_take]
      omega

theorem expression_accepts_differences :
    let name := fun s => (⟨.identifier, s, .start⟩ : Token)
    let sign := fun s => (⟨.operator, s, .start⟩ : Token)
    let tokens := [name "f", name "a", sign "-", name "b", sign "*", name "c", sign "-", name "d",
      ⟨.delimiter .rightParen, ")", .start⟩]
    let e := Node.binary .sub
      (.binary .sub (.path "a") (.binary .mul (.path "b") (.path "c"))) (.path "d")
    expression 10 (tokens.drop 1) = .ok (e, tokens.drop 8) ∧
      ∃ j, tokens.drop 8 = tokens.drop j ∧ Derives .assignment ((tokens.take j).drop 1) e := by
  intro name sign tokens e
  have hname (s : String) : Derives .unary [name s] (.path s) := .tighter (.path rfl)
  have hproduct : Derives .multiplicative ([name "b"] ++ sign "*" :: [name "c"])
      (.binary .mul (.path "b") (.path "c")) :=
    .binary (.tighter (hname "b")) (.inl ⟨rfl, by decide⟩) (hname "c")
  have hfirst : Derives .additive ([name "a"] ++ sign "-" :: [name "b", sign "*", name "c"])
      (.binary .sub (.path "a") (.binary .mul (.path "b") (.path "c"))) :=
    .binary (.tighter (.tighter (hname "a"))) (.inl ⟨rfl, by decide⟩) hproduct
  have hall : Derives .additive
      ([name "a", sign "-", name "b", sign "*", name "c"] ++ sign "-" :: [name "d"]) e :=
    .binary hfirst (.inl ⟨rfl, by decide⟩) (.tighter (hname "d"))
  have hread : expression 10 (tokens.drop 1) = .ok (e, tokens.drop 8) := by
    refine (expression_accepts_grammar tokens 1 10 e).2 8 (by decide) ?_ ?_
    · exact .tighter (.tighter (.tighter (.tighter (.tighter hall))))
    · rintro t ⟨⟩ (⟨s, op, hw⟩ | ⟨hk, -⟩ | ⟨hk, -⟩)
      · exact hw.kind_ne_delimiter _ rfl
      · cases hk
      · cases hk
  exact ⟨hread, (expression_accepts_grammar tokens 1 10 e).1 _ hread⟩

end Parlance.Grammar
