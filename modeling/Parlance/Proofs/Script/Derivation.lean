import Parlance.Proofs.Script.Reading

/-! The grammar of expressions as a relation. An expression belongs to a stratum; a stratum holds
the expressions of every tighter one, and the operators of a binary stratum group to the left. The
relation knows nothing of the order in which tokens are read, so it says which trees a list of
tokens may have, and not how one is found. Reading an expression follows a derivation. -/

namespace Parlance.Grammar
open Token (Kind)

/-- The strata of expressions, the loosest first. -/
inductive Stratum where
  | assignment | or | and | equality | relational | additive | multiplicative | unary | primary
  deriving DecidableEq

namespace Stratum

def next : Stratum → Stratum
  | assignment => or
  | or => and
  | and => equality
  | equality => relational
  | relational => additive
  | additive => multiplicative
  | multiplicative => unary
  | unary => primary
  | primary => primary

def signs : Stratum → List (String × BinaryOp)
  | or => [("||", .or)]
  | and => [("&&", .and)]
  | equality => [("==", .eq), ("!=", .ne)]
  | relational => [("<", .lt), (">", .gt), ("<=", .le), (">=", .ge)]
  | additive => [("+", .add), ("-", .sub)]
  | multiplicative => [("*", .mul), ("/", .div), ("%", .mod)]
  | _ => []

def word? : Stratum → Option (Keyword × BinaryOp)
  | or => some (.orWord, .or)
  | and => some (.andWord, .and)
  | _ => none

def Writes (s : Stratum) (t : Token) (op : BinaryOp) : Prop :=
  t.kind = .operator ∧ (t.text, op) ∈ s.signs ∨ ∃ k, t.kind = .keyword k ∧ s.word? = some (k, op)

end Stratum

def WritesUnary (t : Token) (op : UnaryOp) : Prop :=
  t.kind = .operator ∧ (t.text, op) ∈ [("-", UnaryOp.neg), ("!", UnaryOp.bang)] ∨
    t.kind = .keyword .notWord ∧ op = .not

def IsEquals (t : Token) : Prop := t.kind = .operator ∧ t.text = "="

inductive CommaJoined : List (List Token) → List Token → Prop
  | none : CommaJoined [] []
  | one (part : List Token) : CommaJoined [part] part
  | more {part : List Token} {comma : Token} {next : List Token} {parts : List (List Token)}
      {joined : List Token} : comma.kind = .delimiter .comma → CommaJoined (next :: parts) joined →
      CommaJoined (part :: next :: parts) (part ++ comma :: joined)

/-- The tokens form an expression of the stratum with this tree. -/
inductive Derives : Stratum → List Token → Node → Prop
  | tighter {s : Stratum} {ts : List Token} {e : Node} : Derives s.next ts e → Derives s ts e
  | assign {left right : List Token} {equals : Token} {name : String} {value : Node} :
      Derives .or left (.path name) → IsEquals equals → Derives .assignment right value →
      Derives .assignment (left ++ equals :: right) (.assign name value)
  | binary {s : Stratum} {left right : List Token} {t : Token} {op : BinaryOp} {a b : Node} :
      Derives s left a → s.Writes t op → Derives s.next right b →
      Derives s (left ++ t :: right) (.binary op a b)
  | unary {t : Token} {op : UnaryOp} {ts : List Token} {e : Node} :
      WritesUnary t op → Derives .unary ts e → Derives .unary (t :: ts) (.unary op e)
  | number {t : Token} {x : Float} : t.kind = .number → Decimal.read t.text.toList = .ok x →
      Derives .primary [t] (.literal (.number x))
  | text {t : Token} : t.kind = .string → Derives .primary [t] (.literal (.text t.text))
  | truth {t : Token} : t.kind = .keyword .trueWord → Derives .primary [t] (.literal (.bool true))
  | falsehood {t : Token} : t.kind = .keyword .falseWord →
      Derives .primary [t] (.literal (.bool false))
  | null {t : Token} : t.kind = .keyword .nullWord → Derives .primary [t] (.literal .null)
  | path {t : Token} : t.kind = .identifier → Derives .primary [t] (.path t.text)
  | call {t l r : Token} {args : List (List Token × Node)} {inside : List Token} :
      t.kind = .identifier → l.kind = .delimiter .leftParen → r.kind = .delimiter .rightParen →
      CommaJoined (args.map (·.1)) inside → (∀ arg ∈ args, Derives .assignment arg.1 arg.2) →
      Derives .primary (t :: l :: (inside ++ [r])) (.call t.text (args.map (·.2)))
  | group {l r : Token} {ts : List Token} {e : Node} :
      l.kind = .delimiter .leftParen → r.kind = .delimiter .rightParen →
      Derives .assignment ts e → Derives .primary (l :: (ts ++ [r])) e

theorem find?_text_eq_some_iff {ops : List BinaryOp} (h : (ops.map BinaryOp.text).Nodup)
    {sign : String} {op : BinaryOp} :
    ops.find? (·.text == sign) = some op ↔ (sign, op) ∈ ops.map fun o => (o.text, o) := by
  induction ops with
  | nil => simp
  | cons o ops ih =>
    simp only [List.map_cons, List.nodup_cons] at h
    by_cases ho : o.text = sign
    · have hrest : (sign, op) ∉ ops.map fun o => (o.text, o) := by
        intro hm
        obtain ⟨o', hm', he⟩ := List.mem_map.1 hm
        cases he
        exact h.1 (ho ▸ List.mem_map_of_mem hm')
      simp only [List.find?_cons, ho, beq_self_eq_true, List.map_cons, List.mem_cons, hrest, or_false,
        Option.some.injEq, Prod.mk.injEq, true_and]
      exact eq_comm
    · have hne : (sign, op) ≠ (o.text, o) := by
        intro he
        cases he
        exact ho rfl
      simp only [List.find?_cons, beq_false_of_ne ho, List.map_cons, List.mem_cons, hne, false_or]
      exact ih h.2

theorem symbolOf_eq_some_iff {ops : List BinaryOp} (h : (ops.map BinaryOp.text).Nodup) {t : Token}
    {op : BinaryOp} : symbolOf ops t = some op ↔
      t.kind = .operator ∧ (t.text, op) ∈ ops.map fun o => (o.text, o) := by
  simp only [symbolOf]
  split
  · next hk => simp only [find?_text_eq_some_iff h, hk, true_and]
  · next hk => simp only [hk, false_and, reduceCtorEq]

theorem connective_eq_some_iff {word : Keyword} {symbol : String} {op op' : BinaryOp} {t : Token} :
    connective word symbol op t = some op' ↔ t.kind = .operator ∧ (t.text, op') ∈ [(symbol, op)] ∨
      ∃ k, t.kind = .keyword k ∧ some (word, op) = some (k, op') := by
  simp only [connective, isOperator]
  by_cases hk : t.kind = .keyword word
  · simp [hk]
  · have hw : ¬∃ k, t.kind = .keyword k ∧ some (word, op) = some (k, op') := by
      rintro ⟨k, hk', he⟩
      cases he
      exact hk hk'
    by_cases ho : t.kind = .operator
    · by_cases ht : t.text = symbol <;> simp [ho, ht, @eq_comm _ op op']
    · simp only [hw, ho, false_and, or_false, iff_false]
      simp [hk, ho]

/-! The reader of each stratum. -/

namespace Stratum

def op? : Stratum → Token → Option BinaryOp
  | or => connective .orWord "||" .or
  | and => connective .andWord "&&" .and
  | equality => symbolOf [.eq, .ne]
  | relational => symbolOf [.lt, .gt, .le, .ge]
  | additive => symbolOf [.add, .sub]
  | multiplicative => symbolOf [.mul, .div, .mod]
  | _ => fun _ => none

theorem op?_eq_some_iff {s : Stratum} {t : Token} {op : BinaryOp} :
    s.op? t = some op ↔ s.Writes t op := by
  unfold Writes
  cases s with
  | or | and => exact connective_eq_some_iff
  | equality | relational | additive | multiplicative =>
    rw [show op? _ = symbolOf _ from rfl, symbolOf_eq_some_iff (by decide)]
    simp [signs, word?, BinaryOp.text]
  | assignment | unary | primary => simp [op?, signs, word?]

end Stratum

theorem unaryOf_eq_some_iff {t : Token} {op : UnaryOp} :
    unaryOf t = some op ↔ WritesUnary t op := by
  simp only [unaryOf, isOperator, WritesUnary]
  by_cases ho : t.kind = .operator
  · by_cases hm : t.text = "-"
    · simp [ho, hm, @eq_comm _ _ op]
    · by_cases hb : t.text = "!" <;> simp [ho, hm, hb, @eq_comm _ _ op]
  · by_cases hn : t.kind = .keyword .notWord <;> simp [ho, hn, @eq_comm _ _ op]

theorem isOperator_equals_iff {t : Token} : isOperator "=" t = true ↔ IsEquals t := by
  simp [isOperator, IsEquals]

/-! Every tree that is read has a derivation from the tokens that were taken for it. -/

def Sound (s : Stratum) (p : Parser Node) : Prop :=
  ∀ ts e rest, p ts = .ok (e, rest) → ∃ used, ts = used ++ rest ∧ Derives s used e

theorem separated_sound {item : Parser Node} (h : Sound .assignment item) {n : Nat}
    {ts rest : List Token} {es : List Node} (hr : separated item n ts = .ok (es, rest)) :
    ∃ (args : List (List Token × Node)) (joined : List Token), args ≠ [] ∧ ts = joined ++ rest ∧ CommaJoined (args.map (·.1)) joined ∧
      (∀ arg ∈ args, Derives .assignment arg.1 arg.2) ∧ es = args.map (·.2) := by
  induction n generalizing ts rest es with
  | zero =>
    simp only [separated, bind_eq_ok, pure_eq_ok] at hr
    obtain ⟨e, mid, he, rfl, rfl⟩ := hr
    obtain ⟨used, rfl, hd⟩ := h _ _ _ he
    exact ⟨[(used, e)], used, by simp, rfl, .one used, by simpa using hd, rfl⟩
  | succ n ih =>
    simp only [separated, bind_eq_ok] at hr
    obtain ⟨e, mid, he, comma, mid', hc, hr⟩ := hr
    obtain ⟨used, rfl, hd⟩ := h _ _ _ he
    rcases accept_eq_ok.1 hc with ⟨rfl, c, rfl, hk⟩ | ⟨rfl, -, rfl⟩
    · simp only [if_true, bind_eq_ok, pure_eq_ok] at hr
      obtain ⟨es', mid'', hs, rfl, rfl⟩ := hr
      obtain ⟨args, joined, hne, rfl, hj, hds, rfl⟩ := ih hs
      obtain ⟨arg, args, rfl⟩ := List.exists_cons_of_ne_nil hne
      refine ⟨(used, e) :: arg :: args, used ++ c :: joined, by simp, by simp, .more hk hj, ?_, rfl⟩
      intro a ha
      rcases List.mem_cons.1 ha with rfl | ha
      · exact hd
      · exact hds a ha
    · simp only [Bool.false_eq_true, if_false, pure_eq_ok] at hr
      obtain ⟨rfl, rfl⟩ := hr
      exact ⟨[(used, e)], used, by simp, rfl, .one used, by simpa using hd, rfl⟩

theorem listed_sound {item : Parser Node} (h : Sound .assignment item) {ts rest : List Token}
    {es : List Node} (hr : listed item ts = .ok (es, rest)) :
    ∃ (args : List (List Token × Node)) (inside : List Token) (r : Token), ts = inside ++ r :: rest ∧ r.kind = .delimiter .rightParen ∧
      CommaJoined (args.map (·.1)) inside ∧ (∀ arg ∈ args, Derives .assignment arg.1 arg.2) ∧
      es = args.map (·.2) := by
  simp only [listed, bind_eq_ok, get_eq_ok] at hr
  obtain ⟨_, _, ⟨rfl, rfl⟩, hr⟩ := hr
  split at hr
  · simp only [bind_eq_ok, expectDelimiter_eq_ok, pure_eq_ok] at hr
    obtain ⟨_, _, ⟨r, rfl, hk⟩, rfl, rfl⟩ := hr
    exact ⟨[], [], r, rfl, hk, .none, by simp, rfl⟩
  · simp only [bind_eq_ok, get_eq_ok, expectDelimiter_eq_ok, pure_eq_ok] at hr
    obtain ⟨_, _, ⟨rfl, rfl⟩, es', mid, hs, _, _, ⟨r, rfl, hk⟩, rfl, rfl⟩ := hr
    obtain ⟨args, joined, -, rfl, hj, hds, rfl⟩ := separated_sound h hs
    exact ⟨args, joined, r, rfl, hk, hj, hds, rfl⟩

theorem primary_sound {inner : Parser Node} (h : Sound .assignment inner) :
    Sound .primary (primary inner) := by
  intro ts e rest hr
  cases ts with
  | nil => simp [primary] at hr
  | cons t us =>
    simp only [primary] at hr
    split at hr
    · next hk =>
      split at hr
      · next x hx =>
        cases hr
        exact ⟨[t], rfl, .number hk hx⟩
      · cases hr
    · next hk => cases hr; exact ⟨[t], rfl, .text hk⟩
    · next hk => cases hr; exact ⟨[t], rfl, .truth hk⟩
    · next hk => cases hr; exact ⟨[t], rfl, .falsehood hk⟩
    · next hk => cases hr; exact ⟨[t], rfl, .null hk⟩
    · next hk =>
      split at hr
      · next hp =>
        obtain ⟨l, vs, rfl, hl⟩ := nextIs_iff.1 hp
        simp only [bind_eq_ok, pure_eq_ok, List.tail_cons] at hr
        obtain ⟨es, mid, hs, rfl, rfl⟩ := hr
        obtain ⟨args, inside, r, rfl, hrp, hj, hds, rfl⟩ := listed_sound h hs
        exact ⟨t :: l :: (inside ++ [r]), by simp, .call hk hl hrp hj hds⟩
      · cases hr
        exact ⟨[t], rfl, .path hk⟩
    · next hk =>
      simp only [bind_eq_ok, expectDelimiter_eq_ok, pure_eq_ok] at hr
      obtain ⟨e', mid, he, _, _, ⟨r, rfl, hrp⟩, rfl, rfl⟩ := hr
      obtain ⟨used, rfl, hd⟩ := h _ _ _ he
      exact ⟨t :: (used ++ [r]), by simp, .group hk hrp hd⟩
    · cases hr
    · cases hr

theorem unary_sound {operand : Parser Node} (h : Sound .primary operand) :
    Sound .unary (unary operand) := by
  intro ts
  induction ts with
  | nil =>
    intro e rest hr
    obtain ⟨used, hu, hd⟩ := h _ _ _ hr
    exact ⟨used, hu, .tighter hd⟩
  | cons t us ih =>
    intro e rest hr
    simp only [unary] at hr
    split at hr
    · obtain ⟨used, hu, hd⟩ := h _ _ _ hr
      exact ⟨used, hu, .tighter hd⟩
    · next op hop =>
      split at hr
      · cases hr
      · next e' rest' he =>
        cases hr
        obtain ⟨used, rfl, hd⟩ := ih _ _ he
        exact ⟨t :: used, rfl, .unary (unaryOf_eq_some_iff.1 hop) hd⟩

theorem chainFrom_sound {s : Stratum} {operand : Parser Node} (h : Sound s.next operand) {n : Nat}
    {left : List Token} {a : Node} (ha : Derives s left a) {ts rest : List Token} {e : Node}
    (hr : chainFrom s.op? operand n a ts = .ok (e, rest)) :
    ∃ used, ts = used ++ rest ∧ Derives s (left ++ used) e := by
  -- `left` is what the chain has taken so far; each lap adds an operator and an operand to it.
  induction n generalizing left a ts with
  | zero =>
    simp only [chainFrom, pure_eq_ok] at hr
    obtain ⟨rfl, rfl⟩ := hr
    exact ⟨[], rfl, by simpa using ha⟩
  | succ n ih =>
    simp only [chainFrom] at hr
    split at hr
    · cases hr
      exact ⟨[], rfl, by simpa using ha⟩
    · next t us =>
      split at hr
      · cases hr
        exact ⟨[], rfl, by simpa using ha⟩
      · next op hop =>
        split at hr
        · cases hr
        · next b mid hb =>
          obtain ⟨right, rfl, hd⟩ := h _ _ _ hb
          obtain ⟨used, rfl, he⟩ := ih (.binary ha (Stratum.op?_eq_some_iff.1 hop) hd) hr
          exact ⟨t :: (right ++ used), by simp, by simpa using he⟩

theorem chain_sound {s : Stratum} {operand : Parser Node} (h : Sound s.next operand) :
    Sound s (chain s.op? operand) := by
  intro ts e rest hr
  simp only [chain, bind_eq_ok, get_eq_ok] at hr
  obtain ⟨a, mid, ha, _, _, ⟨rfl, rfl⟩, hc⟩ := hr
  obtain ⟨left, rfl, hd⟩ := h _ _ _ ha
  obtain ⟨used, rfl, he⟩ := chainFrom_sound h (.tighter hd) hc
  exact ⟨left ++ used, by simp, he⟩

theorem operation_sound {inner : Parser Node} (h : Sound .assignment inner) :
    Sound .or (operation inner) :=
  chain_sound (s := .or) (chain_sound (s := .and) (chain_sound (s := .equality)
    (chain_sound (s := .relational) (chain_sound (s := .additive)
      (chain_sound (s := .multiplicative) (unary_sound (primary_sound h)))))))

theorem assignment_sound {inner : Parser Node} (h : Sound .assignment inner) :
    Sound .assignment (assignment inner) := by
  intro ts e rest hr
  simp only [assignment] at hr
  split at hr
  · cases hr
  · next left hl =>
    cases hr
    obtain ⟨used, hu, hd⟩ := operation_sound h _ _ _ hl
    exact ⟨used, hu, .tighter hd⟩
  · next left t us hl =>
    obtain ⟨used, rfl, hd⟩ := operation_sound h _ _ _ hl
    split at hr
    · next ht =>
      split at hr
      · cases hr
      · next value mid hv =>
        obtain ⟨right, rfl, hd'⟩ := h _ _ _ hv
        split at hr
        · cases hr
          exact ⟨used ++ t :: right, by simp, .assign hd (isOperator_equals_iff.1 ht) hd'⟩
        · cases hr
    · cases hr
      exact ⟨used, rfl, .tighter hd⟩

theorem expression_sound (n : Nat) : Sound .assignment (expression n) := by
  induction n with
  | zero =>
    intro ts e rest hr
    simp [expression] at hr
  | succ n ih => exact assignment_sound ih

end Parlance.Grammar
