import Parlance.Proofs.Script.Joining

/-! Statements and scripts across a seam. A statement that ends where the first list does may have
taken a line end from the second; nothing else tells them apart, as long as no `else` comes next. So
the statements of a script are followed by those of the next one. -/

namespace Parlance.Grammar
open Token (Kind)
variable {base us vs : List Token}

section Statements
variable {expr expr' inner inner' : Parser Node}
  (he : Follows (Joined base) (Joined base) expr expr')
  (hi : Follows (Resumed base) (Resumed base) inner inner')
  (helse : nextIs (.keyword .elseWord) base = false)

include he in
theorem condition_follows :
    Follows (Joined base) (Joined base) (condition expr) (condition expr') :=
  (expectDelimiter_follows _).bind fun _ => he.bind fun e =>
    (expectDelimiter_follows _).bind fun _ => .pure e

include hi in
theorem body_follows : Follows (Joined base) (Resumed base) (body inner) (body inner') :=
  (skipLineEnds_follows.bind fun _ => hi).weaken fun _ _ h => h.resumed

theorem acceptElse_eq (ts : List Token) : acceptElse ts =
    if nextIs (.keyword .elseWord) (dropLineEnds ts) then .ok (true, (dropLineEnds ts).tail)
    else .ok (false, ts) := rfl

include helse in
theorem acceptElse_follows (hr : Resumed base us vs) :
    (∃ us' vs', acceptElse us = .ok (true, us') ∧ acceptElse vs = .ok (true, vs') ∧
      Joined base us' vs') ∨
    acceptElse us = .ok (false, us) ∧ acceptElse vs = .ok (false, vs) := by
  rw [acceptElse_eq, acceptElse_eq]
  cases hend : atEnd (dropLineEnds us) with
  | true =>
    have hu : nextIs (.keyword .elseWord) (dropLineEnds us) = false :=
      nextIs_of_atEnd hend (by simp)
    rw [hr.dropLineEnds_eq hend, hu, helse]
    exact .inr ⟨rfl, rfl⟩
  | false =>
    have hj := hr.dropLineEnds.joined hend
    have heq : nextIs (.keyword .elseWord) (dropLineEnds us) =
        nextIs (.keyword .elseWord) (dropLineEnds vs) := hj.nextIs_eq (by simp) (by simp)
    rw [← heq]
    cases hu : nextIs (.keyword .elseWord) (dropLineEnds us) with
    | false => exact .inr ⟨rfl, rfl⟩
    | true =>
      refine .inl ⟨_, _, rfl, rfl, ?_⟩
      rcases hj.heads with ⟨t, u, us', vs', hus, hvs, -, -, hj'⟩ | ⟨hends, -⟩
      · rw [hus, hvs]
        exact hj'
      · obtain ⟨t, us', hus, hk⟩ := nextIs_iff.1 hu
        rcases hends t (by rw [hus]; rfl) with h | h <;> simp [hk] at h

include he hi helse in
theorem branch_follows :
    Follows (Joined base) (Resumed base) (branch expr inner) (branch expr' inner') := by
  refine (condition_follows he).bind fun test => (body_follows hi).bind fun yes => ?_
  intro us vs node us' hr hn
  obtain ⟨found, mid, hf, hn⟩ := bind_eq_ok.1 hn
  rcases acceptElse_follows helse hr with ⟨us₁, vs₁, hu, hv, hj⟩ | ⟨hu, hv⟩
  · rw [hu] at hf
    cases hf
    rw [bind_apply hv]
    exact (body_follows hi).bind (fun no => .pure _) _ _ _ _ hj hn
  · rw [hu] at hf
    cases hf
    rw [bind_apply hv]
    exact Follows.pure _ _ _ _ _ hr hn

include he hi in
theorem whileLoop_follows :
    Follows (Joined base) (Resumed base) (whileLoop expr inner) (whileLoop expr' inner') :=
  (condition_follows he).bind fun _ => (body_follows hi).bind fun _ => .pure _

include he in
theorem declaration_follows :
    Follows (Joined base) (Joined base) (declaration expr) (declaration expr') := by
  refine (expectName_follows _).bind fun name => ?_
  intro us vs node us' hj hn
  obtain ⟨_, _, hg, hn⟩ := bind_eq_ok.1 hn
  obtain ⟨rfl, rfl⟩ := get_eq_ok.1 hg
  have hget : (get : Parser (List Token)) vs = .ok (vs, vs) := rfl
  rw [bind_apply hget]
  rcases hj.heads with ⟨t, u, us₁, vs₁, rfl, rfl, hc, -, hj₁⟩ | ⟨hends, hends'⟩
  · simp only [← isOperator_congr hc] at hn ⊢
    split at hn
    · next heq =>
      rw [if_pos heq]
      exact he.bind (fun value => .pure _) _ _ _ _ hj₁ hn
    · next heq =>
      rw [if_neg heq]
      exact Follows.pure _ _ _ _ _ hj hn
  · obtain ⟨rfl, rfl⟩ : .assign name .null = node ∧ us = us' := by
      cases us with
      | nil => exact pure_eq_ok.1 hn
      | cons t us =>
        simp only [(hends t rfl).isOperator_eq_false] at hn
        exact pure_eq_ok.1 hn
    refine ⟨vs, ?_, hj⟩
    cases vs with
    | nil => rfl
    | cons v vs =>
      simp only [(hends' v rfl).isOperator_eq_false]
      rfl

include he hi in
theorem forLoop_follows :
    Follows (Joined base) (Resumed base) (forLoop expr inner) (forLoop expr' inner') := by
  refine (expectDelimiter_follows _).bind fun _ =>
    (accept_follows (by simp) (by simp)).bind fun isVar => ?_
  extract_lets rest rest'
  have hrest (init : Node) : Follows (Joined base) (Resumed base) (rest init) (rest' init) :=
    expect_follows (by simp) _ fun _ _ _ => he.bind fun test =>
      expect_follows (by simp) _ fun _ _ _ => he.bind fun step =>
      (expectDelimiter_follows _).bind fun _ => (body_follows hi).bind fun inside => .pure _
  split
  · exact (declaration_follows he).bind hrest
  · exact he.bind hrest

include hi in
theorem functionDef_follows :
    Follows (Joined base) (Resumed base) (functionDef inner) (functionDef inner') :=
  (expectName_follows _).bind fun _ => (expectDelimiter_follows _).bind fun _ =>
    (listed_follows (expectName_takesFront _) (expectName_takesFront _)
      (expectName_follows _)).bind fun _ => (body_follows hi).bind fun _ => .pure _

theorem blockEnds_eq (hj : Joined base us vs) (hu : atEnd us = false) :
    blockEnds us = blockEnds vs ∧ atEnd vs = false := by
  have hbrace : nextIs (.delimiter .rightBrace) us = nextIs (.delimiter .rightBrace) vs :=
    hj.nextIs_eq (by simp) (by simp)
  have hv : atEnd vs = false := by
    cases hj with
    | cons hc hk _ => simpa [atEnd, (Prod.mk.inj hc).1] using (Prod.mk.inj hc).1 ▸ hk
    | closed h _ _ => simp [hu] at h
  simp [blockEnds, hbrace, hu, hv]

include he in
theorem returnWith_follows :
    Follows (Joined base) (Joined base) (returnWith expr) (returnWith expr') := by
  intro us vs node us' hj hn
  obtain ⟨_, _, hg, hn⟩ := bind_eq_ok.1 hn
  obtain ⟨rfl, rfl⟩ := get_eq_ok.1 hg
  have hget : (get : Parser (List Token)) vs = .ok (vs, vs) := rfl
  have heq : (nextIs .endOfLine us || blockEnds us) = (nextIs .endOfLine vs || blockEnds vs) := by
    cases hj with
    | @cons t u us vs hc hk hj =>
      have hnext : nextIs .endOfLine (t :: us) = nextIs .endOfLine (u :: vs) := by
        simp [nextIs, (Prod.mk.inj hc).1]
      rw [hnext, (blockEnds_eq (Joined.cons hc hk hj) (by simpa [atEnd] using hk)).1]
    | closed hu hv _ => rcases hv with hv | hv <;> simp [blockEnds, hu, hv]
  split at hn
  · next hc =>
    obtain ⟨rfl, rfl⟩ := pure_eq_ok.1 hn
    refine ⟨vs, ?_, hj⟩
    unfold returnWith
    rw [bind_apply hget, if_pos (heq ▸ hc)]
    rfl
  · next hc =>
    obtain ⟨vs', hv, hj'⟩ := he.bind (fun _ => .pure _) _ _ _ _ hj hn
    refine ⟨vs', ?_, hj'⟩
    unfold returnWith
    rw [bind_apply hget, if_neg (heq ▸ hc)]
    exact hv

include hi in
theorem handler_follows :
    Follows (Joined base) (Resumed base) (handler inner) (handler inner') :=
  (expectName_follows _).bind fun _ => (body_follows hi).bind fun _ => .pure _

include he in
theorem expressionStatement_follows : Follows (Joined base) (Resumed base)
    (expressionStatement expr) (expressionStatement expr') :=
  he.bind fun e => acceptLineEnd_follows e

include he in
theorem trigger_follows (hs : TakesFront expr) (hs' : TakesFront expr') :
    Follows (Joined base) (Resumed base) (trigger expr) (trigger expr') := by
  refine (expectName_follows _).bind fun event =>
    (accept_follows (by simp) (by simp)).bind fun found => ?_
  extract_lets rest
  have hrest (args : List Node) : Follows (Joined base) (Resumed base) (rest args) (rest args) :=
    acceptLineEnd_follows _
  split
  · exact (listed_follows hs hs' he).bind hrest
  · exact (Follows.pure _).bind hrest

/-! Statements in a row. -/

def Takes (p : Parser Node) : Prop :=
  ∀ ts s rest, p ts = .ok (s, rest) → ∃ t us, ts = t :: us ∧ rest <:+ us

theorem Takes.length_lt {p : Parser Node} (h : Takes p) {ts rest : List Token} {s : Node}
    (hr : p ts = .ok (s, rest)) : rest.length < ts.length := by
  obtain ⟨t, us, rfl, hrest⟩ := h _ _ _ hr
  exact Nat.lt_succ_of_le hrest.length_le

theorem length_dropLineEnds_le (ts : List Token) : (dropLineEnds ts).length ≤ ts.length :=
  (List.dropWhile_suffix _).length_le

theorem sequence_of_stop {stop : List Token → Bool} {item : Parser Node} {n : Nat} {ts : List Token}
    (h : stop (dropLineEnds ts) = true) :
    sequence stop item (n + 1) ts = .ok ([], dropLineEnds ts) := by
  refine bind_eq_ok.2 ⟨(), dropLineEnds ts, rfl, bind_eq_ok.2 ⟨_, _, rfl, ?_⟩⟩
  rw [if_pos h]
  rfl

theorem sequence_succ_eq_ok {stop : List Token → Bool} {item : Parser Node} {n : Nat}
    {ts rest : List Token} {nodes : List Node} (h : stop (dropLineEnds ts) = false) :
    sequence stop item (n + 1) ts = .ok (nodes, rest) ↔ ∃ node mid others,
      item (dropLineEnds ts) = .ok (node, mid) ∧ sequence stop item n mid = .ok (others, rest) ∧
      nodes = node :: others := by
  have hskip : skipLineEnds ts = .ok ((), dropLineEnds ts) := rfl
  have hget : (get : Parser (List Token)) (dropLineEnds ts) =
      .ok (dropLineEnds ts, dropLineEnds ts) := rfl
  rw [sequence, bind_apply hskip, bind_apply hget, if_neg (by simp [h])]
  simp only [bind_eq_ok, pure_eq_ok]
  constructor
  · rintro ⟨node, mid, hn, others, _, ho, rfl, rfl⟩
    exact ⟨node, mid, others, hn, ho, rfl⟩
  · rintro ⟨node, mid, others, hn, ho, rfl⟩
    exact ⟨node, mid, hn, others, rest, ho, rfl, rfl⟩

include hi in
theorem sequence_follows (ht : Takes inner) (ht' : Takes inner') {n m : Nat} {nodes : List Node}
    {us vs us' : List Token} (hr : Resumed base us vs) (hn : us.length < n) (hm : vs.length < m)
    (hs : sequence blockEnds inner n us = .ok (nodes, us'))
    (hclose : nextIs (.delimiter .rightBrace) us' = true) :
    ∃ vs', sequence blockEnds inner' m vs = .ok (nodes, vs') ∧ Joined base us' vs' := by
  induction n generalizing m nodes us vs with
  | zero => cases hn
  | succ n ih =>
    obtain ⟨m, rfl⟩ : ∃ k, m = k + 1 := ⟨m - 1, by omega⟩
    have hdrop := hr.dropLineEnds
    have hlen := length_dropLineEnds_le us
    have hlen' := length_dropLineEnds_le vs
    cases hstop : blockEnds (dropLineEnds us) with
    | true =>
      rw [sequence_of_stop hstop] at hs
      cases hs
      have hopen : atEnd (dropLineEnds us) = false := by
        obtain ⟨t, ts, hts, hk⟩ := nextIs_iff.1 hclose
        simp [hts, atEnd, hk]
      have hj := hdrop.joined hopen
      have hstop' := (blockEnds_eq hj hopen).1 ▸ hstop
      exact ⟨_, sequence_of_stop hstop', hj⟩
    | false =>
      have hopen : atEnd (dropLineEnds us) = false := by
        simp only [blockEnds, Bool.or_eq_false_iff] at hstop
        exact hstop.2
      have hj := hdrop.joined hopen
      have hstop' := (blockEnds_eq hj hopen).1 ▸ hstop
      obtain ⟨node, mid, others, hnode, hothers, rfl⟩ := (sequence_succ_eq_ok hstop).1 hs
      obtain ⟨mid', hnode', hr'⟩ := hi _ _ _ _ hdrop hnode
      have hlt := ht.length_lt hnode
      have hlt' := ht'.length_lt hnode'
      obtain ⟨vs', hothers', hj'⟩ :=
        ih hr' (by omega) (by omega : mid'.length < m) hothers
      exact ⟨vs', (sequence_succ_eq_ok hstop').2 ⟨node, mid', others, hnode', hothers', rfl⟩, hj'⟩

include hi in
theorem block_follows (ht : Takes inner) (ht' : Takes inner') :
    Follows (Joined base) (Joined base) (block inner) (block inner') := by
  intro us vs node us' hj hb
  simp only [block, bind_eq_ok, get_eq_ok, expectDelimiter_eq_ok, pure_eq_ok] at hb
  obtain ⟨_, _, ⟨rfl, rfl⟩, nodes, mid, hs, _, _, ⟨t, rfl, hk⟩, rfl, rfl⟩ := hb
  obtain ⟨mid', hs', hj'⟩ := sequence_follows hi ht ht' hj.resumed (Nat.lt_succ_self _)
    (Nat.lt_succ_self vs.length) hs (by simp [nextIs, hk])
  rcases hj'.heads with ⟨_, u, _, vs', heq, rfl, hc, -, hj''⟩ | ⟨hends, -⟩
  · cases heq
    refine ⟨vs', ?_, hj''⟩
    simp only [block, bind_eq_ok, get_eq_ok, expectDelimiter_eq_ok, pure_eq_ok]
    exact ⟨_, _, ⟨rfl, rfl⟩, nodes, _, hs', (), _, ⟨u, rfl, (Prod.mk.inj hc).1 ▸ hk⟩, rfl, rfl⟩
  · rcases hends t rfl with h | h <;> simp [hk] at h

end Statements

theorem statement_takesOne (n : Nat) : Takes (statement n) := by
  intro ts s rest hr
  obtain ⟨t, us, hts, hrest, -⟩ := statement_takes hr
  exact ⟨t, us, hts, hrest⟩

theorem statement_follows (helse : nextIs (.keyword .elseWord) base = false) {n m : Nat}
    (hnm : n ≤ m) : Follows (Resumed base) (Resumed base) (statement n) (statement m) := by
  induction n generalizing m with
  | zero =>
    intro us vs s us' hr hs
    cases hs
  | succ n ih =>
    obtain ⟨m, rfl⟩ : ∃ k, m = k + 1 := ⟨m - 1, by omega⟩
    have he : Follows (Joined base) (Joined base) (expression (n + 1)) (expression (m + 1)) :=
      expression_follows hnm
    have hi := ih (m := m) (by omega)
    have hf := fun k => (expression_sound k).takesFront
    have hj {p q : Parser Node} (h : Follows (Joined base) (Joined base) p q) :
        Follows (Joined base) (Resumed base) p q := h.mono fun _ _ h => h.resumed
    intro us vs s us' hr hs
    cases us with
    | nil => cases hs
    | cons t us =>
      have hopen : atEnd (t :: us) = false := by
        cases hend : atEnd (t :: us) with
        | false => rfl
        | true =>
          have hk : t.kind = .endOfInput := by simpa [atEnd] using hend
          simp [statement, hk] at hs
      have hjoined := hr.joined hopen
      cases hjoined with
      | closed hend _ _ => simp [hopen] at hend
      | @cons _ u _ vs hc hne hj₁ =>
        have hk := (Prod.mk.inj hc).1
        simp only [statement] at hs ⊢
        rw [← hk]
        split at hs
        · exact branch_follows he hi helse _ _ _ _ hj₁ hs
        · exact whileLoop_follows he hi _ _ _ _ hj₁ hs
        · exact forLoop_follows he hi _ _ _ _ hj₁ hs
        · exact functionDef_follows hi _ _ _ _ hj₁ hs
        · exact hj (returnWith_follows he) _ _ _ _ hj₁ hs
        · exact hj (declaration_follows he) _ _ _ _ hj₁ hs
        · exact handler_follows hi _ _ _ _ hj₁ hs
        · exact trigger_follows he (hf _) (hf _) _ _ _ _ hj₁ hs
        · exact hj (block_follows hi (statement_takesOne n) (statement_takesOne m)) _ _ _ _ hj₁ hs
        · cases hs
        · exact expressionStatement_follows he _ _ _ _ (.cons hc hne hj₁) hs

/-! Scripts. -/

theorem readScript_eq_ok {ts : List Token} {nodes : List Node} :
    readScript ts = .ok (.block nodes) ↔ ∃ rest,
      sequence atEnd (statement (ts.length + 1)) (ts.length + 1) ts = .ok (nodes, rest) := by
  unfold readScript placed
  cases sequence atEnd (statement (ts.length + 1)) (ts.length + 1) ts with
  | error f => simp [Except.map]
  | ok r => simp [Except.map, Prod.ext_iff]

theorem exists_block_of_readScript {ts : List Token} {root : Node} (h : readScript ts = .ok root) :
    ∃ nodes, root = .block nodes := by
  unfold readScript at h
  cases hp : placed ts (sequence atEnd (statement (ts.length + 1)) (ts.length + 1) ts) with
  | error f => simp [hp, Except.map] at h
  | ok nodes =>
    rw [hp] at h
    cases h
    exact ⟨nodes, rfl⟩

theorem not_else_of_statement {n : Nat} {ts rest : List Token} {s : Node}
    (h : statement n ts = .ok (s, rest)) : nextIs (.keyword .elseWord) ts = false := by
  rw [Bool.eq_false_iff]
  intro helse
  obtain ⟨t, us, rfl, hk⟩ := nextIs_iff.1 helse
  cases n with
  | zero => cases h
  | succ n =>
    simp only [statement, hk] at h
    obtain ⟨e, mid, he, -⟩ := bind_eq_ok.1 h
    obtain ⟨used, hu, hd⟩ := expression_sound _ _ _ _ he
    obtain ⟨t', us', rfl, ht⟩ := hd.exists_cons
    cases hu
    rcases ht with ht | ⟨-, op, ht | ht⟩
    · simp [StartsPrimary, hk] at ht
    · simp [hk] at ht
    · simp [hk] at ht

theorem not_else_of_sequence {n k : Nat} {ts rest : List Token} {nodes : List Node}
    (h : sequence atEnd (statement k) (n + 1) ts = .ok (nodes, rest)) :
    nextIs (.keyword .elseWord) (dropLineEnds ts) = false := by
  cases hstop : atEnd (dropLineEnds ts) with
  | true => exact nextIs_of_atEnd hstop (by simp)
  | false =>
    obtain ⟨node, mid, others, hnode, -, -⟩ := (sequence_succ_eq_ok hstop).1 h
    exact not_else_of_statement hnode

theorem sequence_join (helse : nextIs (.keyword .elseWord) base = false) {k k' : Nat} (hk : k ≤ k')
    {n m : Nat} {us vs us' : List Token} {nodes : List Node} (hr : Resumed base us vs)
    (hn : us.length < n) (hm : vs.length < m)
    (hs : sequence atEnd (statement k) n us = .ok (nodes, us')) :
    ∃ j vs', vs'.length < j ∧ dropLineEnds vs' = base ∧ ∀ others rest,
      sequence atEnd (statement k') j vs' = .ok (others, rest) →
      sequence atEnd (statement k') m vs = .ok (nodes ++ others, rest) := by
  induction n generalizing m us vs nodes with
  | zero => cases hn
  | succ n ih =>
    cases hstop : atEnd (dropLineEnds us) with
    | true =>
      rw [sequence_of_stop hstop] at hs
      cases hs
      exact ⟨m, vs, hm, hr.dropLineEnds_eq hstop, fun _ _ h => h⟩
    | false =>
      obtain ⟨m, rfl⟩ : ∃ k, m = k + 1 := ⟨m - 1, by omega⟩
      have hlen := length_dropLineEnds_le us
      have hlen' := length_dropLineEnds_le vs
      have hstop' := (blockEnds_eq (hr.dropLineEnds.joined hstop) hstop).2
      obtain ⟨node, mid, later, hnode, hlater, rfl⟩ := (sequence_succ_eq_ok hstop).1 hs
      obtain ⟨mid', hnode', hr'⟩ := statement_follows helse hk _ _ _ _ hr.dropLineEnds hnode
      have hlt := (statement_takesOne k).length_lt hnode
      have hlt' := (statement_takesOne k').length_lt hnode'
      obtain ⟨j, vs', hj, hbase, hgo⟩ := ih hr' (by omega) (by omega : mid'.length < m) hlater
      refine ⟨j, vs', hj, hbase, fun others rest h => ?_⟩
      exact (sequence_succ_eq_ok hstop').2
        ⟨node, mid', later ++ others, hnode', hgo others rest h, rfl⟩

theorem joined_of_content {ls : List (Kind × String)} (hls : ∀ l ∈ ls, l.1 ≠ .endOfInput)
    {us front rest : List Token} (hu : us.map Token.content = ls ++ [Token.ending])
    (hf : front.map Token.content = ls)
    (hrest : nextIs .endOfLine rest = true ∨ atEnd rest = true) :
    Joined (dropLineEnds rest) us (front ++ rest) := by
  induction ls generalizing us front with
  | nil =>
    obtain rfl := List.map_eq_nil_iff.1 hf
    obtain ⟨t, us', rfl, ht, -⟩ := List.map_eq_cons_iff.1 hu
    have hend : t.kind = .endOfInput := (Prod.mk.inj ht).1
    exact .closed (by simp [atEnd, hend]) hrest rfl
  | cons l ls ih =>
    obtain ⟨t, us', rfl, ht, hus⟩ := List.map_eq_cons_iff.1 hu
    obtain ⟨u, front', rfl, hu', hfront⟩ := List.map_eq_cons_iff.1 hf
    have hl := List.forall_mem_cons.1 hls
    have hkind : t.kind ≠ .endOfInput := by
      rw [← ht] at hl
      exact hl.1
    exact .cons (ht.trans hu'.symm) hkind (ih hl.2 hus hfront)

theorem sequence_dropLineEnds {stop : List Token → Bool} {item : Parser Node} {n : Nat}
    (ts : List Token) : sequence stop item (n + 1) (dropLineEnds ts) =
      sequence stop item (n + 1) ts := by
  have hskip : skipLineEnds ts = .ok ((), dropLineEnds ts) := rfl
  have hskip' : skipLineEnds (dropLineEnds ts) = .ok ((), dropLineEnds (dropLineEnds ts)) := rfl
  rw [dropLineEnds_idem] at hskip'
  rw [sequence, bind_apply hskip, bind_apply hskip']

theorem sequence_eq_ok_of_joined {last : Token} (hlast : last.kind = .endOfInput) {us vs : List Token}
    (hj : Joined [last] us vs) {k n m : Nat} (hk : us.length + 1 ≤ k) (hn : us.length < n)
    {nodes : List Node} {us' : List Token}
    (hs : sequence atEnd (statement (us.length + 1)) n us = .ok (nodes, us')) {ts : List Token}
    (hts : dropLineEnds ts = dropLineEnds vs) (hm : ts.length < m) :
    ∃ rest, sequence atEnd (statement k) m ts = .ok (nodes, rest) := by
  obtain ⟨n, rfl⟩ : ∃ i, n = i + 1 := ⟨n - 1, by omega⟩
  obtain ⟨m, rfl⟩ : ∃ i, m = i + 1 := ⟨m - 1, by omega⟩
  have helse : nextIs (.keyword .elseWord) [last] = false := by simp [nextIs, hlast]
  have hlen := length_dropLineEnds_le us
  have hlen' := length_dropLineEnds_le ts
  rw [hts] at hlen'
  rw [← sequence_dropLineEnds] at hs
  obtain ⟨j, vs', hj', hbase, hgo⟩ := sequence_join helse hk hj.resumed.dropLineEnds
    (by omega) (by omega : (dropLineEnds vs).length < m + 1) hs
  obtain ⟨j, rfl⟩ : ∃ i, j = i + 1 := ⟨j - 1, by omega⟩
  have hstop : atEnd (dropLineEnds vs') = true := by simp [hbase, atEnd, hlast]
  have hread := hgo [] _ (sequence_of_stop hstop)
  rw [List.append_nil, ← hts, sequence_dropLineEnds] at hread
  exact ⟨_, hread⟩

theorem readScript_of_content {ls : List (Kind × String)} (hls : ∀ l ∈ ls, l.1 ≠ .endOfInput)
    {ts us : List Token} (hts : ts.map Token.content = ls ++ [Token.ending])
    (hus : us.map Token.content = ls ++ [Token.ending]) {a : List Node}
    (ha : readScript ts = .ok (.block a)) : readScript us = .ok (.block a) := by
  have hlen : ts.length = us.length := by
    have h := congrArg List.length (hts.trans hus.symm)
    rwa [List.length_map, List.length_map] at h
  obtain ⟨front, final, rfl, hfront, hfinal⟩ := List.map_eq_append_iff.1 hus
  obtain ⟨last, final', rfl, hlast, hnil⟩ := List.map_eq_cons_iff.1 hfinal
  obtain rfl := List.map_eq_nil_iff.1 hnil
  have hlastk : last.kind = .endOfInput := (Prod.mk.inj hlast).1
  have hend : atEnd [last] = true := by simp [atEnd, hlastk]
  have hjoined := joined_of_content hls hts hfront (.inr hend)
  rw [dropLineEnds_of_atEnd hend] at hjoined
  obtain ⟨_, hs⟩ := readScript_eq_ok.1 ha
  obtain ⟨rest, hrest⟩ := sequence_eq_ok_of_joined hlastk hjoined (Nat.le_of_eq (by rw [hlen]))
    (Nat.lt_succ_self _) hs rfl (Nat.lt_succ_self _)
  exact readScript_eq_ok.2 ⟨rest, hrest⟩

theorem readScript_append {ls ms : List (Kind × String)} (hls : ∀ l ∈ ls, l.1 ≠ .endOfInput)
    (hms : ∀ l ∈ ms, l.1 ≠ .endOfInput) {ts us vs : List Token} {a b : List Node}
    (hts : ts.map Token.content = ls ++ [Token.ending])
    (hus : us.map Token.content = ms ++ [Token.ending])
    (hvs : vs.map Token.content = ls ++ (.endOfLine, "\n") :: (ms ++ [Token.ending]))
    (ha : readScript ts = .ok (.block a)) (hb : readScript us = .ok (.block b)) :
    readScript vs = .ok (.block (a ++ b)) := by
  have hlen := congrArg List.length hts
  have hlen' := congrArg List.length hus
  have hlen'' := congrArg List.length hvs
  simp only [List.length_map, List.length_append, List.length_cons, List.length_nil] at hlen hlen' hlen''
  obtain ⟨front, tail, rfl, hfront, htail⟩ := List.map_eq_append_iff.1 hvs
  obtain ⟨nl, back, rfl, hnl, hback⟩ := List.map_eq_cons_iff.1 htail
  obtain ⟨middle, final, rfl, hmiddle, hfinal⟩ := List.map_eq_append_iff.1 hback
  obtain ⟨last, final', rfl, hlast, hnil⟩ := List.map_eq_cons_iff.1 hfinal
  obtain rfl := List.map_eq_nil_iff.1 hnil
  have hnlk : nl.kind = .endOfLine := (Prod.mk.inj hnl).1
  have hlastk : last.kind = .endOfInput := (Prod.mk.inj hlast).1
  have hdrop : dropLineEnds (nl :: (middle ++ [last])) = dropLineEnds (middle ++ [last]) := by
    simp [dropLineEnds, hnlk]
  have hfirst : Joined (dropLineEnds (middle ++ [last])) ts (front ++ nl :: (middle ++ [last])) :=
    hdrop ▸ joined_of_content hls hts hfront (.inl (by simp [nextIs, hnlk]))
  have hsecond : Joined [last] us (middle ++ [last]) := by
    have hend : atEnd [last] = true := by simp [atEnd, hlastk]
    have hjoined := joined_of_content hms hus hmiddle (.inr hend)
    rwa [dropLineEnds_of_atEnd hend] at hjoined
  obtain ⟨_, hsa⟩ := readScript_eq_ok.1 ha
  obtain ⟨_, hsb⟩ := readScript_eq_ok.1 hb
  -- the second script begins with no `else` that the first could take
  have helse : nextIs (.keyword .elseWord) (dropLineEnds (middle ++ [last])) = false := by
    have hno := not_else_of_sequence hsb
    cases hend : atEnd (dropLineEnds us) with
    | true =>
      rw [hsecond.resumed.dropLineEnds_eq hend]
      simp [nextIs, hlastk]
    | false =>
      rw [← (hsecond.resumed.dropLineEnds.joined hend).nextIs_eq (by simp) (by simp)]
      exact hno
  obtain ⟨j, vs', hj, hbase, hgo⟩ := sequence_join helse
    (by omega : ts.length + 1 ≤ (front ++ nl :: (middle ++ [last])).length + 1) hfirst.resumed
    (Nat.lt_succ_self _) (Nat.lt_succ_self _) hsa
  obtain ⟨rest, hrest⟩ := sequence_eq_ok_of_joined hlastk hsecond
    (by omega : us.length + 1 ≤ (front ++ nl :: (middle ++ [last])).length + 1)
    (Nat.lt_succ_self _) hsb hbase hj
  exact readScript_eq_ok.2 ⟨rest, hgo b rest hrest⟩

end Parlance.Grammar
