import Parlance.Proofs.Script.Completeness
import Parlance.Proofs.Script.Shape
import Parlance.Proofs.Token.Lexing

/-! Reading past the place where the tokens used to end. What a reader takes from a list of tokens it
takes in the same way from a longer list, if that has a line end where the first one ended. A reader
can tell the two lists apart there, but only a line end is ever taken on account of it. -/

namespace Parlance.Grammar
open Token (Kind)
variable {α β : Type}

def dropLineEnds (ts : List Token) : List Token := ts.dropWhile (·.kind == .endOfLine)

theorem dropLineEnds_idem (ts : List Token) : dropLineEnds (dropLineEnds ts) = dropLineEnds ts := by
  induction ts with
  | nil => rfl
  | cons t ts ih =>
    by_cases ht : (t.kind == .endOfLine) = true
    · simpa [dropLineEnds, ht] using ih
    · simp [dropLineEnds, ht]

theorem dropLineEnds_of_atEnd {ts : List Token} (h : atEnd ts = true) : dropLineEnds ts = ts := by
  cases ts with
  | nil => rfl
  | cons t ts =>
    have ht : t.kind = .endOfInput := by simpa [atEnd] using h
    simp [dropLineEnds, ht]

theorem nextIs_of_atEnd {kind : Kind} {ts : List Token} (h : atEnd ts = true)
    (hk : kind ≠ .endOfInput) : nextIs kind ts = false := by
  cases ts with
  | nil => rfl
  | cons t ts =>
    have ht : t.kind = .endOfInput := by simpa [atEnd] using h
    simpa [nextIs, ht] using hk.symm

section Joined
variable (base : List Token)

/-- The second list goes on like the first. Where the first ends, the second has a line end or ends
too, and `base` comes after its line ends. -/
inductive Joined : List Token → List Token → Prop
  | cons {t u : Token} {us vs : List Token} : t.content = u.content → t.kind ≠ .endOfInput →
      Joined us vs → Joined (t :: us) (u :: vs)
  | closed {us vs : List Token} : atEnd us = true → nextIs .endOfLine vs = true ∨ atEnd vs = true →
      dropLineEnds vs = base → Joined us vs

/-- The lists are joined, or the first has ended and line ends were taken from the second. -/
def Resumed (us vs : List Token) : Prop :=
  Joined base us vs ∨ atEnd us = true ∧ dropLineEnds vs = base

end Joined

variable {base us vs : List Token}

theorem Joined.resumed (h : Joined base us vs) : Resumed base us vs := .inl h

theorem Resumed.joined (h : Resumed base us vs) (hu : atEnd us = false) : Joined base us vs := by
  rcases h with h | ⟨hend, -⟩
  · exact h
  · rw [hu] at hend
    cases hend

theorem Joined.nextIs_eq {kind : Kind} (h : Joined base us vs) (hi : kind ≠ .endOfInput)
    (hl : kind ≠ .endOfLine) : nextIs kind us = nextIs kind vs := by
  cases h with
  | cons hc _ _ => simp [nextIs, (Prod.mk.inj hc).1]
  | closed hu hv _ =>
    rw [nextIs_of_atEnd hu hi]
    rcases hv with hv | hv
    · obtain ⟨v, vs, rfl, hk⟩ := nextIs_iff.1 hv
      simpa [nextIs, hk] using hl.symm
    · rw [nextIs_of_atEnd hv hi]

theorem Resumed.dropLineEnds (h : Resumed base us vs) :
    Resumed base (dropLineEnds us) (Grammar.dropLineEnds vs) := by
  rcases h with h | ⟨hu, hv⟩
  · induction h with
    | @cons t u us vs hc hk h ih =>
      have hkind := (Prod.mk.inj hc).1
      by_cases ht : t.kind = .endOfLine
      · simpa [Grammar.dropLineEnds, ht, ← hkind] using ih
      · have hu : u.kind ≠ .endOfLine := hkind ▸ ht
        simpa [Grammar.dropLineEnds, ht, hu] using (Joined.cons hc hk h).resumed
    | closed hu _ hv =>
      refine .inr ⟨?_, ?_⟩
      · rwa [dropLineEnds_of_atEnd hu]
      · rw [dropLineEnds_idem, hv]
  · refine .inr ⟨?_, ?_⟩
    · rwa [dropLineEnds_of_atEnd hu]
    · rw [dropLineEnds_idem, hv]

theorem Resumed.dropLineEnds_eq (h : Resumed base us vs)
    (hu : atEnd (Grammar.dropLineEnds us) = true) : Grammar.dropLineEnds vs = base := by
  rcases h with h | ⟨-, hv⟩
  · induction h with
    | @cons t u us vs hc hk h ih =>
      have hkind := (Prod.mk.inj hc).1
      by_cases ht : t.kind = .endOfLine
      · have hend : atEnd (Grammar.dropLineEnds us) = true := by
          simpa [Grammar.dropLineEnds, ht] using hu
        simpa [Grammar.dropLineEnds, ← hkind, ht] using ih hend
      · simp [Grammar.dropLineEnds, ht, atEnd, hk] at hu
    | closed _ _ hv => exact hv
  · exact hv

def Follows (R S : List Token → List Token → Prop) (p q : Parser α) : Prop :=
  ∀ us vs a us', R us vs → p us = .ok (a, us') → ∃ vs', q vs = .ok (a, vs') ∧ S us' vs'

namespace Follows
variable {R S S' T : List Token → List Token → Prop} {p q : Parser α} {f g : α → Parser β}

theorem pure (a : α) : Follows R R (pure a) (pure a) := by
  intro us vs b us' hr hp
  obtain ⟨rfl, rfl⟩ := pure_eq_ok.1 hp
  exact ⟨vs, rfl, hr⟩

theorem bind (hp : Follows R S p q) (hf : ∀ a, Follows S T (f a) (g a)) :
    Follows R T (p >>= f) (q >>= g) := by
  intro us vs b us' hr hb
  obtain ⟨a, mid, ha, hb⟩ := bind_eq_ok.1 hb
  obtain ⟨mid', hq, hs⟩ := hp _ _ _ _ hr ha
  obtain ⟨vs', hg, ht⟩ := hf a _ _ _ _ hs hb
  exact ⟨vs', bind_eq_ok.2 ⟨a, mid', hq, hg⟩, ht⟩

theorem weaken (hp : Follows S T p q) (h : ∀ us vs, R us vs → S us vs) : Follows R T p q :=
  fun us vs a us' hr ha => hp us vs a us' (h us vs hr) ha

theorem mono (hp : Follows R S p q) (h : ∀ us vs, S us vs → S' us vs) : Follows R S' p q := by
  intro us vs a us' hr ha
  obtain ⟨vs', hq, hs⟩ := hp _ _ _ _ hr ha
  exact ⟨vs', hq, h _ _ hs⟩

end Follows

/-! Steps that readers share. -/

section Steps
variable {T : List Token → List Token → Prop}

theorem expect_follows {kind : Kind} (hk : kind ≠ .endOfInput) (what : String)
    {f g : Token → Parser β} (h : ∀ t u, t.content = u.content → Follows (Joined base) T (f t) (g u)) :
    Follows (Joined base) T (expect kind what >>= f) (expect kind what >>= g) := by
  intro us vs b us' hj hb
  obtain ⟨t, mid, ht, hf⟩ := bind_eq_ok.1 hb
  obtain ⟨rfl, htk⟩ := expect_eq_ok.1 ht
  cases hj with
  | @cons t u us vs hc _ hj =>
    obtain ⟨vs', hg, hT⟩ := h t u hc _ _ _ _ hj hf
    have hu : u.kind = kind := (Prod.mk.inj hc).1 ▸ htk
    exact ⟨vs', bind_eq_ok.2 ⟨u, vs, expect_eq_ok.2 ⟨rfl, hu⟩, hg⟩, hT⟩
  | closed hu _ _ =>
    have hend : t.kind = .endOfInput := by simpa [atEnd] using hu
    exact absurd (htk.symm.trans hend) hk

theorem expectDelimiter_follows (d : Delimiter) :
    Follows (Joined base) (Joined base) (expectDelimiter d) (expectDelimiter d) :=
  expect_follows (by simp) _ fun _ _ _ => .pure ()

theorem expectName_follows (what : String) :
    Follows (Joined base) (Joined base) (expectName what) (expectName what) :=
  expect_follows (by simp) _ fun _ _ hc => (Prod.mk.inj hc).2 ▸ .pure _

theorem accept_follows {kind : Kind} (hi : kind ≠ .endOfInput) (hl : kind ≠ .endOfLine) :
    Follows (Joined base) (Joined base) (accept kind) (accept kind) := by
  intro us vs b us' hj hb
  have heq := hj.nextIs_eq hi hl
  rcases accept_eq_ok.1 hb with ⟨rfl, t, rfl, hk⟩ | ⟨rfl, hn, rfl⟩
  · cases hj with
    | @cons t u us vs hc _ hj =>
      exact ⟨vs, accept_eq_ok.2 (.inl ⟨rfl, u, rfl, (Prod.mk.inj hc).1 ▸ hk⟩), hj⟩
    | closed hu _ _ =>
      have hend : t.kind = .endOfInput := by simpa [atEnd] using hu
      exact absurd (hk.symm.trans hend) hi
  · exact ⟨vs, accept_eq_ok.2 (.inr ⟨rfl, heq ▸ hn, rfl⟩), hj⟩

theorem acceptLineEnd_follows (a : α) : Follows (Joined base) (Resumed base)
    (do let _ ← accept .endOfLine; return a) (do let _ ← accept .endOfLine; return a) := by
  intro us vs b us' hj hb
  obtain ⟨found, mid, hm, hp⟩ := bind_eq_ok.1 hb
  obtain ⟨rfl, rfl⟩ := pure_eq_ok.1 hp
  have hfirst : ∃ found vs', accept .endOfLine vs = .ok (found, vs') ∧ Resumed base mid vs' := by
    cases hj with
    | @cons t u us vs hc hk hj =>
      have hkind := (Prod.mk.inj hc).1
      by_cases ht : t.kind = .endOfLine
      · have hu : u.kind = .endOfLine := hkind ▸ ht
        obtain ⟨-, rfl⟩ : true = found ∧ us = mid := by simpa [accept, nextIs, ht] using hm
        exact ⟨true, vs, accept_eq_ok.2 (.inl ⟨rfl, u, rfl, hu⟩), hj.resumed⟩
      · have hu : u.kind ≠ .endOfLine := hkind ▸ ht
        obtain ⟨-, rfl⟩ : false = found ∧ t :: us = mid := by simpa [accept, nextIs, ht] using hm
        exact ⟨false, u :: vs, by simp [accept, nextIs, hu], (Joined.cons hc hk hj).resumed⟩
    | closed hu hv hbase =>
      have hno : nextIs .endOfLine us = false := nextIs_of_atEnd hu (by simp)
      obtain ⟨-, rfl⟩ : false = found ∧ us = mid := by simpa [accept, hno] using hm
      rcases hv with hv | hv
      · obtain ⟨v, vs, rfl, hk⟩ := nextIs_iff.1 hv
        refine ⟨true, vs, accept_eq_ok.2 (.inl ⟨rfl, v, rfl, hk⟩), .inr ⟨hu, ?_⟩⟩
        simpa [dropLineEnds, hk] using hbase
      · have hno' : nextIs .endOfLine vs = false := nextIs_of_atEnd hv (by simp)
        exact ⟨false, vs, by simp [accept, hno'], (Joined.closed hu (.inr hv) hbase).resumed⟩
  obtain ⟨found', vs', hv, hr⟩ := hfirst
  exact ⟨vs', bind_eq_ok.2 ⟨found', vs', hv, rfl⟩, hr⟩

theorem skipLineEnds_follows :
    Follows (Resumed base) (Resumed base) skipLineEnds skipLineEnds := by
  intro us vs a us' hr hs
  cases hs
  exact ⟨_, rfl, hr.dropLineEnds⟩

end Steps

/-! Expressions. Their readers stop before the seam. -/

theorem isOperator_congr {t u : Token} (h : t.content = u.content) (text : String) :
    isOperator text t = isOperator text u := by
  obtain ⟨hk, ht⟩ := Prod.mk.inj h
  simp [isOperator, hk, ht]

theorem Stratum.op?_congr (s : Stratum) {t u : Token} (h : t.content = u.content) :
    s.op? t = s.op? u := by
  obtain ⟨hk, ht⟩ := Prod.mk.inj h
  cases s <;> simp [op?, symbolOf, connective, isOperator, hk, ht]

theorem unaryOf_congr {t u : Token} (h : t.content = u.content) : unaryOf t = unaryOf u := by
  obtain ⟨hk, ht⟩ := Prod.mk.inj h
  simp [unaryOf, isOperator, hk, ht]

def Ends (t : Token) : Prop := t.kind = .endOfLine ∨ t.kind = .endOfInput

theorem Ends.op?_eq_none {t : Token} (h : Ends t) (s : Stratum) : s.op? t = none := by
  rcases h with h | h <;> cases s <;> simp [Stratum.op?, symbolOf, connective, isOperator, h]

theorem Ends.unaryOf_eq_none {t : Token} (h : Ends t) : unaryOf t = none := by
  rcases h with h | h <;> simp [unaryOf, isOperator, h]

theorem Ends.isOperator_eq_false {t : Token} (h : Ends t) (text : String) :
    isOperator text t = false := by
  rcases h with h | h <;> simp [isOperator, h]

theorem Joined.heads (h : Joined base us vs) :
    (∃ t u us' vs', us = t :: us' ∧ vs = u :: vs' ∧ t.content = u.content ∧
      t.kind ≠ .endOfInput ∧ Joined base us' vs') ∨
    (∀ t ∈ us.head?, Ends t) ∧ ∀ v ∈ vs.head?, Ends v := by
  cases h with
  | cons hc hk h => exact .inl ⟨_, _, _, _, rfl, rfl, hc, hk, h⟩
  | closed hu hv _ =>
    have hatEnd {ts : List Token} (h : atEnd ts = true) : ∀ t ∈ ts.head?, Ends t := by
      cases ts with
      | nil => simp
      | cons t ts =>
        rintro _ ⟨⟩
        exact .inr (by simpa [atEnd] using h)
    refine .inr ⟨hatEnd hu, ?_⟩
    rcases hv with hv | hv
    · obtain ⟨v, vs, rfl, hk⟩ := nextIs_iff.1 hv
      simpa [Ends] using .inl hk
    · exact hatEnd hv

section Expressions

theorem chainFrom_stops (s : Stratum) (operand : Parser Node) (n : Nat) (left : Node)
    {ts : List Token} (h : ∀ t ∈ ts.head?, Ends t) :
    chainFrom s.op? operand n left ts = .ok (left, ts) := by
  cases n with
  | zero => rfl
  | succ n =>
    cases ts with
    | nil => rfl
    | cons t ts => simp only [chainFrom, (h t rfl).op?_eq_none s]

variable {operand operand' inner inner' : Parser Node}

theorem chainFrom_follows {s : Stratum} (hs : TakesFront operand) (hs' : TakesFront operand')
    (h : Follows (Joined base) (Joined base) operand operand') {n m : Nat} {left e : Node}
    {us vs us' : List Token} (hj : Joined base us vs) (hn : us.length ≤ n) (hm : vs.length ≤ m)
    (hr : chainFrom s.op? operand n left us = .ok (e, us')) :
    ∃ vs', chainFrom s.op? operand' m left vs = .ok (e, vs') ∧ Joined base us' vs' := by
  induction n generalizing m left us vs with
  | zero =>
    obtain rfl : us = [] := List.length_eq_zero_iff.1 (Nat.le_zero.1 hn)
    obtain ⟨rfl, rfl⟩ := pure_eq_ok.1 hr
    rcases hj.heads with ⟨_, _, _, _, hnil, -⟩ | ⟨-, hends⟩
    · cases hnil
    · exact ⟨vs, chainFrom_stops s operand' m _ hends, hj⟩
  | succ n ih =>
    rcases hj.heads with ⟨t, u, us₁, vs₁, rfl, rfl, hc, -, hj₁⟩ | ⟨hends, hends'⟩
    · obtain ⟨m, rfl⟩ : ∃ k, m = k + 1 := ⟨m - 1, by simp at hm; omega⟩
      simp only [chainFrom] at hr ⊢
      rw [← s.op?_congr hc]
      cases hop : s.op? t with
      | none =>
        simp only [hop] at hr
        cases hr
        exact ⟨u :: vs₁, rfl, hj⟩
      | some op =>
        simp only [hop] at hr
        cases hb : operand us₁ with
        | error f => simp [hb] at hr
        | ok r =>
          obtain ⟨right, us₂⟩ := r
          simp only [hb] at hr
          obtain ⟨vs₂, hb', hj₂⟩ := h _ _ _ _ hj₁ hb
          have hlen := (hs _ _ _ hb).length_le
          have hlen' := (hs' _ _ _ hb').length_le
          simp only [List.length_cons] at hn hm
          simp only [hb']
          exact ih hj₂ (by omega) (by omega) hr
    · rw [chainFrom_stops s operand _ left hends] at hr
      cases hr
      exact ⟨vs, chainFrom_stops s operand' m _ hends', hj⟩

theorem chain_follows {s : Stratum} (hs : TakesFront operand) (hs' : TakesFront operand')
    (h : Follows (Joined base) (Joined base) operand operand') :
    Follows (Joined base) (Joined base) (chain s.op? operand) (chain s.op? operand') := by
  intro us vs e us' hj hr
  simp only [chain, bind_eq_ok, get_eq_ok] at hr ⊢
  obtain ⟨left, mid, hl, _, _, ⟨rfl, rfl⟩, hc⟩ := hr
  obtain ⟨mid', hl', hj'⟩ := h _ _ _ _ hj hl
  obtain ⟨vs', hc', hj''⟩ := chainFrom_follows hs hs' h hj' (Nat.le_refl _) (Nat.le_refl _) hc
  exact ⟨vs', ⟨left, mid', hl', _, _, ⟨rfl, rfl⟩, hc'⟩, hj''⟩

theorem unary_of_ends (operand : Parser Node) {ts : List Token} (h : ∀ t ∈ ts.head?, Ends t) :
    unary operand ts = operand ts := by
  cases ts with
  | nil => rfl
  | cons t ts => simp only [unary, (h t rfl).unaryOf_eq_none]

theorem unary_follows (h : Follows (Joined base) (Joined base) operand operand') :
    Follows (Joined base) (Joined base) (unary operand) (unary operand') := by
  intro us
  induction us with
  | nil =>
    intro vs e us' hj hr
    rcases hj.heads with ⟨_, _, _, _, hnil, -⟩ | ⟨-, hends⟩
    · cases hnil
    · rw [unary_of_ends operand' hends]
      exact h _ _ _ _ hj hr
  | cons t us ih =>
    intro vs e us' hj hr
    rcases hj.heads with ⟨_, u, _, vs₁, heq, rfl, hc, -, hj₁⟩ | ⟨hends, hends'⟩
    · cases heq
      simp only [unary] at hr ⊢
      rw [← unaryOf_congr hc]
      cases hop : unaryOf t with
      | none =>
        simp only [hop] at hr
        exact h _ _ _ _ hj hr
      | some op =>
        simp only [hop] at hr
        cases hb : unary operand us with
        | error f => simp [hb] at hr
        | ok r =>
          obtain ⟨e', us₂⟩ := r
          simp only [hb] at hr
          cases hr
          obtain ⟨vs₂, hb', hj₂⟩ := ih _ _ _ hj₁ hb
          exact ⟨vs₂, by simp only [hb'], hj₂⟩
    · rw [unary_of_ends operand hends] at hr
      rw [unary_of_ends operand' hends']
      exact h _ _ _ _ hj hr

theorem separated_follows {item item' : Parser α} (hs : TakesFront item) (hs' : TakesFront item')
    (h : Follows (Joined base) (Joined base) item item') {n m : Nat} {as : List α}
    {us vs us' : List Token} (hj : Joined base us vs) (hn : us.length ≤ n) (hm : vs.length ≤ m)
    (hr : separated item n us = .ok (as, us')) :
    ∃ vs', separated item' m vs = .ok (as, vs') ∧ Joined base us' vs' := by
  induction n generalizing m as us vs with
  | zero =>
    simp only [separated, bind_eq_ok, pure_eq_ok] at hr
    obtain ⟨a, mid, ha, rfl, rfl⟩ := hr
    obtain ⟨vs', ha', hj'⟩ := h _ _ _ _ hj ha
    -- nothing is left of the first list, so no comma follows in the second
    obtain rfl : us = [] := List.length_eq_zero_iff.1 (Nat.le_zero.1 hn)
    obtain rfl := List.suffix_nil.1 (hs _ _ _ ha)
    refine ⟨vs', ?_, hj'⟩
    cases m with
    | zero => exact bind_eq_ok.2 ⟨a, vs', ha', rfl⟩
    | succ m =>
      have hno : nextIs (.delimiter .comma) vs' = false :=
        (hj'.nextIs_eq (by simp) (by simp)).symm
      refine bind_eq_ok.2 ⟨a, vs', ha', bind_eq_ok.2 ⟨false, vs', ?_, rfl⟩⟩
      exact accept_eq_ok.2 (.inr ⟨rfl, hno, rfl⟩)
  | succ n ih =>
    simp only [separated, bind_eq_ok] at hr
    obtain ⟨a, mid, ha, comma, mid', hc, hr⟩ := hr
    obtain ⟨vs₁, ha', hj₁⟩ := h _ _ _ _ hj ha
    obtain ⟨vs₂, hc', hj₂⟩ := accept_follows (by simp) (by simp) _ _ _ _ hj₁ hc
    have hlen := (hs _ _ _ ha).length_le
    have hlen' := (hs' _ _ _ ha').length_le
    rcases accept_eq_ok.1 hc with ⟨rfl, t, rfl, hk⟩ | ⟨rfl, hno, rfl⟩
    · obtain ⟨-, u, rfl, -⟩ | ⟨hf, -⟩ := accept_eq_ok.1 hc'
      · simp only [if_true, bind_eq_ok, pure_eq_ok] at hr
        obtain ⟨rest, mid'', hr, rfl, rfl⟩ := hr
        simp only [List.length_cons] at hlen hlen'
        obtain ⟨m, rfl⟩ : ∃ k, m = k + 1 := ⟨m - 1, by omega⟩
        obtain ⟨vs', hr', hj'⟩ := ih hj₂ (by omega) (by omega : vs₂.length ≤ m) hr
        refine ⟨vs', bind_eq_ok.2 ⟨a, _, ha', bind_eq_ok.2 ⟨true, vs₂, hc', ?_⟩⟩, hj'⟩
        exact bind_eq_ok.2 ⟨rest, vs', hr', rfl⟩
      · cases hf
    · simp only [Bool.false_eq_true, if_false, pure_eq_ok] at hr
      obtain ⟨rfl, rfl⟩ := hr
      refine ⟨vs₂, ?_, hj₂⟩
      obtain ⟨hf, -⟩ | ⟨-, -, rfl⟩ := accept_eq_ok.1 hc'
      · cases hf
      · cases m with
        | zero => exact bind_eq_ok.2 ⟨a, _, ha', rfl⟩
        | succ m => exact bind_eq_ok.2 ⟨a, _, ha', bind_eq_ok.2 ⟨false, _, hc', rfl⟩⟩

theorem listed_follows {item item' : Parser α} (hs : TakesFront item) (hs' : TakesFront item')
    (h : Follows (Joined base) (Joined base) item item') :
    Follows (Joined base) (Joined base) (listed item) (listed item') := by
  intro us vs as us' hj hr
  have hparen : nextIs (.delimiter .rightParen) us = nextIs (.delimiter .rightParen) vs :=
    hj.nextIs_eq (by simp) (by simp)
  simp only [listed, bind_eq_ok, get_eq_ok] at hr ⊢
  obtain ⟨_, _, ⟨rfl, rfl⟩, hr⟩ := hr
  split at hr
  · next hp =>
    have hclose : Follows (Joined base) (Joined base)
        (do expectDelimiter .rightParen; return ([] : List α))
        (do expectDelimiter .rightParen; return []) :=
      (expectDelimiter_follows _).bind fun _ => .pure []
    obtain ⟨vs', hv, hj'⟩ := hclose _ _ _ _ hj hr
    exact ⟨vs', ⟨vs, vs, ⟨rfl, rfl⟩, by rwa [if_pos (hparen ▸ hp)]⟩, hj'⟩
  · next hp =>
    simp only [bind_eq_ok, get_eq_ok, pure_eq_ok] at hr
    obtain ⟨_, _, ⟨rfl, rfl⟩, as', mid, hm, _, _, hd, rfl, rfl⟩ := hr
    obtain ⟨mid', hm', hj₁⟩ :=
      separated_follows hs hs' h hj (Nat.le_refl _) (Nat.le_refl vs.length) hm
    obtain ⟨vs', hd', hj'⟩ := expectDelimiter_follows _ _ _ _ _ hj₁ hd
    refine ⟨vs', ⟨vs, vs, ⟨rfl, rfl⟩, ?_⟩, hj'⟩
    rw [if_neg (hparen ▸ hp)]
    simp only [bind_eq_ok, get_eq_ok, pure_eq_ok]
    exact ⟨_, _, ⟨rfl, rfl⟩, as', mid', hm', _, _, hd', rfl, rfl⟩

theorem primary_follows (hs : TakesFront inner) (hs' : TakesFront inner')
    (h : Follows (Joined base) (Joined base) inner inner') :
    Follows (Joined base) (Joined base) (primary inner) (primary inner') := by
  intro us vs e us' hj hr
  rcases hj.heads with ⟨t, u, us₁, vs₁, rfl, rfl, hc, -, hj₁⟩ | ⟨hends, -⟩
  · obtain ⟨hk, ht⟩ := Prod.mk.inj hc
    have hparen : nextIs (.delimiter .leftParen) us₁ = nextIs (.delimiter .leftParen) vs₁ :=
      hj₁.nextIs_eq (by simp) (by simp)
    simp only [primary] at hr ⊢
    rw [← hk, ← ht]
    cases hkind : t.kind with
    | number =>
      simp only [hkind] at hr ⊢
      cases hx : Decimal.read t.text.toList with
      | error f => simp [hx] at hr
      | ok x =>
        simp only [hx] at hr ⊢
        cases hr
        exact ⟨vs₁, rfl, hj₁⟩
    | string =>
      simp only [hkind] at hr ⊢
      cases hr
      exact ⟨vs₁, rfl, hj₁⟩
    | keyword k =>
      cases k <;> simp only [hkind] at hr ⊢ <;> cases hr <;> exact ⟨vs₁, rfl, hj₁⟩
    | identifier =>
      simp only [hkind] at hr ⊢
      split at hr
      · next hp =>
        rw [if_pos (hparen ▸ hp)]
        rcases hj₁.heads with ⟨l, l', us₂, vs₂, rfl, rfl, -, -, hj₂⟩ | ⟨hends, -⟩
        · exact (listed_follows hs hs' h).bind (fun args => .pure _) _ _ _ _ hj₂ hr
        · obtain ⟨l, us₂, rfl, hl⟩ := nextIs_iff.1 hp
          rcases hends l rfl with hend | hend <;> simp [hl] at hend
      · next hp =>
        rw [if_neg (hparen ▸ hp)]
        cases hr
        exact ⟨vs₁, rfl, hj₁⟩
    | delimiter d =>
      cases d with
      | leftParen =>
        simp only [hkind] at hr ⊢
        exact h.bind (fun e => (expectDelimiter_follows _).bind fun _ => .pure e) _ _ _ _ hj₁ hr
      | _ => simp [hkind] at hr
    | operator | endOfLine | endOfInput => simp [hkind] at hr
  · cases us with
    | nil => cases hr
    | cons t us =>
      rcases hends t rfl with hk | hk <;> simp [primary, hk] at hr

theorem Sound.takesFront {s : Stratum} {p : Parser Node} (h : Sound s p) : TakesFront p := by
  intro ts e rest hr
  obtain ⟨used, rfl, -⟩ := h _ _ _ hr
  exact List.suffix_append used rest

theorem operation_follows (hs : Sound .assignment inner) (hs' : Sound .assignment inner')
    (h : Follows (Joined base) (Joined base) inner inner') :
    Follows (Joined base) (Joined base) (operation inner) (operation inner') := by
  have hlevel {s : Stratum} {p q : Parser Node} (hp : Sound s.next p ∧ Sound s.next q ∧
      Follows (Joined base) (Joined base) p q) : Sound s (chain s.op? p) ∧ Sound s (chain s.op? q) ∧
      Follows (Joined base) (Joined base) (chain s.op? p) (chain s.op? q) :=
    ⟨chain_sound hp.1, chain_sound hp.2.1,
      chain_follows hp.1.takesFront hp.2.1.takesFront hp.2.2⟩
  have hunary : Sound .unary (unary (primary inner)) ∧ Sound .unary (unary (primary inner')) ∧
      Follows (Joined base) (Joined base) (unary (primary inner)) (unary (primary inner')) :=
    ⟨unary_sound (primary_sound hs), unary_sound (primary_sound hs'),
      unary_follows (primary_follows hs.takesFront hs'.takesFront h)⟩
  exact (hlevel (s := .or) (hlevel (s := .and) (hlevel (s := .equality)
    (hlevel (s := .relational) (hlevel (s := .additive)
      (hlevel (s := .multiplicative) hunary)))))).2.2

theorem assignment_of_ends {ts rest : List Token} {left : Node}
    (hl : operation inner ts = .ok (left, rest)) (he : ∀ t ∈ rest.head?, Ends t) :
    assignment inner ts = .ok (left, rest) := by
  simp only [assignment, hl]
  cases rest with
  | nil => rfl
  | cons t rest => simp [(he t rfl).isOperator_eq_false]

theorem assignment_follows (hs : Sound .assignment inner) (hs' : Sound .assignment inner')
    (h : Follows (Joined base) (Joined base) inner inner') :
    Follows (Joined base) (Joined base) (assignment inner) (assignment inner') := by
  intro us vs e us' hj hr
  cases hl : operation inner us with
  | error f => simp [assignment, hl] at hr
  | ok r =>
    obtain ⟨left, us₁⟩ := r
    obtain ⟨vs₁, hl', hj₁⟩ := operation_follows hs hs' h _ _ _ _ hj hl
    rcases hj₁.heads with ⟨t, u, us₂, vs₂, rfl, rfl, hc, -, hj₂⟩ | ⟨hends, hends'⟩
    · simp only [assignment, hl, hl', ← isOperator_congr hc] at hr ⊢
      split at hr
      · next heq =>
        rw [if_pos heq]
        cases hv : inner us₂ with
        | error f => simp [hv] at hr
        | ok r =>
          obtain ⟨value, us₃⟩ := r
          obtain ⟨vs₃, hv', hj₃⟩ := h _ _ _ _ hj₂ hv
          simp only [hv, hv'] at hr ⊢
          cases left with
          | path name =>
            cases hr
            exact ⟨vs₃, rfl, hj₃⟩
          | _ => cases hr
      · next heq =>
        rw [if_neg heq]
        cases hr
        exact ⟨_, rfl, hj₁⟩
    · rw [assignment_of_ends hl hends] at hr
      cases hr
      exact ⟨vs₁, assignment_of_ends hl' hends', hj₁⟩

theorem expression_follows {n m : Nat} (hnm : n ≤ m) :
    Follows (Joined base) (Joined base) (expression n) (expression m) := by
  induction n generalizing m with
  | zero =>
    intro us vs e us' hj hr
    cases hr
  | succ n ih =>
    obtain ⟨m, rfl⟩ : ∃ k, m = k + 1 := ⟨m - 1, by omega⟩
    exact assignment_follows (expression_sound n) (expression_sound m) (ih (by omega))

end Expressions
end Parlance.Grammar
