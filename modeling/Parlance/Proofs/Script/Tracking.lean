import Mathlib.Data.List.TakeWhile
import Parlance.Proofs.Script.Cursor
import Parlance.Proofs.Script.Seam

/-! A cursor reader goes over the tokens as the grammar's reader takes them from the front of a list:
it always stops, never asks for a token that is not there, and never stands past the end of the
input. What the two readers look at need only agree up to that end. -/

namespace Parlance
open Token (Kind)

namespace Grammar

def front (ts : List Token) : List Token := ts.takeWhile (·.kind != .endOfInput)

theorem front_cons {t : Token} (ht : t.kind ≠ .endOfInput) (ts : List Token) :
    front (t :: ts) = t :: front ts := by
  simp [front, ht]

theorem front_eq_nil_iff {ts : List Token} : front ts = [] ↔ atEnd ts = true := by
  cases ts with
  | nil => simp [front, atEnd]
  | cons t ts => by_cases ht : t.kind = .endOfInput <;> simp [front, atEnd, ht]

theorem atEnd_cases {ts : List Token} (h : atEnd ts = true) :
    ts = [] ∨ ∃ t us, ts = t :: us ∧ t.kind = .endOfInput := by
  cases ts with
  | nil => exact .inl rfl
  | cons t us => exact .inr ⟨t, us, rfl, by simpa [atEnd] using h⟩

theorem kind_ne_of_mem_front {ts : List Token} {t : Token} (h : t ∈ front ts) :
    t.kind ≠ .endOfInput := by
  simpa using List.mem_takeWhile_imp h

theorem front_eq_self {ts : List Token} (h : ∀ t ∈ ts, t.kind ≠ .endOfInput) : front ts = ts :=
  List.takeWhile_eq_self_iff.2 fun t ht => by simpa using h t ht

theorem front_eq_cons {ts rest : List Token} {t : Token} (h : front ts = t :: rest) :
    ∃ us, ts = t :: us ∧ t.kind ≠ .endOfInput ∧ front us = rest := by
  have ht : t.kind ≠ .endOfInput := kind_ne_of_mem_front (h ▸ List.mem_cons_self)
  cases ts with
  | nil => simp [front] at h
  | cons u us =>
    by_cases hu : u.kind = .endOfInput
    · simp [front, hu] at h
    · rw [front_cons hu] at h
      cases h
      exact ⟨us, rfl, ht, rfl⟩

theorem all_getElem?_length_front (ts : List Token) :
    ts[(front ts).length]?.all (·.kind == .endOfInput) = true := by
  induction ts with
  | nil => rfl
  | cons t ts ih =>
    by_cases ht : t.kind = .endOfInput
    · simp [front, ht]
    · simpa [front_cons ht] using ih

theorem look_front {ts : List Token} {i : Nat} (hi : i ≤ (front ts).length) :
    (∃ t rest, (front ts).drop i = t :: rest ∧ ts[i]? = some t ∧ i < (front ts).length ∧
      (front ts).drop (i + 1) = rest) ∨
    (front ts).drop i = [] ∧ ts[i]?.all (·.kind == .endOfInput) = true := by
  rcases Nat.lt_or_eq_of_le hi with hlt | rfl
  · refine .inl ⟨(front ts).get ⟨i, hlt⟩, _, List.drop_eq_getElem_cons hlt, ?_, hlt, rfl⟩
    have hget := (List.takeWhile_prefix (·.kind != .endOfInput) (l := ts)).getElem hlt
    exact List.getElem?_eq_some_iff.2 ⟨_, hget.symm⟩
  · exact .inr ⟨List.drop_eq_nil_of_le (Nat.le_refl _), all_getElem?_length_front ts⟩

theorem front_dropLineEnds (ts : List Token) : front (dropLineEnds ts) = dropLineEnds (front ts) := by
  induction ts with
  | nil => rfl
  | cons t ts ih =>
    by_cases ht : t.kind = .endOfLine
    · simpa [dropLineEnds, front_cons (show t.kind ≠ .endOfInput by simp [ht]), ht] using ih
    · by_cases hend : t.kind = .endOfInput
      · simp [dropLineEnds, front, hend]
      · simp [dropLineEnds, front_cons hend, ht]

end Grammar

namespace Cursor
open Grammar (Parser Refusal front)
variable {α β : Type}

/-- How far the cursor may go: to the first end-of-input token, or else behind the last token. -/
def limit (c : Cursor) : Nat := (front c.tokens).length

def places (c : Cursor) : List Nat := c.place :: c.trail

def Within (c : Cursor) : Prop := ∀ place ∈ c.places, place ≤ c.limit

def ahead (c : Cursor) : List Token := (front c.tokens).drop c.place

theorem Within.place_le {c : Cursor} (h : c.Within) : c.place ≤ c.limit := h _ List.mem_cons_self

theorem length_ahead (c : Cursor) : c.ahead.length = c.limit - c.place := List.length_drop

theorem Within.moveTo {c : Cursor} (h : c.Within) {place : Nat} (hp : place ≤ c.limit) :
    (c.moveTo place).Within := by
  rintro i (_ | ⟨_, hi⟩)
  · exact hp
  · exact h i hi

def Shows (c : Cursor) (us : List Token) : Prop := front us = c.ahead

theorem Shows.length_le {c : Cursor} {us : List Token} (h : Shows c us) :
    c.ahead.length ≤ us.length := h ▸ (List.takeWhile_prefix _).length_le

structure Moved (d : Nat) (c c' : Cursor) : Prop where
  tokens_eq : c'.tokens = c.tokens
  places : c.places <:+ c'.places
  within : c'.Within
  forward : c.place + d ≤ c'.place

theorem Moved.refl {c : Cursor} (h : c.Within) : Moved 0 c c := ⟨rfl, List.suffix_rfl, h, Nat.le_refl _⟩

theorem Moved.trans {d k : Nat} {c c' c'' : Cursor} (h : Moved d c c') (h' : Moved k c' c'') :
    Moved (d + k) c c'' where
  tokens_eq := h'.tokens_eq.trans h.tokens_eq
  places := h.places.trans h'.places
  within := h'.within
  forward := by
    have := h.forward
    have := h'.forward
    omega

theorem Moved.weaken {d k : Nat} {c c' : Cursor} (h : Moved d c c') (hk : k ≤ d) : Moved k c c' :=
  { h with forward := Nat.le_trans (Nat.add_le_add_left hk _) h.forward }

theorem Moved.moveTo {c : Cursor} (h : c.Within) {d place : Nat} (hd : c.place + d ≤ place)
    (hp : place ≤ c.limit) : Moved d c (c.moveTo place) :=
  ⟨rfl, List.suffix_cons _ _, h.moveTo hp, hd⟩

theorem Moved.limit_eq {d : Nat} {c c' : Cursor} (h : Moved d c c') : c'.limit = c.limit := by
  unfold limit
  rw [h.tokens_eq]

theorem Moved.length_ahead_le {d : Nat} {c c' : Cursor} (h : Moved d c c') :
    c'.ahead.length + d ≤ c.ahead.length := by
  have hlimit := h.limit_eq
  have hforward := h.forward
  have hplace := h.within.place_le
  rw [length_ahead, length_ahead]
  omega

/-- From some time on the clock makes no difference. -/
def Stops (run : Nat → Option (Except Stop α × Cursor)) (r : Except Stop α) (c : Cursor) : Prop :=
  ∃ enough, ∀ clock, enough ≤ clock → run clock = some (r, c)

theorem bind_of_ok {q : Reader α} {g : α → Reader β} {c c' : Cursor} {a : α}
    (h : q c = some (.ok a, c')) : (q >>= g) c = g a c' := by
  change (q c).bind (fun r => ExceptT.bindCont g r.1 r.2) = _
  rw [h]
  rfl

theorem bind_of_error {q : Reader α} {g : α → Reader β} {c c' : Cursor} {stop : Stop}
    (h : q c = some (.error stop, c')) : (q >>= g) c = some (.error stop, c') := by
  change (q c).bind (fun r => ExceptT.bindCont g r.1 r.2) = _
  rw [h]
  rfl

theorem get_bind {g : Cursor → Reader β} (c : Cursor) : (get >>= g) c = g c c := rfl

namespace Stops
variable {q : Nat → Reader α} {g : Nat → α → Reader β} {c c' c'' : Cursor}

theorem always {r : Except Stop α} {s : Option (Except Stop α × Cursor)} (h : s = some (r, c)) :
    Stops (fun _ => s) r c := ⟨0, fun _ _ => h⟩

theorem succ {run : Nat → Option (Except Stop α × Cursor)} {r : Except Stop α}
    (h : Stops (fun clock => run (clock + 1)) r c) : Stops run r c := by
  obtain ⟨enough, h⟩ := h
  refine ⟨enough + 1, fun clock hle => ?_⟩
  obtain ⟨clock, rfl⟩ : ∃ k, clock = k + 1 := ⟨clock - 1, by omega⟩
  exact h clock (by omega)

theorem bind {a : α} {r : Except Stop β} (h : Stops (fun clock => q clock c) (.ok a) c')
    (hg : Stops (fun clock => g clock a c') r c'') :
    Stops (fun clock => (q clock >>= g clock) c) r c'' := by
  obtain ⟨enough, h⟩ := h
  obtain ⟨enough', hg⟩ := hg
  refine ⟨max enough enough', fun clock hle => ?_⟩
  exact (bind_of_ok (h clock (by omega))).trans (hg clock (by omega))

theorem bind_error {stop : Stop} (h : Stops (fun clock => q clock c) (.error stop) c') :
    Stops (fun clock => (q clock >>= g clock) c) (.error stop) c' := by
  obtain ⟨enough, h⟩ := h
  exact ⟨enough, fun clock hle => bind_of_error (h clock hle)⟩

theorem unique {run : Nat → Option (Except Stop α × Cursor)} {r r' : Except Stop α}
    (h : Stops run r c) (h' : Stops run r' c') : r = r' ∧ c = c' := by
  obtain ⟨enough, h⟩ := h
  obtain ⟨enough', h'⟩ := h'
  have heq := (h (max enough enough') (by omega)).symm.trans (h' _ (by omega))
  cases heq
  exact ⟨rfl, rfl⟩

end Stops

/-- The cursor reader stops as the reader of a list does, having moved over at least `d` tokens if it
gives something. -/
inductive Agrees (d : Nat) (c : Cursor) (run : Nat → Option (Except Stop α × Cursor)) :
    Except Refusal (α × List Token) → Prop
  | gives {a : α} {rest : List Token} {c' : Cursor} (stops : Stops run (.ok a) c')
      (moved : Moved d c c') (shows : Shows c' rest) : Agrees d c run (.ok (a, rest))
  | refuses {refusal : Refusal} {c' : Cursor}
      (stops : Stops run (.error (.refused refusal (c.positionOf refusal))) c')
      (moved : Moved 0 c c') : Agrees d c run (.error refusal)

namespace Agrees
variable {d k : Nat} {c c' : Cursor} {r : Except Refusal (α × List Token)}
  {run : Nat → Option (Except Stop α × Cursor)}

theorem later (h : Agrees k c' run r) (hm : Moved d c c') : Agrees (k + d) c run r := by
  cases h with
  | gives stops moved shows => exact .gives stops (Nat.add_comm d k ▸ hm.trans moved) shows
  | @refuses refusal _ stops moved =>
    have heq : c'.positionOf refusal = c.positionOf refusal := by
      unfold positionOf
      rw [hm.tokens_eq]
    exact .refuses (heq ▸ stops) ((hm.trans moved).weaken (Nat.zero_le _))

theorem weaken (h : Agrees d c run r) (hk : k ≤ d) : Agrees k c run r := by
  cases h with
  | gives stops moved shows => exact .gives stops (moved.weaken hk) shows
  | refuses stops moved => exact .refuses stops moved

theorem succ (h : Agrees d c (fun clock => run (clock + 1)) r) : Agrees d c run r := by
  cases h with
  | gives stops moved shows => exact .gives stops.succ moved shows
  | refuses stops moved => exact .refuses stops.succ moved

theorem stay (hc : c.Within) {us : List Token} (hs : Shows c us) {a : α}
    {s : Option (Except Stop α × Cursor)} (h : s = some (.ok a, c)) :
    Agrees 0 c (fun _ => s) (.ok (a, us)) := .gives (.always h) (.refl hc) hs

theorem refuse (hc : c.Within) (refusal : Refusal) :
    Agrees d c (fun _ => (Cursor.refuse refusal : Reader α) c) (.error refusal) :=
  .refuses (.always rfl) (.refl hc)

end Agrees

/-- With fewer than `n` tokens to read the second reader does what the first one does, and moves over
at least `d` tokens to give something. -/
def Tracks (n d : Nat) (p : Parser α) (q : Nat → Reader α) : Prop :=
  ∀ c us, c.Within → Shows c us → c.ahead.length < n → Agrees d c (fun clock => q clock c) (p us)

namespace Tracks
variable {n d k : Nat} {p p' : Parser α} {q q' : Nat → Reader α} {f : α → Parser β}
  {g : Nat → α → Reader β}

theorem nothing : Tracks 0 d p q := fun _ _ _ _ hlt => absurd hlt (Nat.not_lt_zero _)

theorem pure (a : α) : Tracks n 0 (pure a) (fun _ => pure a) :=
  fun _ _ hc hs _ => .stay hc hs rfl

theorem succ (h : Tracks n d p (fun clock => q (clock + 1))) : Tracks n d p q :=
  fun c us hc hs hlt => (h c us hc hs hlt).succ

theorem fewer {m : Nat} (h : Tracks m d p q) (hn : n ≤ m) : Tracks n d p q :=
  fun c us hc hs hlt => h c us hc hs (Nat.lt_of_lt_of_le hlt hn)

theorem any (h : Tracks n d p q) : Tracks n 0 p q :=
  fun c us hc hs hlt => (h c us hc hs hlt).weaken (Nat.zero_le d)

theorem bind_taking {m : Nat} (hp : Tracks m d p q) (hf : ∀ a, Tracks n k (f a) (fun i => g i a))
    (hm : m ≤ n + d) : Tracks m (k + d) (p >>= f) (fun clock => q clock >>= g clock) := by
  intro c us hc hs hlt
  have h := hp c us hc hs hlt
  change Agrees _ c _ (Except.bind (p us) fun r => f r.1 r.2)
  generalize p us = r at h ⊢
  cases h with
  | refuses stops moved => exact .refuses stops.bind_error moved
  | @gives a rest c' stops moved shows =>
    -- the tokens that were taken pay for what the bound on the second part lacks
    have hlength := moved.length_ahead_le
    have hrest := (hf a c' rest moved.within shows (by omega)).later moved
    change Agrees _ c _ (f a rest)
    generalize f a rest = r at hrest ⊢
    cases hrest with
    | refuses stops' moved' => exact .refuses (stops.bind stops') moved'
    | gives stops' moved' shows' => exact .gives (stops.bind stops') moved' shows'

theorem bind (hp : Tracks n d p q) (hf : ∀ a, Tracks n 0 (f a) (fun i => g i a)) :
    Tracks n d (p >>= f) (fun clock => q clock >>= g clock) :=
  fun c us hc hs hlt => (bind_taking hp hf (Nat.le_add_right n d) c us hc hs hlt).weaken
    (Nat.le_add_left d 0)

theorem andThen (hp : Tracks n 0 p q) (hf : ∀ a, Tracks n k (f a) (fun i => g i a)) :
    Tracks n k (p >>= f) (fun clock => q clock >>= g clock) := bind_taking hp hf (Nat.le_refl n)

theorem after (hp : Tracks (n + 1) 1 p q) (hf : ∀ a, Tracks n 0 (f a) (fun i => g i a)) :
    Tracks (n + 1) 1 (p >>= f) (fun clock => q clock >>= g clock) :=
  bind_taking hp hf (Nat.le_refl _)

theorem ite {b : Bool} (hp : Tracks n d p q) (hp' : Tracks n d p' q') :
    Tracks n d (if b then p else p') (fun clock => if b then q clock else q' clock) := by
  cases b
  · exact hp'
  · exact hp

theorem test {stop : List Token → Bool} {stop' : Cursor → Bool}
    (hstop : ∀ c us, c.Within → Shows c us → stop us = stop' c) (hp : Tracks n d p q)
    (hp' : Tracks n d p' q') : Tracks n d (do if stop (← get) then p else p')
      (fun clock => do if stop' (← get) then q clock else q' clock) := by
  intro c us hc hs hlt
  change Agrees d c (fun clock => (if stop' c then q clock else q' clock) c)
    ((if stop us then p else p') us)
  rw [hstop c us hc hs]
  exact Tracks.ite hp hp' c us hc hs hlt

end Tracks

/-! Steps that readers share. -/

section Steps
variable {n : Nat} {c : Cursor} {us : List Token}

theorem Shows.cases (hs : Shows c us) (hc : c.Within) :
    (∃ t us', us = t :: us' ∧ t.kind ≠ .endOfInput ∧ c.token? = some t ∧
      Moved 1 c (c.moveTo (c.place + 1)) ∧ Shows (c.moveTo (c.place + 1)) us') ∨
    Grammar.atEnd us = true ∧ c.atEnd = true := by
  rcases Grammar.look_front hc.place_le with ⟨t, rest, hahead, htoken, hlt, hrest⟩ | ⟨hnil, hend⟩
  · obtain ⟨us', rfl, ht, hus'⟩ := Grammar.front_eq_cons (hs.trans hahead)
    exact .inl ⟨t, us', rfl, ht, htoken, .moveTo hc (Nat.le_refl _) hlt, hus'.trans hrest.symm⟩
  · exact .inr ⟨Grammar.front_eq_nil_iff.1 (hs.trans hnil), hend⟩

theorem nextIs_of_token? {t : Token} (h : c.token? = some t) (kind : Kind) :
    c.nextIs kind = (t.kind == kind) := by
  simp [nextIs, h]

theorem atEnd_of_token? {t : Token} (h : c.token? = some t) (ht : t.kind ≠ .endOfInput) :
    c.atEnd = false := by
  simp [atEnd, h, ht]

theorem atEnd_cases (h : c.atEnd = true) :
    c.token? = none ∨ ∃ t, c.token? = some t ∧ t.kind = .endOfInput := by
  unfold atEnd at h
  cases ht : c.token? with
  | none => exact .inl rfl
  | some t => exact .inr ⟨t, rfl, by simpa [ht] using h⟩

theorem nextIs_of_atEnd (h : c.atEnd = true) {kind : Kind} (hk : kind ≠ .endOfInput) :
    c.nextIs kind = false := by
  rcases atEnd_cases h with ht | ⟨t, ht, hend⟩
  · simp [nextIs, ht]
  · simpa [nextIs, ht, hend] using hk.symm

theorem Shows.nextIs_eq (hs : Shows c us) (hc : c.Within) {kind : Kind} (hk : kind ≠ .endOfInput) :
    Grammar.nextIs kind us = c.nextIs kind := by
  rcases hs.cases hc with ⟨t, us', rfl, -, ht, -⟩ | ⟨hend, hend'⟩
  · exact (nextIs_of_token? ht kind).symm
  · rw [nextIs_of_atEnd hend' hk]
    exact Grammar.nextIs_of_atEnd hend hk

theorem Shows.atEnd_eq (hs : Shows c us) (hc : c.Within) : Grammar.atEnd us = c.atEnd := by
  rcases hs.cases hc with ⟨t, us', rfl, hk, ht, -⟩ | ⟨hend, hend'⟩
  · rw [atEnd_of_token? ht hk]
    simpa [Grammar.atEnd] using hk
  · rw [hend, hend']

theorem advance_eq {t : Token} (ht : c.token? = some t) (hk : t.kind ≠ .endOfInput) :
    advance c = some (.ok t, c.moveTo (c.place + 1)) := by
  have hprevious : previous (c.moveTo (c.place + 1)) = some (.ok t, c.moveTo (c.place + 1)) := by
    unfold previous
    rw [get_bind]
    have hget : (c.moveTo (c.place + 1)).tokens[(c.moveTo (c.place + 1)).place - 1]? = some t := ht
    rw [hget]
    rfl
  unfold advance
  rw [get_bind, atEnd_of_token? ht hk]
  exact hprevious

theorem accept_of_token? {t : Token} (ht : c.token? = some t) (hk : t.kind ≠ .endOfInput) :
    accept t.kind c = some (.ok true, c.moveTo (c.place + 1)) := by
  unfold accept
  rw [get_bind, nextIs_of_token? ht, if_pos (beq_self_eq_true t.kind), bind_of_ok (advance_eq ht hk)]
  rfl

theorem accept_of_not_nextIs {kind : Kind} (h : c.nextIs kind = false) :
    accept kind c = some (.ok false, c) := by
  unfold accept
  rw [get_bind, if_neg (by simp [h])]
  rfl

theorem accept_tracks {kind : Kind} (hk : kind ≠ .endOfInput) :
    Tracks n 0 (Grammar.accept kind) (fun _ => accept kind) := by
  intro c us hc hs _
  unfold Grammar.accept
  rw [hs.nextIs_eq hc hk]
  cases hnext : c.nextIs kind with
  | false => exact .stay hc hs (accept_of_not_nextIs hnext)
  | true =>
    rcases hs.cases hc with ⟨t, us', rfl, hne, ht, hmoved, hs'⟩ | ⟨-, hend⟩
    · obtain rfl : t.kind = kind := by simpa [nextIs_of_token? ht] using hnext
      exact .gives (.always (accept_of_token? ht hne)) (hmoved.weaken (Nat.zero_le 1)) hs'
    · rw [nextIs_of_atEnd hend hk] at hnext
      cases hnext

theorem expect_tracks {kind : Kind} (hk : kind ≠ .endOfInput) (what : String) :
    Tracks n 1 (Grammar.expect kind what) (fun _ => expect kind what) := by
  intro c us hc hs _
  unfold expect
  simp only [get_bind]
  rcases hs.cases hc with ⟨t, us', rfl, hne, ht, hmoved, hs'⟩ | ⟨hend, hend'⟩
  · rw [nextIs_of_token? ht]
    by_cases htk : t.kind = kind
    · simp only [Grammar.expect, htk, if_true, beq_self_eq_true]
      exact .gives (.always (advance_eq ht hne)) hmoved hs'
    · simp only [Grammar.expect, htk, hne, ht, if_false, beq_eq_false_iff_ne.2 htk,
        Bool.false_eq_true]
      exact .refuse hc _
  · have hlist : Grammar.expect kind what us = .error (.wantedAtEnd what) := by
      rcases Grammar.atEnd_cases hend with rfl | ⟨t, us, rfl, ht⟩
      · rfl
      · simp [Grammar.expect, ht, hk.symm]
    rw [nextIs_of_atEnd hend' hk]
    rcases atEnd_cases hend' with htoken | ⟨t, htoken, ht⟩
    · simp only [hlist, htoken, Bool.false_eq_true, if_false]
      exact .refuse hc _
    · simp only [hlist, htoken, ht, Bool.false_eq_true, if_false, if_true]
      exact .refuse hc _

theorem expectName_tracks (what : String) :
    Tracks n 1 (Grammar.expectName what) (fun _ => expectName what) :=
  (expect_tracks (by simp) what).bind fun t => .pure t.text

theorem expectDelimiter_tracks (d : Delimiter) :
    Tracks n 1 (Grammar.expectDelimiter d) (fun _ => expectDelimiter d) :=
  (expect_tracks (by simp) _).bind fun _ => .pure ()

theorem dropLineEnds_of_not_nextIs (h : Grammar.nextIs .endOfLine us = false) :
    Grammar.dropLineEnds us = us := by
  cases us with
  | nil => rfl
  | cons t us =>
    have ht : ¬t.kind = .endOfLine := by simpa [Grammar.nextIs] using h
    simp [Grammar.dropLineEnds, ht]

theorem skipLineEnds_tracks : Tracks n 0 Grammar.skipLineEnds skipLineEnds := by
  intro c us hc hs hlt
  clear hlt
  change Agrees 0 c _ (.ok ((), Grammar.dropLineEnds us))
  have hstay {c : Cursor} {us : List Token} (hc : c.Within) (hs : Shows c us)
      (hnext : c.nextIs .endOfLine = false) :
      Agrees 0 c (fun clock => skipLineEnds clock c) (.ok ((), Grammar.dropLineEnds us)) := by
    rw [dropLineEnds_of_not_nextIs ((hs.nextIs_eq hc (by simp)).trans hnext)]
    refine .succ ?_
    simp only [skipLineEnds, bind_of_ok (accept_of_not_nextIs hnext)]
    exact .stay hc hs rfl
  induction us generalizing c with
  | nil => exact hstay hc hs (hs.nextIs_eq hc (by simp)).symm
  | cons t us ih =>
    rcases hs.cases hc with ⟨_, _, heq, hne, ht, hmoved, hs'⟩ | ⟨-, hend⟩
    · cases heq
      by_cases hk : t.kind = .endOfLine
      · have hdrop : Grammar.dropLineEnds (t :: us) = Grammar.dropLineEnds us := by
          simp [Grammar.dropLineEnds, hk]
        have haccept := hk ▸ accept_of_token? ht hne
        refine .succ ?_
        simp only [skipLineEnds, bind_of_ok haccept, if_true, hdrop]
        exact (ih _ hmoved.within hs').later (hmoved.weaken (Nat.zero_le 1))
      · exact hstay hc hs (by simpa [nextIs_of_token? ht] using hk)
    · exact hstay hc hs (nextIs_of_atEnd hend (by simp))

theorem pastLineEnds_stops {place : Nat} (h : place ≤ c.limit) :
    ∃ j, Stops (fun clock => pastLineEnds clock place c) (.ok j) c ∧ place ≤ j ∧ j ≤ c.limit ∧
      (front c.tokens).drop j = Grammar.dropLineEnds ((front c.tokens).drop place) := by
  -- the cursor stays, so the induction is on the tokens that are looked at
  generalize hrest : (front c.tokens).drop place = rest
  induction rest generalizing place with
  | nil =>
    rcases Grammar.look_front h with ⟨_, _, hcons, -⟩ | ⟨-, hend⟩
    · simp [hrest] at hcons
    · refine ⟨place, .succ ?_, Nat.le_refl _, h, hrest⟩
      simp only [pastLineEnds, get_bind]
      cases ht : c.tokens[place]? with
      | none => exact .always rfl
      | some t =>
        have hk : t.kind = .endOfInput := by simpa [ht] using hend
        simp only [hk, reduceCtorEq, if_false]
        exact .always rfl
  | cons t rest ih =>
    rcases Grammar.look_front h with ⟨_, _, hcons, ht, hlt, hnext⟩ | ⟨hnil, -⟩
    · cases hrest.symm.trans hcons
      by_cases hk : t.kind = .endOfLine
      · obtain ⟨j, hj, hle, hlimit, hdrop⟩ := ih hlt hnext
        refine ⟨j, .succ ?_, by omega, hlimit, ?_⟩
        · simpa only [pastLineEnds, get_bind, ht, hk, if_true] using hj
        · rw [hdrop]
          simp [Grammar.dropLineEnds, hk]
      · refine ⟨place, .succ ?_, Nat.le_refl _, h, ?_⟩
        · simp only [pastLineEnds, get_bind, ht, hk, if_false]
          exact .always rfl
        · rw [hrest]
          simp [Grammar.dropLineEnds, hk]
    · simp [hrest] at hnil

theorem takeElse_of_some {place : Nat} {t : Token} (ht : c.tokens[place]? = some t)
    (hk : t.kind = .keyword .elseWord) : takeElse place c = some (.ok true, c.moveTo (place + 1)) := by
  simp only [takeElse, get_bind, ht, hk, if_true]
  rfl

theorem takeElse_of_forall_ne {place : Nat}
    (h : ∀ t ∈ c.tokens[place]?, t.kind ≠ .keyword .elseWord) :
    takeElse place c = some (.ok false, c) := by
  simp only [takeElse, get_bind]
  cases ht : c.tokens[place]? with
  | none => rfl
  | some t =>
    simp only [h t ht, if_false]
    rfl

theorem acceptElse_tracks : Tracks n 0 Grammar.acceptElse acceptElse := by
  intro c us hc hs _
  obtain ⟨j, hj, hle, hlimit, hdrop⟩ := pastLineEnds_stops hc.place_le
  have hahead : front (Grammar.dropLineEnds us) = (front c.tokens).drop j := by
    rw [Grammar.front_dropLineEnds, hdrop]
    exact congrArg _ hs
  have hstay (h : Grammar.nextIs (.keyword .elseWord) (Grammar.dropLineEnds us) = false)
      (hne : ∀ t ∈ c.tokens[j]?, t.kind ≠ .keyword .elseWord) :
      Agrees 0 c (fun clock => acceptElse clock c) (Grammar.acceptElse us) := by
    rw [Grammar.acceptElse_eq, h]
    exact .gives (hj.bind (.always (takeElse_of_forall_ne hne))) (.refl hc) hs
  rcases Grammar.look_front hlimit with ⟨t, rest, hcons, ht, hlt, hrest⟩ | ⟨hnil, hend⟩
  · obtain ⟨us', hus, hne, hus'⟩ := Grammar.front_eq_cons (hahead.trans hcons)
    by_cases hk : t.kind = .keyword .elseWord
    · rw [Grammar.acceptElse_eq, hus, if_pos (by simp [Grammar.nextIs, hk])]
      exact .gives (hj.bind (.always (takeElse_of_some ht hk))) (.moveTo hc (by omega) hlt)
        (hus'.trans hrest.symm)
    · exact hstay (by simp [hus, Grammar.nextIs, hk]) (by simpa [ht] using hk)
  · have hlist := Grammar.front_eq_nil_iff.1 (hahead.trans hnil)
    refine hstay (Grammar.nextIs_of_atEnd hlist (by simp)) fun t ht => ?_
    have hk : t.kind = .endOfInput := by simpa [Option.mem_def.1 ht] using hend
    simp [hk]

theorem Shows.test_cases {test : Token → Bool} (hend : ∀ t, test t = true → t.kind ≠ .endOfInput)
    (hs : Shows c us) (hc : c.Within) :
    (∃ t us', us = t :: us' ∧ test t = true ∧ c.token? = some t ∧
      advance c = some (.ok t, c.moveTo (c.place + 1)) ∧
      Moved 1 c (c.moveTo (c.place + 1)) ∧ Shows (c.moveTo (c.place + 1)) us') ∨
    (∀ t ∈ us.head?, test t = false) ∧ c.token?.any test = false := by
  have hfail {t : Token} (ht : t.kind = .endOfInput) : test t = false :=
    Bool.eq_false_iff.2 fun htest => hend t htest ht
  rcases hs.cases hc with ⟨t, us', rfl, hne, ht, hmoved, hs'⟩ | ⟨hu, hc'⟩
  · cases htest : test t with
    | true => exact .inl ⟨t, us', rfl, htest, ht, advance_eq ht hne, hmoved, hs'⟩
    | false => exact .inr ⟨by simpa using htest, by simpa [ht] using htest⟩
  · refine .inr ⟨?_, ?_⟩
    · rcases Grammar.atEnd_cases hu with rfl | ⟨t, us, rfl, ht⟩
      · simp
      · simpa using hfail ht
    · rcases atEnd_cases hc' with ht | ⟨t, ht, hk⟩
      · simp [ht]
      · simpa [ht] using hfail hk

theorem acceptMeaning_cases {meaning? : Token → Option β}
    (hend : ∀ t b, meaning? t = some b → t.kind ≠ .endOfInput) (hs : Shows c us) (hc : c.Within) :
    (∃ t us' b, us = t :: us' ∧ meaning? t = some b ∧
      acceptMeaning meaning? c = some (.ok (some b), c.moveTo (c.place + 1)) ∧
      Moved 1 c (c.moveTo (c.place + 1)) ∧ Shows (c.moveTo (c.place + 1)) us') ∨
    (∀ t ∈ us.head?, meaning? t = none) ∧ acceptMeaning meaning? c = some (.ok none, c) := by
  have hend' (t : Token) (ht : (meaning? t).isSome = true) : t.kind ≠ .endOfInput := by
    obtain ⟨b, hb⟩ := Option.isSome_iff_exists.1 ht
    exact hend t b hb
  unfold acceptMeaning
  rw [get_bind]
  rcases hs.test_cases hend' hc with ⟨t, us', rfl, htest, ht, hadvance, hmoved, hs'⟩ | ⟨hnone, hq⟩
  · obtain ⟨b, hb⟩ := Option.isSome_iff_exists.1 htest
    refine .inl ⟨t, us', b, rfl, hb, ?_, hmoved, hs'⟩
    simp only [ht, Option.bind_some, hb]
    rw [bind_of_ok hadvance]
    rfl
  · refine .inr ⟨by simpa using hnone, ?_⟩
    have hbind : c.token?.bind meaning? = none := by
      cases ht : c.token? with
      | none => rfl
      | some t => simpa [ht] using hq
    rw [hbind]
    rfl

end Steps
end Cursor
end Parlance
