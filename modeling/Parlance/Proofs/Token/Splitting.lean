import Parlance.Proofs.Token.Lexemes
import Parlance.Proofs.Token.Places
import Parlance.Source

/-! Tokens as a split of the source. A source has tokens exactly if it is, from end to end, gaps and
lexemes of the lexical grammar in turn; the tokens are then those of the lexemes, each at the place
where its lexeme begins. Otherwise such a split can be followed up to one place and no further, and
that place is named by the fault. -/

namespace Parlance.Token

structure Piece where
  gap : List Char
  source : List Char
  kind : Kind
  text : List Char

namespace Piece

def written (x : Piece) : List Char := x.gap ++ x.source

def content (x : Piece) : Kind × String := (x.kind, String.ofList x.text)

/-- The tokens of pieces that come after `before`: each stands where its lexeme begins. -/
def tokens (before : List Char) : List Piece → List Token
  | [] => []
  | x :: xs =>
    ⟨x.kind, String.ofList x.text, .ofText (before ++ x.gap)⟩ :: tokens (before ++ x.written) xs

theorem map_content_tokens (before : List Char) (xs : List Piece) :
    (tokens before xs).map Token.content = xs.map content := by
  induction xs generalizing before with
  | nil => rfl
  | cons x xs ih =>
    rw [List.map_cons, ← ih (before ++ x.written)]
    rfl

end Piece

inductive Splits : List Char → List Piece → List Char → Prop
  | stop {gap rest : List Char} : Gap gap rest → Splits (gap ++ rest) [] rest
  | piece {x : Piece} {cs rest : List Char} {xs : List Piece} : Gap x.gap (x.source ++ cs) →
      Reads cs x.source x.kind x.text → Splits cs xs rest →
      Splits (x.gap ++ (x.source ++ cs)) (x :: xs) rest

/-! The lexer goes from piece to piece. -/

theorem scanFrom_gap {gap rest : List Char} (h : Gap gap rest) (p : Position) :
    scanFrom p (gap ++ rest) = scanFrom (p.after gap) rest := by
  have hskip {r : Except (Refusal × Position) (List Token)} : r.map ([] ++ ·) = r := by
    cases r <;> rfl
  induction h generalizing p with
  | nil => rfl
  | @blank c gap rest hb hn _ ih =>
    have hfirst := first_blank hb hn (gap ++ rest)
    rw [List.cons_append, scanFrom_of_ok hfirst]
    exact hskip.trans (ih (p.after [c]))
  | comment hcs hrest =>
    rw [List.cons_append, scanFrom_of_ok (first_comment hcs hrest)]
    exact hskip

theorem Reads.scanFrom_eq {rest l text : List Char} {kind : Kind} (h : Reads rest l kind text)
    (p : Position) : scanFrom p (l ++ rest) =
      (scanFrom (p.after l) rest).map (⟨kind, String.ofList text, p⟩ :: ·) := by
  obtain ⟨c, cs, hl, hfirst⟩ := h.exists_first
  rw [hl, scanFrom_of_ok hfirst]
  rfl

theorem Splits.scanFrom_eq {cs rest : List Char} {xs : List Piece} (h : Splits cs xs rest)
    (before : List Char) : ∃ front, front ++ rest = cs ∧
      scanFrom (.ofText before) cs = (scanFrom (.ofText (before ++ front)) rest).map
        (Piece.tokens before xs ++ ·) := by
  induction h generalizing before with
  | @stop gap rest hgap =>
    refine ⟨gap, rfl, ?_⟩
    rw [scanFrom_gap hgap, Position.after_ofText]
    cases scanFrom (.ofText (before ++ gap)) rest <;> rfl
  | @piece x cs rest xs hgap hreads _ ih =>
    obtain ⟨front, rfl, hscan⟩ := ih (before ++ x.written)
    refine ⟨x.written ++ front, by simp [Piece.written], ?_⟩
    rw [scanFrom_gap hgap, hreads.scanFrom_eq, Position.after_ofText, Position.after_ofText,
      List.append_assoc before x.gap x.source, ← Piece.written, hscan, List.append_assoc before]
    cases scanFrom (.ofText (before ++ (x.written ++ front))) rest <;> rfl

theorem scanFrom_of_stuck {cs : List Char} {refusal : Refusal} (h : Stuck cs refusal)
    (p : Position) : scanFrom p cs = .error (refusal, p) := by
  cases cs with
  | nil => cases h
  | cons c cs => exact scanFrom_of_error (first_eq_error_iff.2 h) p

/-! Every text can be split as far as the grammar goes. -/

theorem Gap.append {gap gap' rest : List Char} (h : Gap gap (gap' ++ rest)) (h' : Gap gap' rest) :
    Gap (gap ++ gap') rest := by
  generalize hfollow : gap' ++ rest = follow at h
  induction h with
  | nil => exact h'
  | blank hb hn _ ih => exact .blank hb hn (ih hfollow)
  | comment hcs hend =>
    subst hfollow
    -- after a comment there is a newline or nothing, and a gap begins with neither
    cases h' with
    | nil =>
      rw [List.append_nil]
      exact .comment hcs hend
    | blank _ hn _ => exact absurd (hend _ rfl) hn
    | comment => exact absurd (hend _ rfl) (by decide)

theorem Splits.exists_after_gap {gap cs rest : List Char} {xs : List Piece} (hgap : Gap gap cs)
    (h : Splits cs xs rest) : ∃ xs', Splits (gap ++ cs) xs' rest := by
  cases h with
  | stop hlast =>
    refine ⟨[], ?_⟩
    rw [← List.append_assoc]
    exact .stop (hgap.append hlast)
  | @piece x cs rest xs hfirst hreads hrest =>
    refine ⟨{ x with gap := gap ++ x.gap } :: xs, ?_⟩
    rw [← List.append_assoc]
    exact .piece (x := { x with gap := gap ++ x.gap }) (hgap.append hfirst) hreads hrest

theorem exists_splits (cs : List Char) :
    ∃ xs rest, Splits cs xs rest ∧ (rest = [] ∨ ∃ refusal, Stuck rest refusal) := by
  induction hn : cs.length using Nat.strongRecOn generalizing cs with
  | _ n ih =>
    cases cs with
    | nil => exact ⟨[], [], .stop (.nil []), .inl rfl⟩
    | cons c cs =>
      cases hf : Lexeme.first c cs with
      | error refusal => exact ⟨[], c :: cs, .stop (.nil _), .inr ⟨refusal, stuck_of_first hf⟩⟩
      | ok l =>
        have hshorter : l.rest.length < n := by
          have := Lexeme.first_rest_le hf
          rw [← hn, List.length_cons]
          omega
        obtain ⟨xs, rest, hsplits, hend⟩ := ih l.rest.length hshorter l.rest rfl
        rw [← first_taken hf]
        rcases gap_or_reads_of_first hf with ⟨-, hgap⟩ | ⟨kind, -, hreads⟩
        · obtain ⟨xs', hsplits'⟩ := hsplits.exists_after_gap hgap
          exact ⟨xs', rest, hsplits', hend⟩
        · exact ⟨⟨[], l.taken, kind, l.text⟩ :: xs, rest,
            .piece (x := ⟨[], l.taken, kind, l.text⟩) (.nil _) hreads hsplits, hend⟩

theorem Splits.suffix_of_stuck {cs rest rest' : List Char} {xs xs' : List Piece} {refusal : Refusal}
    (h : Splits cs xs rest) (hstuck : Stuck rest refusal) (h' : Splits cs xs' rest') :
    rest <:+ rest' := by
  obtain ⟨front, rfl, hscan⟩ := h.scanFrom_eq []
  obtain ⟨front', hfront', hscan'⟩ := h'.scanFrom_eq []
  rw [scanFrom_of_stuck hstuck] at hscan
  -- the refusal of the whole text is one of what the other split has left
  have hrefused : scanFrom (.ofText front') rest' = .error (refusal, .ofText front) := by
    have hsame := hscan'.symm.trans hscan
    rw [List.nil_append] at hsame
    cases hr : scanFrom (.ofText front') rest' with
    | ok ts =>
      rw [hr] at hsame
      cases hsame
    | error e =>
      rw [hr] at hsame
      cases hsame
      rfl
  obtain ⟨more, hmore, hplace⟩ := (reached_of_scanFrom _ _).2 _ _ hrefused
  rw [Position.after_ofText] at hplace
  have hstart : front' ++ more <+: front ++ rest := by
    rw [← hfront']
    exact (List.prefix_append_right_inj front').2 hmore
  obtain rfl := Position.ofText_injective (List.prefix_append front rest) hstart hplace
  rw [List.append_assoc, List.append_cancel_left_eq] at hfront'
  exact ⟨more, hfront'.symm⟩

/-! What a lexeme can be. -/

theorem Reads.kind_ne_endOfInput {rest l text : List Char} {kind : Kind}
    (h : Reads rest l kind text) : kind ≠ .endOfInput := by
  obtain ⟨c, cs, -, hfirst⟩ := h.exists_first
  intro he
  exact first_kind?_ne_endOfInput hfirst (congrArg some he)

theorem Reads.keyword_iff {rest l text : List Char} {kind : Kind} (h : Reads rest l kind text)
    (k : Keyword) : kind = .keyword k ↔ l = k.spelling.toList := by
  have hletter : ∃ c cs, k.spelling.toList = c :: cs ∧ opening c = .name := by
    cases k <;> exact ⟨_, _, rfl, rfl⟩
  cases h with
  | @plain form l kind hlongest hkind =>
    constructor
    · rintro rfl
      cases form <;> first | exact hkind | exact hkind.elim
    · rintro rfl
      obtain ⟨c, cs, hl, ho⟩ := hletter
      obtain ⟨c', cs', hl', ho'⟩ := hlongest.1.exists_cons
      rw [hl] at hl'
      obtain ⟨rfl, -⟩ := List.cons.inj hl'
      rw [ho] at ho'
      cases form with
      | name => exact hkind.unique (show Form.name.Yields _ (.keyword k) from rfl)
      | _ => cases ho'
  | @string quote body text hq hbody =>
    constructor
    · intro he
      cases he
    · intro he
      obtain ⟨c, cs, hl, ho⟩ := hletter
      rw [hl] at he
      obtain ⟨rfl, -⟩ := List.cons.inj he
      rw [opening_of_isQuote hq] at ho
      cases ho

theorem Splits.forall_mem {cs rest : List Char} {xs : List Piece} (h : Splits cs xs rest) :
    ∀ x ∈ xs, ∃ rest, Reads rest x.source x.kind x.text := by
  induction h with
  | stop => simp
  | piece _ hreads _ ih => exact List.forall_mem_cons.2 ⟨⟨_, hreads⟩, ih⟩

theorem Splits.tokens_eq_ok {s : String} {xs : List Piece} (h : Splits s.toList xs []) :
    Source.tokens s =
      .ok (Piece.tokens [] xs ++ [⟨.endOfInput, "", .ofText s.toList⟩]) := by
  obtain ⟨front, hfront, hscan⟩ := h.scanFrom_eq []
  rw [List.append_nil] at hfront
  rw [scanFrom, hfront] at hscan
  have hs : scan s = .ok (Piece.tokens [] xs ++ [⟨.endOfInput, "", .ofText s.toList⟩]) := hscan
  rw [Source.tokens, hs]

theorem Splits.tokens_eq_error {s : String} {xs : List Piece} {rest : List Char} {refusal : Refusal}
    (h : Splits s.toList xs rest) (hstuck : Stuck rest refusal) :
    ∃ before, before ++ rest = s.toList ∧
      Source.tokens s = .error (.lexical refusal (.ofText before)) := by
  obtain ⟨front, hfront, hscan⟩ := h.scanFrom_eq []
  rw [scanFrom_of_stuck hstuck] at hscan
  have hs : scan s = .error (refusal, .ofText front) := hscan
  exact ⟨front, hfront, by rw [Source.tokens, hs]⟩

/-! Places. -/

theorem Reads.source_ne_nil {rest l text : List Char} {kind : Kind} (h : Reads rest l kind text) :
    l ≠ [] := by
  cases h with
  | plain hlongest _ =>
    obtain ⟨c, cs, rfl, -⟩ := hlongest.1.exists_cons
    exact List.cons_ne_nil c cs
  | string => exact List.cons_ne_nil _ _

theorem Splits.exists_place {cs rest : List Char} {xs : List Piece} (h : Splits cs xs rest)
    (before : List Char) : ∀ t ∈ Piece.tokens before xs, ∃ u v, u ++ v = cs ∧ v ≠ [] ∧
      t.position = .ofText (before ++ u) := by
  induction h generalizing before with
  | stop => simp [Piece.tokens]
  | @piece x cs rest xs _ hreads _ ih =>
    intro t ht
    rcases List.mem_cons.1 ht with rfl | ht
    · exact ⟨x.gap, x.source ++ cs, rfl, by simp [hreads.source_ne_nil], rfl⟩
    · obtain ⟨u, v, rfl, hv, hplace⟩ := ih (before ++ x.written) t ht
      exact ⟨x.written ++ u, v, by simp [Piece.written], hv, by rw [hplace, List.append_assoc]⟩

theorem Splits.pairwise_positions {cs rest : List Char} {xs : List Piece} (h : Splits cs xs rest)
    (before : List Char) : ((Piece.tokens before xs).map (·.position)).Pairwise Position.Before := by
  induction h generalizing before with
  | stop => exact .nil
  | @piece x cs rest xs _ hreads hsplits ih =>
    refine List.pairwise_cons.2 ⟨fun p hp => ?_, ih (before ++ x.written)⟩
    obtain ⟨t, ht, rfl⟩ := List.mem_map.1 hp
    obtain ⟨u, v, -, -, hplace⟩ := hsplits.exists_place (before ++ x.written) t ht
    -- the lexeme itself lies between the two places
    have hbetween : before ++ x.written ++ u = (before ++ x.gap) ++ (x.source ++ u) := by
      simp [Piece.written]
    rw [hplace, hbetween]
    exact Position.ofText_before_append _ (by simp [hreads.source_ne_nil])

/-- The tokens of a source are those of its split into gaps and longest lexemes, with the end of the input
after them. Exactly the sixteen keywords are read as keywords. A source that cannot be split to its end
is refused at the furthest place that a split comes to. -/
theorem tokens_split_source (s : String) :
    (∀ contents, (∃ ts, Source.tokens s = .ok ts ∧ ts.map content = contents) ↔
      ∃ xs, Splits s.toList xs [] ∧ contents = xs.map Piece.content ++ [ending]) ∧
    (∀ xs rest, Splits s.toList xs rest → ∀ x ∈ xs, x.kind ≠ .endOfInput ∧
      ((∃ k, x.kind = .keyword k) ↔ String.ofList x.source ∈ ["if", "else", "while", "for", "function",
        "return", "true", "false", "null", "and", "or", "not", "var", "event", "on", "trigger"])) ∧
    ∀ fault, Source.tokens s = .error fault ↔
      ∃ xs before rest refusal, Splits s.toList xs rest ∧ Stuck rest refusal ∧
        (∀ xs' rest', Splits s.toList xs' rest' → rest <:+ rest') ∧
        before ++ rest = s.toList ∧ fault = .lexical refusal (.ofText before) := by
  have hcontent {xs : List Piece} (h : Splits s.toList xs []) :
      ∃ ts, Source.tokens s = .ok ts ∧ ts.map content = xs.map Piece.content ++ [ending] :=
    ⟨_, h.tokens_eq_ok, by rw [List.map_append, Piece.map_content_tokens]; rfl⟩
  obtain ⟨xs, rest, hsplits, hend⟩ := exists_splits s.toList
  refine ⟨fun contents => ⟨?_, ?_⟩, fun xs rest h x hx => ?_, fun fault => ⟨?_, ?_⟩⟩
  · rintro ⟨ts, hts, rfl⟩
    rcases hend with rfl | ⟨refusal, hstuck⟩
    · obtain ⟨ts', hts', hmap⟩ := hcontent hsplits
      rw [hts] at hts'
      cases hts'
      exact ⟨xs, hsplits, hmap⟩
    · obtain ⟨before, -, herror⟩ := hsplits.tokens_eq_error hstuck
      rw [hts] at herror
      cases herror
  · rintro ⟨xs', hsplits', rfl⟩
    exact hcontent hsplits'
  · obtain ⟨_, hreads⟩ := h.forall_mem x hx
    refine ⟨hreads.kind_ne_endOfInput, ?_⟩
    have hkeywords : ["if", "else", "while", "for", "function", "return", "true", "false", "null",
        "and", "or", "not", "var", "event", "on", "trigger"] = Keyword.all.map Keyword.spelling := rfl
    simp only [hkeywords, hreads.keyword_iff, List.mem_map]
    constructor
    · rintro ⟨k, hk⟩
      exact ⟨k, k.mem_all, by rw [hk, String.ofList_toList]⟩
    · rintro ⟨k, -, hk⟩
      exact ⟨k, by rw [hk, String.toList_ofList]⟩
  · intro herror
    rcases hend with rfl | ⟨refusal, hstuck⟩
    · rw [hsplits.tokens_eq_ok] at herror
      cases herror
    · obtain ⟨before, hbefore, herror'⟩ := hsplits.tokens_eq_error hstuck
      rw [herror] at herror'
      cases herror'
      exact ⟨xs, before, rest, refusal, hsplits, hstuck,
        fun xs' rest' h' => hsplits.suffix_of_stuck hstuck h', hbefore, rfl⟩
  · rintro ⟨xs', before, rest', refusal, hsplits', hstuck, -, hbefore, rfl⟩
    obtain ⟨before', hbefore', herror⟩ := hsplits'.tokens_eq_error hstuck
    rw [← hbefore, List.append_cancel_right_eq] at hbefore'
    rw [herror, hbefore']

/-- Every token stands where its lexeme begins, the end of the input after the whole source, and a
refusal at the character that cannot be read. Lines and columns are those of the text before that
place, and they go up from token to token. -/
theorem tokens_stand_at_lexemes (s : String) :
    (∀ ts, Source.tokens s = .ok ts → ∃ xs, Splits s.toList xs [] ∧
      ts = Piece.tokens [] xs ++ [⟨.endOfInput, "", .ofText s.toList⟩] ∧
      (ts.map (·.position)).Pairwise Position.Before) ∧
    ∀ fault, Source.tokens s = .error fault → ∃ xs before c rest refusal,
      Splits s.toList xs (c :: rest) ∧ Stuck (c :: rest) refusal ∧ before ++ c :: rest = s.toList ∧
      fault = .lexical refusal (.ofText before) := by
  obtain ⟨xs, rest, hsplits, hend⟩ := exists_splits s.toList
  constructor
  · intro ts hts
    rcases hend with rfl | ⟨refusal, hstuck⟩
    · rw [hsplits.tokens_eq_ok] at hts
      cases hts
      refine ⟨xs, hsplits, rfl, ?_⟩
      rw [List.map_append, List.pairwise_append]
      refine ⟨hsplits.pairwise_positions [], List.pairwise_singleton _ _, fun p hp q hq => ?_⟩
      obtain ⟨t, ht, rfl⟩ := List.mem_map.1 hp
      obtain ⟨u, v, huv, hv, hplace⟩ := hsplits.exists_place [] t ht
      rw [List.mem_singleton.1 hq, hplace, ← huv]
      exact Position.ofText_before_append u hv
    · obtain ⟨before, -, herror⟩ := hsplits.tokens_eq_error hstuck
      rw [hts] at herror
      cases herror
  · intro fault herror
    rcases hend with rfl | ⟨refusal, hstuck⟩
    · rw [hsplits.tokens_eq_ok] at herror
      cases herror
    · obtain ⟨before, hbefore, herror'⟩ := hsplits.tokens_eq_error hstuck
      rw [herror] at herror'
      cases herror'
      cases rest with
      | nil => cases hstuck
      | cons c rest => exact ⟨xs, before, c, rest, refusal, hsplits, hstuck, hbefore, rfl⟩

end Parlance.Token
