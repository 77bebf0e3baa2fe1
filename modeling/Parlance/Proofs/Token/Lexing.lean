import Parlance.Token.Lexer

/-! The tokens of a text, without their positions. A stretch of text is read with the characters that
really follow it, so that stretches read one after the other can be put together, and a token at the
end of one is never cut short. -/

namespace Parlance.Token

inductive Opening where
  | lineEnd
  | blank
  | comment
  | name
  | digit
  | quote
  | operator
  | delimiter (d : Delimiter)
  | nothing
  deriving DecidableEq

def opening (c : Char) : Opening :=
  if c = '\n' then .lineEnd
  else if Text.isBlank c then .blank
  else if c = '#' then .comment
  else if startsName c then .name
  else if c.isDigit then .digit
  else if c = '"' || c = '\'' then .quote
  else if c = ';' then .lineEnd
  else if isOperatorChar c then .operator
  else
    match Delimiter.ofChar? c with
    | some d => .delimiter d
    | none => .nothing

theorem first_eq (c : Char) (cs : List Char) : Lexeme.first c cs =
    match opening c with
    | .lineEnd => .ok (.plain .endOfLine [c] cs)
    | .blank => .ok (.gap [c] cs)
    | .comment => .ok (.gap (c :: cs.takeWhile (· != '\n')) (cs.dropWhile (· != '\n')))
    | .name => .ok (.plain (nameKind (String.ofList (c :: cs.takeWhile continuesName)))
        (c :: cs.takeWhile continuesName) (cs.dropWhile continuesName))
    | .digit => .ok (Lexeme.number (c :: cs))
    | .quote =>
      match Lexeme.contents c cs with
      | some (text, taken, rest) => .ok ⟨some .string, text, c :: taken, rest⟩
      | none => .error .unterminated
    | .operator =>
      .ok (.plain .operator (c :: cs.takeWhile isOperatorChar) (cs.dropWhile isOperatorChar))
    | .delimiter d => .ok (.plain (.delimiter d) [c] cs)
    | .nothing => .error (.unexpected c) := by
  unfold Lexeme.first opening
  by_cases hn : c = '\n'
  · simp only [if_pos hn]
  by_cases hb : Text.isBlank c = true
  · simp only [if_neg hn, if_pos hb]
  by_cases hc : c = '#'
  · simp only [if_neg hn, if_neg hb, if_pos hc]
  by_cases hs : startsName c = true
  · simp only [if_neg hn, if_neg hb, if_neg hc, if_pos hs]
  by_cases hd : c.isDigit = true
  · simp only [if_neg hn, if_neg hb, if_neg hc, if_neg hs, if_pos hd]
  simp only [if_neg hn, if_neg hb, if_neg hc, if_neg hs, if_neg hd]
  by_cases hq : (decide (c = '"') || decide (c = '\'')) = true
  · rcases Lexeme.contents c cs with _ | ⟨text, taken, rest⟩ <;> simp only [if_pos hq]
  by_cases he : c = ';'
  · simp only [if_neg hq, if_pos he]
  by_cases ho : isOperatorChar c = true
  · simp only [if_neg hq, if_neg he, if_pos ho]
  simp only [if_neg hq, if_neg he, if_neg ho]
  cases Delimiter.ofChar? c <;> rfl

theorem opening_eq_quote {c : Char} (h : opening c = .quote) : c = '"' ∨ c = '\'' := by
  unfold opening at h
  repeat' split at h
  all_goals first | contradiction | skip
  next hq => simpa using hq

theorem opening_eq_comment {c : Char} (h : opening c = .comment) : c = '#' := by
  unfold opening at h
  repeat' split at h
  all_goals first | contradiction | assumption

def content (t : Token) : Kind × String := (t.kind, t.text)

def Lexeme.content (l : Lexeme) : List (Kind × String) :=
  (l.kind?.map fun kind => (kind, String.ofList l.text)).toList

def Lexeme.tokens (l : Lexeme) (p : Position) : List Token :=
  (l.kind?.map fun kind => ⟨kind, String.ofList l.text, p⟩).toList

theorem scanFrom_of_error {c : Char} {cs : List Char} {refusal : Refusal}
    (h : Lexeme.first c cs = .error refusal) (p : Position) :
    scanFrom p (c :: cs) = .error (refusal, p) := by
  rw [scanFrom]
  split
  · simp_all
  · next l hl =>
    rw [h] at hl
    cases hl

theorem scanFrom_of_ok {c : Char} {cs : List Char} {l : Lexeme} (h : Lexeme.first c cs = .ok l)
    (p : Position) : scanFrom p (c :: cs) =
      (scanFrom (p.after l.taken) l.rest).map (l.tokens p ++ ·) := by
  rw [scanFrom]
  split
  · next refusal hl =>
    rw [h] at hl
    cases hl
  · next l' hl =>
    obtain rfl : l' = l := by simpa [h] using hl.symm
    cases scanFrom (p.after l'.taken) l'.rest with
    | error e => rfl
    | ok tokens =>
      unfold Lexeme.tokens
      cases l'.kind? <;> rfl

theorem Lexeme.map_content_tokens (l : Lexeme) (p : Position) :
    (l.tokens p).map Token.content = l.content := by
  unfold Lexeme.tokens Lexeme.content
  cases l.kind? <;> rfl

/-- The text gives these tokens up to the place where the rest begins. -/
inductive Lexes : List Char → List (Kind × String) → List Char → Prop
  | done (rest : List Char) : Lexes rest [] rest
  | step {c : Char} {cs rest : List Char} {l : Lexeme} {ls : List (Kind × String)} :
      Lexeme.first c cs = .ok l → Lexes l.rest ls rest → Lexes (c :: cs) (l.content ++ ls) rest

theorem Lexes.append {cs mid rest : List Char} {ls ms : List (Kind × String)} (h : Lexes cs ls mid)
    (h' : Lexes mid ms rest) : Lexes cs (ls ++ ms) rest := by
  induction h with
  | done => exact h'
  | step hf _ ih =>
    rw [List.append_assoc]
    exact .step hf (ih h')

theorem nameKind_ne_endOfInput (name : String) : nameKind name ≠ .endOfInput := by
  unfold nameKind
  split <;> simp

theorem number_kind? (cs : List Char) : (Lexeme.number cs).kind? = some .number := by
  unfold Lexeme.number
  split <;> rfl

theorem first_kind?_ne_endOfInput {c : Char} {cs : List Char} {l : Lexeme}
    (h : Lexeme.first c cs = .ok l) : l.kind? ≠ some .endOfInput := by
  rw [first_eq] at h
  cases ho : opening c with
  | nothing =>
    rw [ho] at h
    cases h
  | quote =>
    simp only [ho] at h
    split at h <;> cases h
    simp
  | name =>
    simp only [ho] at h
    cases h
    simpa [Lexeme.plain] using nameKind_ne_endOfInput _
  | digit =>
    simp only [ho] at h
    cases h
    simp [number_kind?]
  | lineEnd | blank | comment | operator | delimiter d =>
    simp only [ho] at h
    cases h
    simp [Lexeme.plain, Lexeme.gap]

theorem Lexes.kind_ne_endOfInput {cs rest : List Char} {ls : List (Kind × String)}
    (h : Lexes cs ls rest) : ∀ l ∈ ls, l.1 ≠ .endOfInput := by
  induction h with
  | done => simp
  | @step c cs rest l ls hf _ ih =>
    have hl := first_kind?_ne_endOfInput hf
    refine List.forall_mem_append.2 ⟨fun x hx => ?_, ih⟩
    cases hk : l.kind? with
    | none => simp [Lexeme.content, hk] at hx
    | some kind =>
      obtain rfl : x = (kind, String.ofList l.text) := by simpa [Lexeme.content, hk] using hx
      exact fun he => hl (hk.trans (congrArg some he))

def ending : Kind × String := (.endOfInput, "")

theorem lexes_of_scanFrom {p : Position} {cs : List Char} {ts : List Token}
    (h : scanFrom p cs = .ok ts) : ∃ ls, Lexes cs ls [] ∧ ts.map content = ls ++ [ending] := by
  fun_induction scanFrom p cs generalizing ts with
  | case1 p =>
    cases h
    exact ⟨[], .done [], rfl⟩
  | case2 p c cs refusal hf => cases h
  | case3 p c cs l hf e he ih => cases h
  | case4 p c cs l hf tokens ht ih =>
    obtain ⟨ls, hl, hm⟩ := ih ht
    refine ⟨l.content ++ ls, .step hf hl, ?_⟩
    cases h
    cases hk : l.kind? with
    | none => simpa [Lexeme.content, hk] using hm
    | some kind => simpa [Lexeme.content, hk, content] using hm

theorem Lexes.exists_scanFrom {cs : List Char} {ls : List (Kind × String)} (h : Lexes cs ls [])
    (p : Position) : ∃ ts, scanFrom p cs = .ok ts ∧ ts.map content = ls ++ [ending] := by
  generalize hr : ([] : List Char) = rest at h
  induction h generalizing p with
  | done =>
    subst hr
    exact ⟨_, by rw [scanFrom], rfl⟩
  | @step c cs rest l ls hf _ ih =>
    obtain ⟨ts, hs, hm⟩ := ih (p.after l.taken) hr
    refine ⟨l.tokens p ++ ts, ?_, ?_⟩
    · rw [scanFrom_of_ok hf, hs]
      rfl
    · rw [List.map_append, l.map_content_tokens, hm, List.append_assoc]

/-! How a string is read to its closing quote. -/

section Contents
variable {quote : Char}

theorem contents_quote (hq : quote ≠ '\\') (cs : List Char) :
    Lexeme.contents quote (quote :: cs) = some ([], [quote], cs) := by
  rw [Lexeme.contents, if_pos rfl]
  exact fun _ _ hb => absurd hb hq

theorem contents_cons {c : Char} (hc : c ≠ quote) (hb : c ≠ '\\') (cs : List Char) :
    Lexeme.contents quote (c :: cs) =
      (Lexeme.contents quote cs).map fun (text, taken, rest) => (c :: text, c :: taken, rest) := by
  rw [Lexeme.contents, if_neg hc]
  exact fun _ _ h => absurd h hb

/-- Induction along a string that is closed. Every backslash in it begins an escape. -/
@[elab_as_elim]
theorem contents_induction {motive : ∀ cs text taken rest : List Char,
      Lexeme.contents quote cs = some (text, taken, rest) → Prop}
    (closing : ∀ rest {h}, motive (quote :: rest) [] [quote] rest h)
    (escape : ∀ c {cs text taken rest} (h : Lexeme.contents quote cs = some (text, taken, rest)) {h'},
      motive cs text taken rest h →
        motive ('\\' :: c :: cs) (unescape c :: text) ('\\' :: c :: taken) rest h')
    (plain : ∀ {c cs text taken rest}, c ≠ quote → c ≠ '\\' →
      ∀ (h : Lexeme.contents quote cs = some (text, taken, rest)) {h'},
        motive cs text taken rest h → motive (c :: cs) (c :: text) (c :: taken) rest h')
    {cs text taken rest : List Char} (h : Lexeme.contents quote cs = some (text, taken, rest)) :
    motive cs text taken rest h := by
  fun_induction Lexeme.contents quote cs generalizing text taken rest with
  | case1 => cases h
  | case2 c cs ih =>
    obtain ⟨⟨text, taken, rest⟩, hr, he⟩ := Option.map_eq_some_iff.1 h
    cases he
    exact escape c hr (ih hr)
  | case3 cs hescape =>
    have he : some ([], [quote], cs) = some (text, taken, rest) := by
      rw [← h, Lexeme.contents, if_pos rfl]
      exact hescape
    cases he
    exact closing cs
  | case4 c cs hescape hc ih =>
    -- a backslash that begins no escape would be the last character, and no quote follows it
    have hb : c ≠ '\\' := by
      rintro rfl
      cases cs with
      | nil => simp [Lexeme.contents, hc] at h
      | cons d cs => exact hescape d cs rfl rfl
    have hmap := (contents_cons hc hb cs).symm.trans h
    obtain ⟨⟨text, taken, rest⟩, hr, he⟩ := Option.map_eq_some_iff.1 hmap
    cases he
    exact plain hc hb hr (ih hr)

end Contents

/-! A line end after a text changes nothing about its tokens. -/

section LineEnd
variable {p : Char → Bool} {cs ys : List Char}

theorem takeWhile_append_newline (h : p '\n' = false) :
    (cs ++ '\n' :: ys).takeWhile p = cs.takeWhile p := by
  induction cs with
  | nil => simp [h]
  | cons c cs ih =>
    simp only [List.cons_append, List.takeWhile_cons]
    split
    · rw [ih]
    · rfl

theorem dropWhile_append_newline (h : p '\n' = false) :
    (cs ++ '\n' :: ys).dropWhile p = cs.dropWhile p ++ '\n' :: ys := by
  induction cs with
  | nil => simp [h]
  | cons c cs ih =>
    simp only [List.cons_append, List.dropWhile_cons]
    split
    · rw [ih]
    · rfl

theorem number_append_newline (cs ys : List Char) : Lexeme.number (cs ++ '\n' :: ys) =
    { Lexeme.number cs with rest := (Lexeme.number cs).rest ++ '\n' :: ys } := by
  have hd : Char.isDigit '\n' = false := by decide
  simp only [Lexeme.number, takeWhile_append_newline hd, dropWhile_append_newline hd]
  cases hr : cs.dropWhile Char.isDigit with
  | nil => rfl
  | cons c rest =>
    by_cases hc : c = '.'
    · subst hc
      simp only [List.cons_append, takeWhile_append_newline hd, dropWhile_append_newline hd,
        Lexeme.plain]
    · simp only [List.cons_append]
      split
      · simp_all
      · split
        · simp_all
        · rfl

theorem contents_append {quote : Char} {text taken rest : List Char} (hq : quote ≠ '\\')
    (h : Lexeme.contents quote cs = some (text, taken, rest)) :
    Lexeme.contents quote (cs ++ ys) = some (text, taken, rest ++ ys) := by
  induction h using contents_induction with
  | closing rest => exact contents_quote hq (rest ++ ys)
  | escape c _ ih => simp only [List.cons_append, Lexeme.contents, ih, Option.map_some]
  | plain hc hb _ ih => rw [List.cons_append, contents_cons hc hb, ih, Option.map_some]

theorem first_append_newline {c : Char} {l : Lexeme} (h : Lexeme.first c cs = .ok l) :
    Lexeme.first c (cs ++ '\n' :: ys) = .ok { l with rest := l.rest ++ '\n' :: ys } := by
  have hname : continuesName '\n' = false := by decide
  have hoperator : isOperatorChar '\n' = false := by decide
  rw [first_eq] at h ⊢
  cases ho : opening c with
  | nothing =>
    rw [ho] at h
    cases h
  | quote =>
    simp only [ho] at h ⊢
    split at h
    · next text taken rest hr =>
      cases h
      have hq : c ≠ '\\' := by
        rcases opening_eq_quote ho with rfl | rfl <;> decide
      rw [contents_append hq hr]
    · cases h
  | digit =>
    simp only [ho] at h ⊢
    cases h
    rw [← List.cons_append, number_append_newline]
  | comment =>
    simp only [ho] at h ⊢
    cases h
    rw [takeWhile_append_newline (p := (· != '\n')) rfl,
      dropWhile_append_newline (p := (· != '\n')) rfl]
    rfl
  | name =>
    simp only [ho] at h ⊢
    cases h
    rw [takeWhile_append_newline hname, dropWhile_append_newline hname]
    rfl
  | operator =>
    simp only [ho] at h ⊢
    cases h
    rw [takeWhile_append_newline hoperator, dropWhile_append_newline hoperator]
    rfl
  | lineEnd | blank | delimiter d =>
    simp only [ho] at h ⊢
    cases h
    rfl

theorem Lexes.append_newline {rest : List Char} {ls : List (Kind × String)} (h : Lexes cs ls rest) :
    Lexes (cs ++ '\n' :: ys) ls (rest ++ '\n' :: ys) := by
  induction h with
  | done => exact .done _
  | @step c cs rest l ls hf _ ih =>
    exact Lexes.step (l := { l with rest := l.rest ++ '\n' :: ys }) (first_append_newline hf) ih

theorem lexes_newline (cs : List Char) : Lexes ('\n' :: cs) [(.endOfLine, "\n")] cs :=
  Lexes.step (l := .plain .endOfLine ['\n'] cs) rfl (.done cs)

end LineEnd

end Parlance.Token
