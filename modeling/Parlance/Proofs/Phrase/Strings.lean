import Parlance.Proofs.Phrase.Recast
import Parlance.Proofs.Script.Blame
import Parlance.Proofs.Token.Lines
import Parlance.Source

/-! Strings. The tokens of a text are read lexeme by lexeme and its parts character by character, but
the strings among the tokens are the literals among the parts. Rewording leaves these as they are, and
it keeps every line a line of its own, so what is wrong with a reworded source is wrong in a line that
the source has. -/

namespace Parlance.Source
open Token (Lexeme Opening opening scanFrom scan)

def strings (ts : List Token) : List (String × Nat) :=
  (ts.filter (·.kind == .string)).map fun t => (t.text, t.position.line)

def spoken : List Char → String
  | [] => ""
  | quote :: cs =>
    match Lexeme.contents quote cs with
    | some (text, _, _) => String.ofList text
    | none => ""

/-! Lexemes of code. -/

theorem inLine_or (c : Char) : InLine c ∨ isQuote c = true ∨ c = '#' ∨ c = '\n' := by
  by_cases hq : isQuote c = true
  · exact .inr (.inl hq)
  · by_cases hc : c = '#'
    · exact .inr (.inr (.inl hc))
    · by_cases hn : c = '\n'
      · exact .inr (.inr (.inr hn))
      · exact .inl ⟨⟨by simpa using hq, hc⟩, hn⟩

theorem inLine_of_class {p : Char → Bool} (h₁ : p '"' = false) (h₂ : p '\'' = false)
    (h₃ : p '#' = false) (h₄ : p '\n' = false) (c : Char) (h : p c = true) : InLine c := by
  refine ⟨Region.isCode_of_class h₁ h₂ h₃ c h, ?_⟩
  rintro rfl
  exact Bool.eq_false_iff.1 h₄ h

theorem inLine_number (cs : List Char) : ∀ d ∈ (Lexeme.number cs).taken, InLine d := by
  have hdigit := inLine_of_class (p := Char.isDigit) (by decide) (by decide) (by decide) (by decide)
  have hrun (cs : List Char) : ∀ d ∈ cs.takeWhile Char.isDigit, InLine d :=
    fun d hd => hdigit d (List.all_eq_true.1 List.all_takeWhile d hd)
  unfold Lexeme.number
  split
  · next rest _ =>
    intro d hd
    rcases List.mem_append.1 hd with hd | hd
    · exact hrun cs d hd
    · rcases List.mem_cons.1 hd with rfl | hd
      · decide
      · exact hrun rest d hd
  · exact hrun cs

theorem inLine_taken {c : Char} {cs : List Char} {l : Lexeme} (h : Lexeme.first c cs = .ok l)
    (hc : InLine c) : ∀ d ∈ l.taken, InLine d := by
  have hname := inLine_of_class (p := Token.continuesName) (by decide) (by decide) (by decide) (by decide)
  have hoperator := inLine_of_class (p := Token.isOperatorChar)
    (by decide) (by decide) (by decide) (by decide)
  have hrun {p : Char → Bool} (hp : ∀ d, p d = true → InLine d) :
      ∀ d ∈ c :: cs.takeWhile p, InLine d :=
    List.forall_mem_cons.2 ⟨hc, fun d hd => hp d (List.all_eq_true.1 List.all_takeWhile d hd)⟩
  rw [Token.first_eq] at h
  cases ho : opening c with
  | nothing =>
    rw [ho] at h
    cases h
  | quote =>
    exact absurd (isQuote_of_opening ho) (Bool.eq_false_iff.1 hc.1.1)
  | comment => exact absurd (Token.opening_eq_comment ho) hc.1.2
  | digit =>
    simp only [ho] at h
    cases h
    exact inLine_number (c :: cs)
  | name =>
    simp only [ho] at h
    cases h
    exact hrun hname
  | operator =>
    simp only [ho] at h
    cases h
    exact hrun hoperator
  | lineEnd | blank | delimiter d =>
    simp only [ho] at h
    cases h
    exact List.forall_mem_singleton.2 hc

/-! Literals of a text, read lexeme by lexeme. -/

theorem literals_code (line : Nat) (fresh fresh' : Bool) (held held' cs : List Char) :
    literals line (partsFrom .code fresh held cs) = literals line (partsFrom .code fresh' held' cs) :=
  (Recast.refl (fun _ _ => False) .code cs).literals_eq (by nofun) line (by simp)

theorem inside_of_contents {quote : Char} {cs text taken rest : List Char}
    (hquote : isQuote quote = true) (h : Lexeme.contents quote cs = some (text, taken, rest)) :
    ∃ inside, Inside quote inside ∧ taken = inside ++ [quote] ∧
      Lexeme.contents quote taken = some (text, taken, []) := by
  have hne : quote ≠ '\\' := ne_backslash_of_isQuote hquote
  induction h using Token.contents_induction with
  | closing => exact ⟨[], .nil, rfl, Token.contents_quote hne []⟩
  | escape c _ ih =>
    obtain ⟨inside, hinside, htaken, hcontents⟩ := ih
    refine ⟨'\\' :: c :: inside, .escape c hinside, by rw [htaken]; rfl, ?_⟩
    rw [Lexeme.contents, hcontents, Option.map_some]
  | @plain c _ _ _ _ hc hb _ _ ih =>
    obtain ⟨inside, hinside, htaken, hcontents⟩ := ih
    refine ⟨c :: inside, .plain hc hb hinside, by rw [htaken]; rfl, ?_⟩
    rw [Token.contents_cons hc hb, hcontents, Option.map_some]

theorem literals_string {quote : Char} (hquote : isQuote quote = true) {cs text taken rest : List Char}
    (h : Lexeme.contents quote cs = some (text, taken, rest)) (line : Nat) (fresh : Bool)
    (held : List Char) : literals line (partsFrom .code fresh held (quote :: cs)) =
      (quote :: taken, line) ::
        literals (line + (quote :: taken).count '\n') (partsFrom .code false [] rest) := by
  obtain ⟨inside, hinside, rfl, -⟩ := inside_of_contents hquote h
  have hcut := Token.contents_taken h
  rw [← hcut, partsFrom_quote hquote, literals_ofStretch, List.append_assoc,
    partsFrom_inside hquote hinside, List.singleton_append, partsFrom, if_pos rfl]
  simp [literals]

theorem literals_comment (line : Nat) (fresh : Bool) (held cs : List Char) :
    literals line (partsFrom .comment fresh held cs) =
      literals line (partsFrom .code false [] (cs.dropWhile (· != '\n'))) := by
  induction cs generalizing fresh held with
  | nil => rfl
  | cons c cs ih =>
    rw [partsFrom]
    split
    · next hc =>
      subst hc
      rw [List.dropWhile_cons_of_neg (by simp), partsFrom_newline]
      rfl
    · next hc =>
      rw [List.dropWhile_cons_of_pos (by simpa using hc)]
      exact ih false (c :: held)

theorem literals_first {c : Char} {cs : List Char} {l : Lexeme} (h : Lexeme.first c cs = .ok l)
    (hstring : opening c ≠ .quote) (line : Nat) (fresh : Bool) (held : List Char) :
    literals line (partsFrom .code fresh held (c :: cs)) =
      literals (line + l.taken.count '\n') (partsFrom .code false [] l.rest) := by
  rcases inLine_or c with hc | hc | rfl | rfl
  · have hin := inLine_taken h hc
    have hcount : l.taken.count '\n' = 0 := List.count_eq_zero.2 fun hm => (hin '\n' hm).2 rfl
    rw [← Token.first_taken h, partsFrom_code hin, hcount]
    exact literals_code line fresh false _ [] l.rest
  · exact absurd (opening_of_isQuote hc) hstring
  · cases h
    have hcount : ('#' :: cs.takeWhile (· != '\n')).count '\n' = 0 := by
      rw [List.count_eq_zero, List.mem_cons, not_or]
      refine ⟨by decide, fun hm => ?_⟩
      simpa using List.all_eq_true.1 List.all_takeWhile _ hm
    rw [partsFrom_sharp, literals_ofLead, literals_comment]
    exact congrArg (literals · _) (congrArg (line + ·) hcount).symm
  · cases h
    rw [partsFrom_newline, literals_ofStretch]
    exact literals_code (line + 1) true false [] [] cs

theorem kind?_ne_string {c : Char} {cs : List Char} {l : Lexeme} (h : Lexeme.first c cs = .ok l)
    (hstring : opening c ≠ .quote) : l.kind? ≠ some .string := by
  have hname (text : String) : Token.nameKind text ≠ .string := by
    unfold Token.nameKind
    split <;> simp
  rw [Token.first_eq] at h
  cases ho : opening c with
  | nothing =>
    rw [ho] at h
    cases h
  | quote => exact absurd ho hstring
  | name =>
    simp only [ho] at h
    cases h
    simpa [Lexeme.plain] using hname _
  | digit =>
    simp only [ho] at h
    cases h
    simp [Token.number_kind?]
  | lineEnd | blank | comment | operator | delimiter d =>
    simp only [ho] at h
    cases h
    simp [Lexeme.plain, Lexeme.gap]

theorem strings_eq_literals {p : Position} {cs : List Char} {ts : List Token}
    (h : scanFrom p cs = .ok ts) (fresh : Bool) (held : List Char) :
    strings ts = (literals p.line (partsFrom .code fresh held cs)).map fun l => (spoken l.1, l.2) := by
  fun_induction scanFrom p cs generalizing ts fresh held with
  | case1 p =>
    cases h
    have hnone := literals_ofStretch p.line held []
    rw [List.append_nil] at hnone
    rw [partsFrom, hnone]
    rfl
  | case2 p c cs refusal hf => cases h
  | case3 p c cs l hf e he ih => cases h
  | case4 p c cs l hf tokens ht ih =>
    have hrest := ih ht false []
    rw [Position.line_after] at hrest
    cases h
    by_cases hq : opening c = .quote
    · have hquote := isQuote_of_opening hq
      rw [Token.first_eq] at hf
      simp only [hq] at hf
      split at hf
      · next text taken rest hr =>
        cases hf
        obtain ⟨_, -, -, hcontents⟩ := inside_of_contents hquote hr
        rw [literals_string hquote hr, List.map_cons, ← hrest]
        simp [strings, spoken, hcontents]
      · cases hf
    · have hkind := kind?_ne_string hf hq
      rw [literals_first hf hq, ← hrest]
      cases hk : l.kind? with
      | none => rfl
      | some kind =>
        have hne : (kind == .string) = false := by
          rw [beq_eq_false_iff_ne]
          rintro rfl
          exact hkind hk
        simp [strings, hne]

/-! Rewording. -/

def LineOfCode (text text' : List Char) : Prop := (∀ c ∈ text, InLine c) ∧ ∀ c ∈ text', InLine c

theorem withinLines_lineOfCode : WithinLines LineOfCode := fun _ _ h => h

theorem recast_process {book : Phrasebook} (h : book.Letters InLine) (cs : List Char) :
    Recast LineOfCode .code cs (process book.reword cs) := by
  refine .process withinLines_lineOfCode rfl fun text ht => ?_
  have hin := (laid_parts cs).inLine_of_code ht
  have hcode : LineOfCode text (book.reword text) := ⟨hin, h.reword hin⟩
  have hrecast := Recast.code hcode (.nil .code)
  rwa [List.append_nil, List.append_nil] at hrecast

theorem english_inLine : Phrasebook.english.Letters InLine where
  space := by decide
  phrases := by decide
  replacements := by
    intro word text h
    cases h

/-! Faults. -/

/-- Reading the text, its tokens as a script or its tokens as an expression ends in the fault. -/
def Fails (text : String) (fault : Fault) : Prop :=
  tokens text = .error fault ∨
    ∃ ts, tokens text = .ok ts ∧ (script ts = .error fault ∨ expression ts = .error fault)

theorem exists_of_script_error {ts : List Token} (hne : ts ≠ []) {fault : Fault}
    (h : script ts = .error fault ∨ expression ts = .error fault) :
    ∃ t ∈ ts, fault.position? = some t.position := by
  have hscript := Grammar.sequence_fair Grammar.atEnd (Grammar.statement_fair (ts.length + 1))
    (ts.length + 1)
  have hexpression := Grammar.expression_fair (ts.length + 1)
  have hplaced {r : Except (Grammar.Refusal × Option Position) Node} (hr : placed r = .error fault) :
      ∃ refusal position, r = .error (refusal, position) ∧ fault.position? = position := by
    unfold placed at hr
    split at hr
    · cases hr
    · next refusal position =>
      cases hr
      exact ⟨refusal, position, rfl, rfl⟩
  rcases h with h | h
  · obtain ⟨refusal, position, hr, hp⟩ := hplaced h
    rw [hp]
    unfold Grammar.readScript at hr
    cases hs : Grammar.placed ts (Grammar.sequence Grammar.atEnd (Grammar.statement (ts.length + 1))
      (ts.length + 1) ts) with
    | ok nodes =>
      rw [hs] at hr
      cases hr
    | error e =>
      rw [hs] at hr
      cases hr
      exact Grammar.exists_of_placed_error hscript hne hs
  · obtain ⟨refusal, position, hr, hp⟩ := hplaced h
    rw [hp]
    exact Grammar.exists_of_placed_error hexpression hne hr

theorem Fails.exists_reached {text : String} {fault : Fault} (h : Fails text fault) :
    ∃ p, fault.position? = some p ∧ Token.Reached .start text.toList p := by
  have hreached := Token.reached_of_scanFrom .start text.toList
  unfold Fails tokens at h
  cases hs : scan text with
  | error e =>
    rw [hs] at h
    rcases h with h | ⟨ts, h, -⟩
    · cases h
      exact ⟨e.2, rfl, hreached.2 e.1 e.2 hs⟩
    · cases h
  | ok ts =>
    rw [hs] at h
    obtain h | ⟨_, ⟨⟩, h⟩ := h
    · cases h
    · obtain ⟨ls, -, hcontent⟩ := Token.lexes_of_scanFrom hs
      have hne : ts ≠ [] := by
        rintro rfl
        simp at hcontent
      obtain ⟨t, ht, hp⟩ := exists_of_script_error hne h
      exact ⟨t.position, hp, hreached.1 ts hs t ht⟩

/-- The strings of a source are the strings of the reworded source. Lines are kept too, so a fault of
the reworded source lies in a line that the source has. -/
theorem strings_process (source : String) :
    (∀ ts us, scan source = .ok ts → scan (Phrasebook.english.process source) = .ok us →
      strings us = strings ts) ∧
    (Phrasebook.english.process source).toList.count '\n' = source.toList.count '\n' ∧
    ∀ fault, Fails (Phrasebook.english.process source) fault →
      ∃ p, fault.position? = some p ∧ 1 ≤ p.line ∧ p.line ≤ source.toList.count '\n' + 1 := by
  have hrecast : Recast LineOfCode .code source.toList
      (Phrasebook.english.process source).toList := by
    rw [Phrasebook.process, String.toList_ofList]
    exact recast_process english_inLine source.toList
  have hcount := hrecast.count_newline withinLines_lineOfCode
  refine ⟨fun ts us hts hus => ?_, hcount, fun fault hfault => ?_⟩
  · rw [strings_eq_literals hts true [], strings_eq_literals hus true [],
      hrecast.literals_eq withinLines_lineOfCode _ (by simp)]
  · obtain ⟨p, hp, hreached⟩ := hfault.exists_reached
    have hline := hreached.line
    rw [hcount] at hline
    refine ⟨p, hp, hline.1, ?_⟩
    rw [Nat.add_comm]
    exact hline.2

/-- A phrase in a literal is no phrase, and a literal that is not closed fails in its own line. -/
theorem strings_process_two_lines :
    (∃ ts us, scan "'plus\n' plus 'a'" = .ok ts ∧
      scan (Phrasebook.english.process "'plus\n' plus 'a'") = .ok us ∧
      strings ts = [("plus\n", 1), ("a", 2)] ∧ strings us = strings ts) ∧
    ∃ fault p, Fails (Phrasebook.english.process "\n'plus") fault ∧
      fault.position? = some p ∧ p.line ≤ 2 := by
  have hclosed : Phrasebook.english.process "'plus\n' plus 'a'" = "'plus\n' + 'a'" := by decide +kernel
  have hopen : Phrasebook.english.process "\n'plus" = "\n'plus" := by decide +kernel
  have hts : scan "'plus\n' plus 'a'" = .ok [⟨.string, "plus\n", ⟨1, 1⟩⟩,
      ⟨.identifier, "plus", ⟨2, 3⟩⟩, ⟨.string, "a", ⟨2, 8⟩⟩, ⟨.endOfInput, "", ⟨2, 11⟩⟩] := by
    with_unfolding_all rfl
  have hlexes : Token.Lexes "'plus\n' + 'a'".toList _ [] :=
    .step rfl (.step rfl (.step rfl (.step rfl (.step rfl (.done [])))))
  obtain ⟨us, hus, -⟩ := hlexes.exists_scanFrom .start
  have hus' : scan (Phrasebook.english.process "'plus\n' plus 'a'") = .ok us := by
    rw [hclosed]
    exact hus
  have herror : scan "\n'plus" = .error (.unterminated, ⟨2, 1⟩) := by
    have hline : Lexeme.first '\n' "'plus".toList = .ok (.plain .endOfLine ['\n'] "'plus".toList) := rfl
    have hquote : Lexeme.first '\'' "plus".toList = .error .unterminated := rfl
    change scanFrom .start ('\n' :: "'plus".toList) = _
    rw [Token.scanFrom_of_ok hline]
    change (scanFrom ⟨2, 1⟩ ('\'' :: "plus".toList)).map _ = _
    rw [Token.scanFrom_of_error hquote]
    rfl
  have hfault : Fails (Phrasebook.english.process "\n'plus") (.lexical .unterminated ⟨2, 1⟩) := by
    rw [hopen, Fails, tokens, herror]
    exact .inl rfl
  obtain ⟨p, hp, -, hle⟩ := (strings_process "\n'plus").2.2 _ hfault
  exact ⟨⟨_, us, hts, hus', rfl, (strings_process _).1 _ _ hts hus'⟩, _, p, hfault, hp, hle⟩

end Parlance.Source
