import Parlance.Proofs.Phrase.Letters
import Parlance.Proofs.Token.Lexing

/-! Code, literals and comments. Where in these a place of a text lies follows from the characters
before it, read one by one. Rewording reads a text line by line and the tokens are read lexeme by
lexeme, but both agree with reading it character by character: so a text that has tokens ends outside
every literal, and what comes on the next line is reworded as if it stood alone. -/

namespace Parlance

namespace Text

theorem split_append (separator : Char) (cs ds : List Char) :
    split separator (cs ++ separator :: ds) = split separator cs ++ split separator ds := by
  induction cs with
  | nil => simp [split]
  | cons c cs ih =>
    obtain ⟨part, rest, h⟩ := List.exists_cons_of_ne_nil (split_ne_nil separator cs)
    by_cases hc : c = separator
    · simp only [List.cons_append, split, if_pos hc, ih]
    · simp only [List.cons_append, split, if_neg hc, ih, h]

theorem not_mem_of_mem_split {separator : Char} {cs line : List Char}
    (h : line ∈ split separator cs) : separator ∉ line := by
  induction cs generalizing line with
  | nil =>
    rw [split, List.mem_singleton] at h
    simp [h]
  | cons c cs ih =>
    obtain ⟨part, rest, hs⟩ := List.exists_cons_of_ne_nil (split_ne_nil separator cs)
    rw [hs] at ih
    by_cases hc : c = separator
    · simp only [split, if_pos hc, hs, List.mem_cons] at h
      rcases h with rfl | h
      · simp
      · exact ih (List.mem_cons.2 h)
    · simp only [split, if_neg hc, hs, List.mem_cons] at h
      rcases h with rfl | h
      · have hpart := ih List.mem_cons_self
        simpa [Ne.symm hc] using hpart
      · exact ih (List.mem_cons_of_mem part h)

end Text

namespace Source
open Token (Lexes Lexeme Opening opening)

def IsCode (c : Char) : Prop := isQuote c = false ∧ c ≠ '#'

instance : DecidablePred IsCode := fun c => inferInstanceAs (Decidable (isQuote c = false ∧ c ≠ '#'))

def InLine (c : Char) : Prop := IsCode c ∧ c ≠ '\n'

instance : DecidablePred InLine := fun c => inferInstanceAs (Decidable (IsCode c ∧ c ≠ '\n'))

inductive Region where
  | code
  | literal (quote : Char) (escaped : Bool)
  | comment
  deriving DecidableEq

theorem opening_of_isQuote {c : Char} (h : isQuote c = true) : opening c = .quote := by
  simp only [isQuote, Bool.or_eq_true, beq_iff_eq] at h
  rcases h with rfl | rfl <;> decide

theorem isQuote_of_opening {c : Char} (h : opening c = .quote) : isQuote c = true := by
  rcases Token.opening_eq_quote h with rfl | rfl <;> rfl

theorem ne_backslash_of_isQuote {c : Char} (h : isQuote c = true) : c ≠ '\\' := by
  rintro rfl
  exact absurd h (by decide)

namespace Region

def next : Region → Char → Region
  | .code, c => if isQuote c then .literal c false else if c = '#' then .comment else .code
  | .literal quote true, _ => .literal quote false
  | .literal quote false, c => if c = quote then .code else .literal quote (c == '\\')
  | .comment, c => if c = '\n' then .code else .comment

def after (r : Region) (cs : List Char) : Region := cs.foldl next r

def quote? : Region → Option Char
  | .literal quote _ => some quote
  | _ => none

/-- The region in which a line begins. -/
def ofQuote : Option Char → Region
  | some quote => .literal quote false
  | none => .code

@[simp] theorem after_nil (r : Region) : r.after [] = r := rfl

@[simp] theorem after_cons (r : Region) (c : Char) (cs : List Char) :
    r.after (c :: cs) = (r.next c).after cs := rfl

@[simp] theorem after_append (r : Region) (cs ds : List Char) :
    r.after (cs ++ ds) = (r.after cs).after ds := List.foldl_append

theorem next_code {c : Char} (h : IsCode c) : code.next c = code := by simp [next, h.1, h.2]

theorem after_code {cs : List Char} (h : ∀ c ∈ cs, IsCode c) : code.after cs = code := by
  induction cs with
  | nil => rfl
  | cons c cs ih =>
    have h' := List.forall_mem_cons.1 h
    rw [after_cons, next_code h'.1, ih h'.2]

theorem after_code_dropWhile {p : Char → Bool} (hp : ∀ c, p c = true → IsCode c) (cs : List Char) :
    code.after cs = code.after (cs.dropWhile p) := by
  induction cs with
  | nil => rfl
  | cons c cs ih =>
    by_cases hc : p c = true
    · rw [List.dropWhile_cons_of_pos hc, after_cons, next_code (hp c hc), ih]
    · rw [List.dropWhile_cons_of_neg hc]

theorem quote?_after_comment (cs : List Char) :
    (comment.after cs).quote? = (code.after (cs.dropWhile (· != '\n'))).quote? := by
  induction cs with
  | nil => rfl
  | cons c cs ih =>
    by_cases hc : c = '\n'
    · subst hc
      rfl
    · simpa [next, hc] using ih

theorem after_comment {cs : List Char} (h : '\n' ∉ cs) : comment.after cs = comment := by
  induction cs with
  | nil => rfl
  | cons c cs ih =>
    simp only [List.mem_cons, not_or] at h
    rw [after_cons, next, if_neg (Ne.symm h.1), ih h.2]

theorem isQuote_quote?_after {r : Region} (h : ∀ q ∈ r.quote?, isQuote q = true) (cs : List Char) :
    ∀ q ∈ (r.after cs).quote?, isQuote q = true := by
  induction cs generalizing r with
  | nil => exact h
  | cons c cs ih =>
    refine ih fun q hq => ?_
    rcases r with _ | ⟨quote, _ | _⟩ | _
    · by_cases hc : isQuote c = true
      · rw [next, if_pos hc] at hq
        cases hq
        exact hc
      · rw [next, if_neg hc] at hq
        split at hq <;> cases hq
    · by_cases hc : c = quote
      · simp [next, hc, quote?] at hq
      · rw [next, if_neg hc] at hq
        exact h q hq
    · exact h q hq
    · rw [next] at hq
      split at hq <;> cases hq

theorem next_newline {r : Region} (h : ∀ q ∈ r.quote?, isQuote q = true) :
    r.next '\n' = ofQuote r.quote? := by
  rcases r with _ | ⟨quote, _ | _⟩ | _
  · rfl
  · have hq : '\n' ≠ quote := by
      rintro rfl
      exact absurd (h '\n' rfl) (by decide)
    rw [next, if_neg hq]
    rfl
  · rfl
  · rfl

/-! Tokens. -/

theorem isCode_of_opening {c : Char} (hq : opening c ≠ .quote) (hc : opening c ≠ .comment) :
    IsCode c := by
  constructor
  · rw [Bool.eq_false_iff]
    intro h
    simp only [isQuote, Bool.or_eq_true, beq_iff_eq] at h
    rcases h with rfl | rfl
    · exact hq (by decide)
    · exact hq (by decide)
  · rintro rfl
    exact hc (by decide)

theorem isCode_of_class {p : Char → Bool} (h₁ : p '"' = false) (h₂ : p '\'' = false)
    (h₃ : p '#' = false) (c : Char) (h : p c = true) : IsCode c := by
  constructor
  · rw [Bool.eq_false_iff]
    intro hq
    simp only [isQuote, Bool.or_eq_true, beq_iff_eq] at hq
    rcases hq with rfl | rfl
    · exact Bool.eq_false_iff.1 h₁ h
    · exact Bool.eq_false_iff.1 h₂ h
  · rintro rfl
    exact Bool.eq_false_iff.1 h₃ h

theorem after_literal_of_contents {quote : Char} (hq : quote ≠ '\\') {cs text taken rest : List Char}
    (h : Lexeme.contents quote cs = some (text, taken, rest)) :
    (literal quote false).after cs = code.after rest := by
  induction h using Token.contents_induction with
  | closing => simp [next]
  | escape _ _ ih => simpa [next, hq.symm] using ih
  | plain hc hb _ ih => simpa [next, hc, beq_false_of_ne hb] using ih

theorem after_code_number (cs : List Char) :
    code.after cs = code.after (Lexeme.number cs).rest := by
  have hdigit := isCode_of_class (p := Char.isDigit) (by decide) (by decide) (by decide)
  rw [after_code_dropWhile hdigit cs]
  unfold Lexeme.number
  split
  · next rest hr =>
    rw [hr, after_cons, next_code (by decide), after_code_dropWhile hdigit rest]
    rfl
  · rfl

theorem quote?_after_first {c : Char} {cs : List Char} {l : Lexeme} (h : Lexeme.first c cs = .ok l) :
    (code.after (c :: cs)).quote? = (code.after l.rest).quote? := by
  have hname := isCode_of_class (p := Token.continuesName) (by decide) (by decide) (by decide)
  have hoperator := isCode_of_class (p := Token.isOperatorChar) (by decide) (by decide) (by decide)
  rw [Token.first_eq] at h
  cases ho : opening c with
  | nothing =>
    rw [ho] at h
    cases h
  | quote =>
    simp only [ho] at h
    have hq := isQuote_of_opening ho
    split at h
    · next text taken rest hr =>
      cases h
      rw [after_cons, next, if_pos hq, after_literal_of_contents (ne_backslash_of_isQuote hq) hr]
    · cases h
  | comment =>
    simp only [ho] at h
    cases h
    have hc : code.next c = comment := by
      have hsharp : c = '#' := Token.opening_eq_comment ho
      rw [hsharp]
      rfl
    rw [after_cons, hc, quote?_after_comment]
    rfl
  | digit =>
    simp only [ho] at h
    cases h
    rw [after_code_number]
  | name | operator | lineEnd | blank | delimiter d =>
    simp only [ho] at h
    cases h
    rw [after_cons, next_code (isCode_of_opening (by simp [ho]) (by simp [ho]))]
    first
      | rfl
      | rw [after_code_dropWhile hname]; rfl
      | rw [after_code_dropWhile hoperator]; rfl

theorem quote?_after_of_lexes {cs : List Char} {ls : List (Token.Kind × String)}
    (h : Lexes cs ls []) : (code.after cs).quote? = none := by
  generalize hr : ([] : List Char) = rest at h
  induction h with
  | done =>
    subst hr
    rfl
  | step hf _ ih => rw [quote?_after_first hf, ih hr]

end Region

/-! Rewording. -/

def KeepsCode (reword : List Char → List Char) : Prop :=
  ∀ code, (∀ c ∈ code, IsCode c) → ∀ c ∈ reword code, IsCode c

namespace Mode

def region : Mode → Region
  | .code _ => .code
  | .literal quote escaped => .literal quote escaped

def Holds : Mode → Prop
  | .code stretch => ∀ c ∈ stretch, IsCode c
  | .literal .. => True

end Mode

section Lines
variable {reword : List Char → List Char} (hr : KeepsCode reword)
include hr

theorem quote?_after_rewordFrom {m : Mode} (hm : m.Holds) {cs : List Char} (hcs : '\n' ∉ cs) :
    (m.region.after (rewordFrom reword m cs).1).quote? = (rewordFrom reword m cs).2 := by
  have hstretch {stretch : List Char} (h : ∀ c ∈ stretch, IsCode c) :
      Region.code.after (reword stretch.reverse) = .code :=
    Region.after_code (hr _ (by simpa using h))
  induction cs generalizing m with
  | nil =>
    cases m with
    | code stretch =>
      change (Region.code.after (reword stretch.reverse)).quote? = none
      rw [hstretch hm]
      rfl
    | literal quote escaped => rfl
  | cons c cs ih =>
    simp only [List.mem_cons, not_or] at hcs
    cases m with
    | code stretch =>
      simp only [rewordFrom]
      split
      · next hq =>
        have hnext : Region.code.next c = .literal c false := by rw [Region.next, if_pos hq]
        rw [Mode.region, Region.after_append, hstretch hm, Region.after_cons, hnext]
        exact ih (m := .literal c false) trivial hcs.2
      · next hq =>
        split
        · next hc =>
          subst hc
          rw [Mode.region, Region.after_append, hstretch hm, Region.after_cons]
          change (Region.comment.after cs).quote? = none
          rw [Region.after_comment hcs.2]
          rfl
        · next hc =>
          exact ih (m := .code (c :: stretch))
            (List.forall_mem_cons.2 ⟨⟨by simpa using hq, hc⟩, hm⟩) hcs.2
    | literal quote escaped =>
      simp only [rewordFrom]
      cases escaped with
      | true => exact ih (m := .literal quote false) trivial hcs.2
      | false =>
        by_cases hc : c = quote
        · simp only [Bool.false_eq_true, if_false, if_pos hc]
          rw [Mode.region, Region.after_cons, Region.next, if_pos hc]
          exact ih (m := .code []) (by simp [Mode.Holds]) hcs.2
        · simp only [Bool.false_eq_true, if_false, if_neg hc]
          rw [Mode.region, Region.after_cons, Region.next, if_neg hc]
          exact ih (m := .literal quote (c == '\\')) trivial hcs.2

theorem quote?_after_rewordLine (open? : Option Char) {line : List Char} (hl : '\n' ∉ line) :
    ((Region.ofQuote open?).after (rewordLine reword open? line).1).quote? =
      (rewordLine reword open? line).2 := by
  cases open? with
  | some quote => exact quote?_after_rewordFrom hr (m := .literal quote false) trivial hl
  | none =>
    simp only [rewordLine]
    split
    · next hc =>
      -- blanks lead up to the comment
      have hblank := Region.isCode_of_class (p := Text.isBlank) (by decide) (by decide) (by decide)
      obtain ⟨rest, hrest⟩ : ∃ rest, line.dropWhile Text.isBlank = '#' :: rest :=
        List.head?_eq_some_iff.1 hc
      have hmem : '\n' ∉ rest := fun h =>
        hl ((List.dropWhile_suffix _).subset (hrest ▸ List.mem_cons_of_mem _ h))
      rw [Region.ofQuote, Region.after_code_dropWhile hblank, hrest, Region.after_cons]
      change (Region.comment.after rest).quote? = none
      rw [Region.after_comment hmem]
      rfl
    · exact quote?_after_rewordFrom hr (m := .code []) (by simp [Mode.Holds]) hl

end Lines

def openAfter (reword : List Char → List Char) (open? : Option Char) (lines : List (List Char)) :
    Option Char := lines.foldl (fun open? line => (rewordLine reword open? line).2) open?

theorem rewordLines_cons (reword : List Char → List Char) (open? : Option Char) (line : List Char)
    (lines : List (List Char)) : rewordLines reword open? (line :: lines) =
      (rewordLine reword open? line).1 :: rewordLines reword (rewordLine reword open? line).2 lines :=
  rfl

theorem rewordLines_append (reword : List Char → List Char) (open? : Option Char)
    (lines lines' : List (List Char)) : rewordLines reword open? (lines ++ lines') =
      rewordLines reword open? lines ++ rewordLines reword (openAfter reword open? lines) lines' := by
  induction lines generalizing open? with
  | nil => rfl
  | cons line lines ih =>
    rw [List.cons_append, rewordLines_cons, rewordLines_cons, ih]
    rfl

theorem rewordLines_ne_nil (reword : List Char → List Char) (open? : Option Char)
    {lines : List (List Char)} (h : lines ≠ []) : rewordLines reword open? lines ≠ [] := by
  cases lines with
  | nil => exact absurd rfl h
  | cons line lines => simp [rewordLines]

theorem intercalate_append {lines lines' : List (List Char)} (h : lines ≠ []) (h' : lines' ≠ []) :
    ['\n'].intercalate (lines ++ lines') =
      ['\n'].intercalate lines ++ '\n' :: ['\n'].intercalate lines' := by
  obtain ⟨line', rest', rfl⟩ := List.exists_cons_of_ne_nil h'
  induction lines with
  | nil => exact absurd rfl h
  | cons line lines ih =>
    cases lines with
    | nil => simp [List.intercalate]
    | cons next lines =>
      have hrest := ih (by simp)
      rw [List.cons_append] at hrest
      rw [List.cons_append, List.cons_append, List.intercalate_cons_cons,
        List.intercalate_cons_cons, hrest]
      simp

theorem quote?_after_rewordLines {reword : List Char → List Char} (hr : KeepsCode reword)
    {open? : Option Char} (hq : ∀ q ∈ open?, isQuote q = true) {lines : List (List Char)}
    (hne : lines ≠ []) (hl : ∀ line ∈ lines, '\n' ∉ line) :
    ((Region.ofQuote open?).after (['\n'].intercalate (rewordLines reword open? lines))).quote? =
      openAfter reword open? lines := by
  induction lines generalizing open? with
  | nil => exact absurd rfl hne
  | cons line lines ih =>
    have hl' := List.forall_mem_cons.1 hl
    have hline := quote?_after_rewordLine hr open? hl'.1
    cases lines with
    | nil => simpa [rewordLines, List.intercalate, openAfter] using hline
    | cons next lines =>
      have hopen : ∀ q ∈ (Region.ofQuote open?).quote?, isQuote q = true := by
        cases open? <;> exact hq
      have hafter := Region.isQuote_quote?_after hopen (rewordLine reword open? line).1
      have hrest := rewordLines_ne_nil reword (rewordLine reword open? line).2
        (List.cons_ne_nil next lines)
      have hcut := intercalate_append (List.cons_ne_nil (rewordLine reword open? line).1 []) hrest
      rw [List.singleton_append, List.intercalate_singleton] at hcut
      rw [rewordLines_cons, hcut, Region.after_append, Region.after_cons,
        Region.next_newline hafter, hline]
      rw [hline] at hafter
      exact ih hafter (List.cons_ne_nil next lines) hl'.2

theorem process_append_newline {reword : List Char → List Char} (hr : KeepsCode reword)
    {cs : List Char} {ls : List (Token.Kind × String)} (h : Lexes (process reword cs) ls [])
    (ds : List Char) :
    process reword (cs ++ '\n' :: ds) = process reword cs ++ '\n' :: process reword ds := by
  have hclosed : openAfter reword none (Text.split '\n' cs) = none := by
    have hlines : ((Region.ofQuote none).after (process reword cs)).quote? =
        openAfter reword none (Text.split '\n' cs) :=
      quote?_after_rewordLines hr (by nofun) (Text.split_ne_nil '\n' cs)
        fun _ => Text.not_mem_of_mem_split
    rw [← hlines]
    exact Region.quote?_after_of_lexes h
  unfold process
  rw [Text.split_append, rewordLines_append, hclosed, intercalate_append]
  · exact rewordLines_ne_nil reword none (Text.split_ne_nil '\n' cs)
  · exact rewordLines_ne_nil reword none (Text.split_ne_nil '\n' ds)

theorem english_letters : Phrasebook.english.Letters IsCode where
  space := by decide
  phrases := by decide
  replacements := by
    intro word text h
    cases h

theorem keepsCode_english : KeepsCode Phrasebook.english.reword :=
  fun _ hc => english_letters.reword hc

end Source
end Parlance
