import Parlance.Proofs.Phrase.Recast
import Parlance.Proofs.Text.Variants
import Parlance.Proofs.Token.Lines

/-! Blanks between lexemes. No lexeme of code has a blank in it, and each ends before one, so how many
blanks stand in a gap makes no difference to the lexemes. Texts that differ only in this have the same
tokens, and these stand in the same lines. -/

namespace Parlance.Source
open Text (isBlank)
open Token (Lexeme Opening Refusal Kind opening scanFrom)

def IsSpacing (cs : List Char) : Prop := cs ≠ [] ∧ ∀ c ∈ cs, isBlank c = true ∧ c ≠ '\n'

def Respaced (text text' : List Char) : Prop := IsSpacing text ∧ IsSpacing text'

theorem isCode_of_isBlank {c : Char} (h : isBlank c = true) : IsCode c :=
  Region.isCode_of_class (p := isBlank) (by decide) (by decide) (by decide) c h

theorem eq_false_of_isBlank {p : Char → Bool}
    (h : (Text.members Text.whiteSpace).all ((!p ·) ∘ Char.ofNat) = true) (c : Char)
    (hc : isBlank c = true) : p c = false := by
  simpa using Text.forall_isBlank (p := (!p ·)) h hc

theorem IsSpacing.inLine {cs : List Char} (h : IsSpacing cs) : ∀ c ∈ cs, InLine c :=
  fun c hc => ⟨isCode_of_isBlank (h.2 c hc).1, (h.2 c hc).2⟩

theorem withinLines_respaced : WithinLines Respaced := fun _ _ h => ⟨h.1.inLine, h.2.inLine⟩

theorem IsSpacing.exists_cons {cs : List Char} (h : IsSpacing cs) :
    ∃ b bs, cs = b :: bs ∧ isBlank b = true := by
  obtain ⟨b, bs, rfl⟩ := List.exists_cons_of_ne_nil h.1
  exact ⟨b, bs, rfl, (h.2 b List.mem_cons_self).1⟩

namespace Recast
variable {cs ds : List Char}

theorem symm {r : Region} (h : Recast Respaced r cs ds) : Recast Respaced r ds cs := by
  induction h with
  | nil r => exact .nil r
  | same c _ ih => exact .same c ih
  | code htext _ ih => exact .code ⟨htext.2, htext.1⟩ ih

theorem eq_nil {R : List Char → List Char → Prop} {r : Region} (h : Recast R r [] ds)
    (hr : r ≠ .code) : ds = [] := by
  generalize hcs : [] = cs at h
  cases h with
  | nil => rfl
  | same => cases hcs
  | code => exact absurd rfl hr

theorem exists_cons {R : List Char → List Char → Prop} {r : Region} {c : Char}
    (h : Recast R r (c :: cs) ds) (hr : r ≠ .code) :
    ∃ ds', ds = c :: ds' ∧ Recast R (r.next c) cs ds' := by
  generalize hcs : c :: cs = cs' at h
  cases h with
  | nil => cases hcs
  | same _ h =>
    cases hcs
    exact ⟨_, rfl, h⟩
  | code => exact absurd rfl hr

theorem exists_cons_of_not_blank {c : Char} (h : Recast Respaced .code (c :: cs) ds)
    (hc : isBlank c = false) :
    ∃ ds', ds = c :: ds' ∧ Recast Respaced (Region.code.next c) cs ds' := by
  generalize hcs : c :: cs = cs' at h
  cases h with
  | nil => cases hcs
  | same _ h =>
    cases hcs
    exact ⟨_, rfl, h⟩
  | code htext h =>
    obtain ⟨b, bs, rfl, hb⟩ := htext.1.exists_cons
    cases hcs
    rw [hc] at hb
    cases hb

theorem span {p : Char → Bool} (hblank : ∀ c, isBlank c = true → p c = false)
    (hcode : ∀ c, p c = true → IsCode c) (h : Recast Respaced .code cs ds) :
    ds.takeWhile p = cs.takeWhile p ∧
      Recast Respaced .code (cs.dropWhile p) (ds.dropWhile p) := by
  generalize hr : Region.code = r at h
  induction h with
  | nil => exact ⟨rfl, .nil _⟩
  | @same r c cs ds h ih =>
    subst hr
    by_cases hc : p c = true
    · rw [Region.next_code (hcode c hc)] at ih
      obtain ⟨htake, hdrop⟩ := ih rfl
      rw [List.takeWhile_cons_of_pos hc, List.takeWhile_cons_of_pos hc, htake,
        List.dropWhile_cons_of_pos hc, List.dropWhile_cons_of_pos hc]
      exact ⟨rfl, hdrop⟩
    · rw [List.takeWhile_cons_of_neg hc, List.takeWhile_cons_of_neg hc,
        List.dropWhile_cons_of_neg hc, List.dropWhile_cons_of_neg hc]
      exact ⟨rfl, .same c h⟩
  | @code text text' cs ds htext h _ =>
    -- the run ends at the first blank
    have hstop {bs rest : List Char} (hbs : IsSpacing bs) :
        (bs ++ rest).takeWhile p = [] ∧ (bs ++ rest).dropWhile p = bs ++ rest := by
      obtain ⟨b, bs, rfl, hb⟩ := hbs.exists_cons
      have hneg : ¬p b = true := Bool.eq_false_iff.1 (hblank b hb)
      exact ⟨List.takeWhile_cons_of_neg hneg, List.dropWhile_cons_of_neg hneg⟩
    rw [(hstop htext.1).1, (hstop htext.1).2, (hstop htext.2).1, (hstop htext.2).2]
    exact ⟨rfl, .code htext h⟩

theorem comment (h : Recast Respaced .comment cs ds) :
    ds.takeWhile (· != '\n') = cs.takeWhile (· != '\n') ∧
      Recast Respaced .code (cs.dropWhile (· != '\n')) (ds.dropWhile (· != '\n')) := by
  induction cs generalizing ds with
  | nil =>
    rw [h.eq_nil (by simp)]
    exact ⟨rfl, .nil _⟩
  | cons c cs ih =>
    obtain ⟨ds, rfl, htail⟩ := h.exists_cons (by simp)
    rw [Region.next] at htail
    split at htail
    · next hc =>
      subst hc
      exact ⟨rfl, .same '\n' htail⟩
    · next hc =>
      have hpos : (c != '\n') = true := bne_iff_ne.2 hc
      obtain ⟨htake, hdrop⟩ := ih htail
      simp only [List.takeWhile_cons, List.dropWhile_cons, hpos, if_true, htake, true_and]
      exact hdrop

theorem contents {quote : Char} (hquote : quote ≠ '\\')
    (h : Recast Respaced (.literal quote false) cs ds) :
    Lexeme.contents quote cs = none ∧ Lexeme.contents quote ds = none ∨
      ∃ text taken rest rest', Lexeme.contents quote cs = some (text, taken, rest) ∧
        Lexeme.contents quote ds = some (text, taken, rest') ∧ Recast Respaced .code rest rest' := by
  fun_induction Lexeme.contents quote cs generalizing ds with
  | case1 =>
    rw [h.eq_nil (by simp)]
    exact .inl ⟨rfl, rfl⟩
  | case2 c cs ih =>
    obtain ⟨ds, rfl, hnext⟩ := h.exists_cons (by simp)
    have hescape : (Region.literal quote false).next '\\' = .literal quote true := by
      simp [Region.next, hquote.symm]
    rw [hescape] at hnext
    obtain ⟨ds, rfl, htail⟩ := hnext.exists_cons (by simp)
    rw [Lexeme.contents]
    rcases ih htail with ⟨hcs, hds⟩ | ⟨text, taken, rest, rest', hcs, hds, hrest⟩
    · exact .inl ⟨by rw [hcs]; rfl, by rw [hds]; rfl⟩
    · exact .inr ⟨_, _, rest, rest', by rw [hcs]; rfl, by rw [hds]; rfl, hrest⟩
  | case3 cs hplain =>
    obtain ⟨ds, rfl, htail⟩ := h.exists_cons (by simp)
    rw [Region.next, if_pos rfl] at htail
    exact .inr ⟨[], [quote], cs, ds, rfl, Token.contents_quote hquote ds, htail⟩
  | case4 c cs hplain hc ih =>
    obtain ⟨ds, rfl, htail⟩ := h.exists_cons (by simp)
    rw [Region.next, if_neg hc] at htail
    by_cases hb : c = '\\'
    · -- a backslash that begins no escape is the last character
      subst hb
      cases cs with
      | nil =>
        rw [htail.eq_nil (by simp)]
        exact .inl ⟨rfl, by simp [Lexeme.contents, hc]⟩
      | cons d cs => exact absurd rfl (hplain d cs rfl)
    · rw [beq_false_of_ne hb] at htail
      rw [Token.contents_cons hc hb]
      rcases ih htail with ⟨hcs, hds⟩ | ⟨text, taken, rest, rest', hcs, hds, hrest⟩
      · exact .inl ⟨by rw [hcs]; rfl, by rw [hds]; rfl⟩
      · exact .inr ⟨_, _, rest, rest', by rw [hcs]; rfl, by rw [hds]; rfl, hrest⟩

theorem number (h : Recast Respaced .code cs ds) :
    ∃ rest, Lexeme.number ds = { Lexeme.number cs with rest } ∧
      Recast Respaced .code (Lexeme.number cs).rest rest := by
  have hblank := eq_false_of_isBlank (p := Char.isDigit) (by decide)
  have hcode := Region.isCode_of_class (p := Char.isDigit) (by decide) (by decide) (by decide)
  have hpoint : isBlank '.' = false := by decide
  have hnext : Region.code.next '.' = .code := by decide
  obtain ⟨htake, hdrop⟩ := h.span hblank hcode
  by_cases hdot : ∃ rest, cs.dropWhile Char.isDigit = '.' :: rest
  · obtain ⟨rest, hcs⟩ := hdot
    rw [hcs] at hdrop
    obtain ⟨rest', hds, hrest⟩ := hdrop.exists_cons_of_not_blank hpoint
    rw [hnext] at hrest
    obtain ⟨htake', hdrop'⟩ := hrest.span hblank hcode
    refine ⟨rest'.dropWhile Char.isDigit, ?_, ?_⟩
    · simp only [Lexeme.number, hcs, hds, htake, htake', Lexeme.plain]
    · simp only [Lexeme.number, hcs]
      exact hdrop'
  · have hnone {es : List Char} (hes : ¬∃ rest, es.dropWhile Char.isDigit = '.' :: rest) :
        Lexeme.number es = .plain .number (es.takeWhile Char.isDigit) (es.dropWhile Char.isDigit) := by
      unfold Lexeme.number
      split
      · next rest hr => exact absurd ⟨rest, hr⟩ hes
      · rfl
    have hdot' : ¬∃ rest, ds.dropWhile Char.isDigit = '.' :: rest := by
      rintro ⟨rest, hds⟩
      rw [hds] at hdrop
      obtain ⟨rest', hcs, -⟩ := hdrop.symm.exists_cons_of_not_blank hpoint
      exact hdot ⟨rest', hcs⟩
    rw [hnone hdot, hnone hdot', htake]
    exact ⟨_, rfl, hdrop⟩

theorem first {c : Char} (h : Recast Respaced (Region.code.next c) cs ds) :
    (∃ refusal, Lexeme.first c cs = .error refusal ∧ Lexeme.first c ds = .error refusal) ∨
      ∃ l rest, Lexeme.first c cs = .ok l ∧ Lexeme.first c ds = .ok { l with rest } ∧
        Recast Respaced .code l.rest rest := by
  have hcode (hq : opening c ≠ .quote) (hs : opening c ≠ .comment) : Recast Respaced .code cs ds := by
    rwa [Region.next_code (Region.isCode_of_opening hq hs)] at h
  rw [Token.first_eq, Token.first_eq]
  cases ho : opening c with
  | nothing => exact .inl ⟨_, rfl, rfl⟩
  | quote =>
    have hquote := isQuote_of_opening ho
    rw [Region.next, if_pos hquote] at h
    rcases h.contents (ne_backslash_of_isQuote hquote) with ⟨hcs, hds⟩ | ⟨text, taken, rest, rest', hcs, hds, hrest⟩
    · rw [hcs, hds]
      exact .inl ⟨_, rfl, rfl⟩
    · rw [hcs, hds]
      exact .inr ⟨_, rest', rfl, rfl, hrest⟩
  | comment =>
    obtain rfl := Token.opening_eq_comment ho
    obtain ⟨htake, hdrop⟩ := comment h
    exact .inr ⟨_, _, rfl, by rw [htake]; rfl, hdrop⟩
  | digit =>
    have hcons : Recast Respaced .code (c :: cs) (c :: ds) := .same c h
    obtain ⟨rest, hds, hrest⟩ := hcons.number
    exact .inr ⟨_, rest, rfl, congrArg _ hds, hrest⟩
  | name =>
    have hblank : ∀ c, isBlank c = true → Token.continuesName c = false :=
      fun c hc => (Text.table_of_isBlank hc).1.2
    have hname := Region.isCode_of_class (p := Token.continuesName) (by decide) (by decide) (by decide)
    obtain ⟨htake, hdrop⟩ := (hcode (by simp [ho]) (by simp [ho])).span hblank hname
    exact .inr ⟨_, _, rfl, by rw [htake]; rfl, hdrop⟩
  | operator =>
    have hblank := eq_false_of_isBlank (p := Token.isOperatorChar) (by decide)
    have hoperator := Region.isCode_of_class (p := Token.isOperatorChar)
      (by decide) (by decide) (by decide)
    obtain ⟨htake, hdrop⟩ := (hcode (by simp [ho]) (by simp [ho])).span hblank hoperator
    exact .inr ⟨_, _, rfl, by rw [htake]; rfl, hdrop⟩
  | lineEnd | blank | delimiter d =>
    exact .inr ⟨_, ds, rfl, rfl, hcode (by simp [ho]) (by simp [ho])⟩

end Recast

/-! Tokens. -/

def lined (t : Token) : Kind × String × Nat := (t.kind, t.text, t.position.line)

def outline (r : Except (Refusal × Position) (List Token)) :
    Except (Refusal × Nat) (List (Kind × String × Nat)) :=
  match r with
  | .ok ts => .ok (ts.map lined)
  | .error (refusal, p) => .error (refusal, p.line)

theorem outline_map (ts : List Token) (r : Except (Refusal × Position) (List Token)) :
    outline (r.map (ts ++ ·)) = (outline r).map (ts.map lined ++ ·) := by
  cases r with
  | error e => rfl
  | ok us => exact congrArg Except.ok List.map_append

theorem map_lined_tokens {p q : Position} (h : p.line = q.line) (l : Lexeme) :
    (l.tokens p).map lined = (l.tokens q).map lined := by
  unfold Lexeme.tokens
  cases l.kind? with
  | none => rfl
  | some kind => simp [lined, h]

theorem scanFrom_spacing {bs : List Char} (h : ∀ c ∈ bs, isBlank c = true ∧ c ≠ '\n') (p : Position)
    (cs : List Char) : scanFrom p (bs ++ cs) = scanFrom (p.after bs) cs := by
  induction bs generalizing p with
  | nil => rfl
  | cons b bs ih =>
    obtain ⟨hb, hbs⟩ := List.forall_mem_cons.1 h
    have hgap : Lexeme.first b (bs ++ cs) = .ok (.gap [b] (bs ++ cs)) := by
      unfold Lexeme.first
      rw [if_neg hb.2, if_pos hb.1]
    rw [List.cons_append, Token.scanFrom_of_ok hgap]
    change (scanFrom (p.next b) (bs ++ cs)).map ([] ++ ·) = scanFrom ((p.next b).after bs) cs
    rw [ih hbs]
    cases scanFrom ((p.next b).after bs) cs <;> rfl

theorem IsSpacing.line_after {bs : List Char} (h : IsSpacing bs) (p : Position) :
    (p.after bs).line = p.line := by
  rw [Position.line_after, List.count_eq_zero.2 fun hm => (h.2 '\n' hm).2 rfl]
  rfl

theorem Recast.outline_scanFrom {cs ds : List Char} (h : Recast Respaced .code cs ds) {p q : Position}
    (hline : p.line = q.line) : outline (scanFrom p cs) = outline (scanFrom q ds) := by
  -- a step takes a lexeme off both texts, or a gap, so the induction is on the length of the first
  induction hn : cs.length using Nat.strongRecOn generalizing cs ds p q with
  | ind n ih =>
    subst hn
    generalize hr : Region.code = r at h
    cases h with
    | nil =>
      rw [scanFrom, scanFrom]
      simp [outline, lined, hline]
    | @same _ c cs ds h =>
      subst hr
      rcases h.first with ⟨refusal, hcs, hds⟩ | ⟨l, rest, hcs, hds, hrest⟩
      · rw [Token.scanFrom_of_error hcs, Token.scanFrom_of_error hds]
        simp [outline, hline]
      · have hlt : l.rest.length < (c :: cs).length :=
          Nat.lt_succ_of_le (Lexeme.first_rest_le hcs)
        have hline' : (p.after l.taken).line = (q.after l.taken).line := by
          rw [Position.line_after, Position.line_after, hline]
        rw [Token.scanFrom_of_ok hcs, Token.scanFrom_of_ok hds, outline_map, outline_map,
          ih _ hlt hrest hline' rfl, map_lined_tokens hline]
        rfl
    | @code text text' cs ds htext h =>
      have hlt : cs.length < (text ++ cs).length := by
        rw [List.length_append]
        exact Nat.lt_add_of_pos_left (List.length_pos_iff.2 htext.1.1)
      rw [scanFrom_spacing htext.1.2, scanFrom_spacing htext.2.2]
      refine ih _ hlt h ?_ rfl
      rw [htext.1.line_after, htext.2.line_after, hline]

end Parlance.Source
