import Parlance.Proofs.Token.Lexing

/-! Where tokens stand. Each lexeme covers the characters at the front of what is left, so a token, and
also a refusal, stands at the place that is reached after some of the text. -/

namespace Parlance

theorem Position.line_after (p : Position) (cs : List Char) :
    (p.after cs).line = p.line + cs.count '\n' := by
  induction cs generalizing p with
  | nil => rfl
  | cons c cs ih =>
    have hstep : p.after (c :: cs) = (p.next c).after cs := rfl
    rw [hstep, ih, Position.next]
    by_cases hc : c = '\n'
    · rw [if_pos hc, hc, List.count_cons_self]
      exact Nat.add_right_comm p.line 1 _
    · rw [if_neg hc, List.count_cons_of_ne hc]

theorem Position.after_append (p : Position) (cs ds : List Char) :
    p.after (cs ++ ds) = (p.after cs).after ds := List.foldl_append

namespace Token

theorem contents_taken {quote : Char} {cs text taken rest : List Char}
    (h : Lexeme.contents quote cs = some (text, taken, rest)) : taken ++ rest = cs := by
  induction h using contents_induction with
  | closing => rfl
  | escape _ _ ih | plain _ _ _ ih => simp [ih]

theorem number_taken (cs : List Char) : (Lexeme.number cs).taken ++ (Lexeme.number cs).rest = cs := by
  have hcut := List.takeWhile_append_dropWhile (p := Char.isDigit) (l := cs)
  unfold Lexeme.number
  split
  · next rest hr =>
    have hcut' := List.takeWhile_append_dropWhile (p := Char.isDigit) (l := rest)
    rw [hr] at hcut
    simp only [Lexeme.plain, List.append_assoc, List.cons_append, hcut', hcut]
  · exact hcut

theorem first_taken {c : Char} {cs : List Char} {l : Lexeme} (h : Lexeme.first c cs = .ok l) :
    l.taken ++ l.rest = c :: cs := by
  have hcut (p : Char → Bool) : (c :: cs.takeWhile p) ++ cs.dropWhile p = c :: cs := by
    rw [List.cons_append, List.takeWhile_append_dropWhile]
  rw [first_eq] at h
  cases ho : opening c with
  | nothing =>
    rw [ho] at h
    cases h
  | quote =>
    simp only [ho] at h
    split at h
    · next text taken rest hr =>
      cases h
      rw [List.cons_append, contents_taken hr]
    · cases h
  | digit =>
    simp only [ho] at h
    cases h
    exact number_taken (c :: cs)
  | lineEnd | blank | delimiter d =>
    simp only [ho] at h
    cases h
    rfl
  | comment | name | operator =>
    simp only [ho] at h
    cases h
    exact hcut _

def Reached (p : Position) (cs : List Char) (q : Position) : Prop := ∃ front, front <+: cs ∧ q = p.after front

theorem Reached.line {p q : Position} {cs : List Char} (h : Reached p cs q) :
    p.line ≤ q.line ∧ q.line ≤ p.line + cs.count '\n' := by
  obtain ⟨front, hfront, rfl⟩ := h
  have hcount := hfront.sublist.count_le '\n'
  rw [Position.line_after]
  omega

theorem Reached.later {p q : Position} {c : Char} {cs : List Char} {l : Lexeme}
    (hf : Lexeme.first c cs = .ok l) (h : Reached (p.after l.taken) l.rest q) :
    Reached p (c :: cs) q := by
  obtain ⟨front, hfront, rfl⟩ := h
  refine ⟨l.taken ++ front, ?_, (Position.after_append p l.taken front).symm⟩
  rw [← first_taken hf]
  exact (List.prefix_append_right_inj _).2 hfront

theorem reached_of_scanFrom (p : Position) (cs : List Char) :
    (∀ ts, scanFrom p cs = .ok ts → ∀ t ∈ ts, Reached p cs t.position) ∧
      ∀ refusal q, scanFrom p cs = .error (refusal, q) → Reached p cs q := by
  have hstart (p : Position) (cs : List Char) : Reached p cs p := ⟨[], List.nil_prefix, rfl⟩
  fun_induction scanFrom p cs with
  | case1 p =>
    refine ⟨?_, by rintro _ _ ⟨⟩⟩
    rintro ts ⟨⟩ t ht
    rw [List.mem_singleton] at ht
    rw [ht]
    exact hstart p []
  | case2 p c cs refusal hf =>
    refine ⟨by rintro _ ⟨⟩, ?_⟩
    rintro _ _ ⟨⟩
    exact hstart p (c :: cs)
  | case3 p c cs l hf e he ih =>
    refine ⟨by rintro _ ⟨⟩, ?_⟩
    rintro refusal q ⟨⟩
    exact (ih.2 refusal q he).later hf
  | case4 p c cs l hf tokens ht ih =>
    refine ⟨?_, by rintro _ _ ⟨⟩⟩
    rintro ts ⟨⟩ t hm
    have hlater : ∀ t ∈ tokens, Reached p (c :: cs) t.position :=
      fun t hm => (ih.1 tokens ht t hm).later hf
    cases hk : l.kind? with
    | none =>
      rw [hk] at hm
      exact hlater t hm
    | some kind =>
      simp only [hk, List.mem_cons] at hm
      rcases hm with rfl | hm
      · exact hstart p (c :: cs)
      · exact hlater t hm

end Token
end Parlance
