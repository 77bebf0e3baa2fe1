import Parlance.Proofs.Token.Lines

/-! The place that a position names. It is counted from the text before it, all at once; the lexer counts
character by character and comes to the same. Positions go up with every character, so that in one
text a position stands for one place only. -/

namespace Parlance.Position

/-- The place right after the text: on the line after the newlines in it, and in the column after the
characters that follow the last of them. -/
def ofText (before : List Char) : Position :=
  ⟨1 + before.count '\n', 1 + (before.reverse.takeWhile (· != '\n')).length⟩

theorem next_ofText (before : List Char) (c : Char) :
    (ofText before).next c = ofText (before ++ [c]) := by
  unfold next ofText
  rw [List.reverse_append, List.reverse_singleton, List.singleton_append, List.count_append]
  by_cases hc : c = '\n'
  · subst hc
    rfl
  · have hcolumn : (c != '\n') = true := by simpa using hc
    rw [if_neg hc, List.takeWhile_cons, if_pos hcolumn, List.count_singleton, if_neg (by simpa using hc),
      List.length_cons]
    rfl

theorem after_ofText (before cs : List Char) :
    (ofText before).after cs = ofText (before ++ cs) := by
  induction cs generalizing before with
  | nil => rw [List.append_nil]; rfl
  | cons c cs ih =>
    have hstep : (ofText before).after (c :: cs) = ((ofText before).next c).after cs := rfl
    rw [hstep, next_ofText, ih, List.append_assoc, List.singleton_append]

/-- Columns count characters, and lines end inside strings as they do elsewhere. -/
example : ofText "\"é\nü\" x".toList = ⟨2, 5⟩ := by decide

def Before (p q : Position) : Prop := p.line < q.line ∨ p.line = q.line ∧ p.column < q.column

theorem Before.trans {p q r : Position} (h : p.Before q) (h' : q.Before r) : p.Before r := by
  unfold Before at *
  omega

theorem before_next (p : Position) (c : Char) : p.Before (p.next c) := by
  unfold next
  split
  · exact .inl (Nat.lt_succ_self _)
  · exact .inr ⟨rfl, Nat.lt_succ_self _⟩

theorem before_after (p : Position) {cs : List Char} (h : cs ≠ []) : p.Before (p.after cs) := by
  induction cs generalizing p with
  | nil => exact absurd rfl h
  | cons c cs ih =>
    have hstep : p.after (c :: cs) = (p.next c).after cs := rfl
    rw [hstep]
    by_cases hcs : cs = []
    · subst hcs
      exact p.before_next c
    · exact (p.before_next c).trans (ih (p.next c) hcs)

theorem ofText_before_append (before : List Char) {cs : List Char} (h : cs ≠ []) :
    (ofText before).Before (ofText (before ++ cs)) := by
  rw [← after_ofText]
  exact before_after _ h

theorem prefix_of_ofText_eq {u v : List Char} (h : u <+: v) (he : ofText u = ofText v) : u = v := by
  obtain ⟨cs, rfl⟩ := h
  by_cases hcs : cs = []
  · rw [hcs, List.append_nil]
  · have hbefore := ofText_before_append u hcs
    rw [← he] at hbefore
    unfold Before at hbefore
    omega

theorem ofText_injective {u v cs : List Char} (hu : u <+: cs) (hv : v <+: cs)
    (he : ofText u = ofText v) : u = v := by
  rcases List.prefix_or_prefix_of_prefix hu hv with h | h
  · exact prefix_of_ofText_eq h he
  · exact (prefix_of_ofText_eq h he.symm).symm

end Parlance.Position
