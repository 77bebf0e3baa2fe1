import Parlance.Proofs.Pattern.Words

/-! Replacing the matches of a pattern, as a relation between the text before and after. At each place
a character is copied if no match begins there, and otherwise the match is swapped for its
replacement. For a pattern that begins with a word this gives rules for whole stretches of text:
blanks, marks and other words are copied. -/

namespace Parlance.Pattern
open Text (isWordChar isBlank fold)

/-- After the character `previous`, the first text becomes the second by replacing the matches. -/
inductive Rewrites (p : Pattern) (f : Spot → Spot → List Char) :
    Option Char → List Char → List Char → Prop
  | done {previous : Option Char} : (∀ n, ends p ⟨n, previous, [], []⟩ = []) →
      Rewrites p f previous [] []
  | copy {previous : Option Char} {c : Char} {cs out : List Char} :
      (∀ n, ends p ⟨n, previous, c :: cs, []⟩ = []) → Rewrites p f (some c) cs out →
      Rewrites p f previous (c :: cs) (c :: out)
  | swap {previous : Option Char} {taken rest new out : List Char} : taken ≠ [] →
      (∀ n, ∃ t, matchAt p ⟨n, previous, taken ++ rest, []⟩ = some t ∧
        t.position = n + taken.length ∧ f ⟨n, previous, taken ++ rest, []⟩ t = new) →
      Rewrites p f (taken.getLast?.or previous) rest out →
      Rewrites p f previous (taken ++ rest) (new ++ out)

theorem replaceFrom_skip (p : Pattern) (f : Spot → Spot → List Char) (n : Nat) (c : Char)
    (ds rest : List Char) : replaceFrom p f ds.length true n (some c) (ds ++ rest) =
      replaceFrom p f 0 true (n + ds.length) (c :: ds).getLast? rest := by
  induction ds generalizing n c with
  | nil => rfl
  | cons d ds ih =>
    rw [List.cons_append, List.length_cons, replaceFrom, ih, List.getLast?_cons_cons]
    congr 1
    omega

theorem Rewrites.replaceFrom_eq {p : Pattern} {f : Spot → Spot → List Char}
    {previous : Option Char} {cs out : List Char} (h : Rewrites p f previous cs out)
    (touched : Bool) (n : Nat) : replaceFrom p f 0 touched n previous cs = out := by
  induction h generalizing touched n with
  | done hend => simp [replaceFrom, matchAt, hend]
  | copy hend _ ih => simp [replaceFrom, matchAt, hend, ih]
  | @swap previous taken rest new out hne hmatch _ ih =>
    obtain ⟨t, ht, hpos, hnew⟩ := hmatch n
    obtain ⟨c, ds, rfl⟩ := List.exists_cons_of_ne_nil hne
    have hfilter : (matchAt p ⟨n, previous, c :: (ds ++ rest), []⟩).filter
        (fun t => !touched || decide (n < t.position)) = some t := by
      rw [List.cons_append] at ht
      simp [ht, hpos]
    rw [List.cons_append] at hnew
    rw [List.cons_append, replaceFrom]
    simp only [hfilter, Option.map_some, Option.getD_some, hnew, hpos, Nat.add_sub_cancel_left,
      List.length_cons, Nat.add_one_ne_zero, if_false, Nat.add_one_sub_one]
    rw [replaceFrom_skip, ← ih true (n + 1 + ds.length), List.getLast?_cons, Option.some_or]

theorem Rewrites.replaceAll_eq {p : Pattern} {f : Spot → Spot → List Char} {cs out : List Char}
    (h : Rewrites p f none cs out) : p.replaceAll f cs = out := h.replaceFrom_eq false 0

/-! Copying. -/

theorem getLast?_cons_or (c : Char) (cs : List Char) (previous : Option Char) :
    (c :: cs).getLast?.or previous = cs.getLast?.or (some c) := by
  rw [List.getLast?_cons]
  cases cs.getLast? <;> rfl

section
variable {w : String} {p : Pattern} {f : Spot → Spot → List Char}

theorem Leads.ends_eq_nil {s : Spot} (h : Leads w p)
    (hs : s.previous.any isWordChar = true ∨
      (s.rest.takeWhile isWordChar).map fold ≠ w.toList) : ends p s = [] := by
  rcases Classical.em (ends p s = []) with he | he
  · exact he
  · have hl := h.starts s he
    rcases hs with hs | hs
    · simp [hl.1] at hs
    · exact absurd hl.2 hs

variable (h : Leads w p)
include h

theorem Rewrites.word {previous : Option Char} {cs rest out : List Char}
    (hcs : ∀ c ∈ cs, isWordChar c = true)
    (hfirst : ∀ n, ends p ⟨n, previous, cs ++ rest, []⟩ = [])
    (hr : Rewrites p f (cs.getLast?.or previous) rest out) :
    Rewrites p f previous (cs ++ rest) (cs ++ out) := by
  induction cs generalizing previous with
  | nil => exact hr
  | cons c cs ih =>
    have hc : isWordChar c = true := hcs c (by simp)
    refine .copy hfirst (ih (fun d hd => hcs d (List.mem_cons_of_mem c hd))
      (fun n => h.ends_eq_nil (.inl hc)) ?_)
    rwa [getLast?_cons_or] at hr

theorem Rewrites.nil (previous : Option Char) : Rewrites p f previous [] [] :=
  .done fun _ => h.ends_eq_nil (.inr (Ne.symm h.isWord.1))

theorem Rewrites.marks {previous : Option Char} {cs rest out : List Char}
    (hcs : ∀ c ∈ cs, isWordChar c = false)
    (hr : Rewrites p f (cs.getLast?.or previous) rest out) :
    Rewrites p f previous (cs ++ rest) (cs ++ out) := by
  induction cs generalizing previous with
  | nil => exact hr
  | cons c cs ih =>
    have hc : isWordChar c = false := hcs c (by simp)
    refine .copy (fun n => h.ends_eq_nil (.inr ?_))
      (ih (fun d hd => hcs d (List.mem_cons_of_mem c hd)) ?_)
    · simpa [hc] using Ne.symm h.isWord.1
    · rwa [getLast?_cons_or] at hr

end

end Parlance.Pattern
