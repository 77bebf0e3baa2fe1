import Parlance.Proofs.Phrase.Spelling

/-! Text that the English book leaves alone: words that no rule begins with and that are not left
out, and marks. The rules copy it, and so does putting pieces together, which also makes one space
of the blanks around it. -/

namespace Parlance
open Text Pattern Phrasebook

/-- No rule begins with the word, and it is not left out. -/
def Free (cs : List Char) : Prop :=
  (∀ w ∈ leaders, cs.map fold ≠ w.toList) ∧ String.ofList (lower cs) ∉ english.removables

inductive Calm : List Char → Prop
  | nil : Calm []
  | mark {c : Char} {cs : List Char} : isWordChar c = false → isBlank c = false → Calm cs →
      Calm (c :: cs)
  | word {word cs : List Char} : word ≠ [] → (∀ c ∈ word, isWordChar c = true) → Free word →
      cs.head?.any isWordChar = false → Calm cs → Calm (word ++ cs)

theorem Calm.head_any_isBlank {cs : List Char} (h : Calm cs) (hne : cs ≠ []) (rest : List Char) :
    (cs ++ rest).head?.any isBlank = false := by
  cases h with
  | nil => exact absurd rfl hne
  | mark hc hb => exact hb
  | word hw hc =>
    obtain ⟨c, ds, rfl⟩ := List.exists_cons_of_ne_nil hw
    exact isBlank_of_isWordChar (hc c (by simp))

/-- A word at the end of the first text does not go on in the second. -/
def Ended (cs rest : List Char) : Prop :=
  cs.getLast?.any isWordChar = true → rest.head?.any isWordChar = false

theorem Ended.of_append {ds rest : List Char} (cs : List Char) (h : Ended (cs ++ ds) rest) : Ended ds rest := by
  intro hd
  refine h ?_
  obtain ⟨d, hl, hd⟩ := (Option.any_eq_true _ _).1 hd
  simpa [List.getLast?_append, hl] using hd

theorem Ended.head {word ds rest : List Char} (h : Ended (word ++ ds) rest) (hne : word ≠ [])
    (hword : ∀ c ∈ word, isWordChar c = true) (hd : ds.head?.any isWordChar = false) :
    (ds ++ rest).head?.any isWordChar = false := by
  cases ds with
  | nil =>
    obtain ⟨l, hl⟩ := Option.isSome_iff_exists.1 (List.getLast?_isSome.2 hne)
    refine h ?_
    simpa [hl] using hword l (List.mem_of_getLast? hl)
  | cons d ds => exact hd

theorem Calm.rewrites {w : String} {p : Pattern} {f : Spot → Spot → List Char} (hp : Leads w p)
    (hw : w ∈ leaders) {cs : List Char} (h : Calm cs) {previous : Option Char}
    {rest out : List Char} (hr : Ended cs rest)
    (hrest : Rewrites p f (cs.getLast?.or previous) rest out) :
    Rewrites p f previous (cs ++ rest) (cs ++ out) := by
  induction h generalizing previous with
  | nil => exact hrest
  | @mark c cs hc _ _ ih =>
    rw [getLast?_cons_or] at hrest
    have hcopy := ih (hr.of_append [c]) hrest
    show Rewrites p f previous ([c] ++ (cs ++ rest)) ([c] ++ (cs ++ out))
    exact Rewrites.marks hp (by simpa using hc) hcopy
  | @word word cs hne hword hfree hcs _ ih =>
    rw [List.getLast?_append, Option.or_assoc] at hrest
    rw [List.append_assoc, List.append_assoc]
    refine Rewrites.word hp hword (fun n => hp.ends_eq_nil (.inr ?_)) (ih (hr.of_append word) hrest)
    rw [takeWhile_append_stop hword (hr.head hne hword hcs)]
    exact hfree.1 w hw

/-! Pieces. -/

theorem pieces_cons (c : Char) (cs : List Char) :
    ∃ piece rest, pieces (c :: cs) = (c :: piece) :: rest := by
  rw [pieces]
  split
  · split
    · exact ⟨_, _, rfl⟩
    · exact ⟨_, _, rfl⟩
  · exact ⟨_, _, rfl⟩

theorem pieces_cons_of_not_joins {c : Char} {cs : List Char}
    (h : ∀ d ∈ cs.head?, joins c d = false) : pieces (c :: cs) = [c] :: pieces cs := by
  cases cs with
  | nil => rfl
  | cons d cs =>
    obtain ⟨piece, rest, hp⟩ := pieces_cons d cs
    rw [pieces, hp]
    simp [h d rfl]

theorem pieces_run {p : Char → Bool} (hp : ∀ c d, p c = true → joins c d = p d)
    {cs rest : List Char} (hne : cs ≠ []) (hcs : ∀ c ∈ cs, p c = true)
    (hr : rest.head?.any p = false) : pieces (cs ++ rest) = cs :: pieces rest := by
  induction cs with
  | nil => exact absurd rfl hne
  | cons c cs ih =>
    have hc : p c = true := hcs c (by simp)
    cases cs with
    | nil =>
      refine pieces_cons_of_not_joins fun d hd => ?_
      have hd' : rest.head? = some d := hd
      rw [hd'] at hr
      rw [hp c d hc]
      exact hr
    | cons d cs =>
      have hd : p d = true := hcs d (by simp)
      rw [List.cons_append, pieces, ih (by simp) fun e he => hcs e (List.mem_cons_of_mem c he)]
      simp [hp c d hc, hd]

theorem joins_of_isWordChar (c d : Char) (h : isWordChar c = true) :
    joins c d = isWordChar d := by
  simp [joins, h, isBlank_of_isWordChar h]

theorem joins_of_isBlank (c d : Char) (h : isBlank c = true) : joins c d = isBlank d := by
  simp [joins, h, isWordChar_of_isBlank h]

/-! Putting pieces together. -/

def Phrasebook.Keeps (book : Phrasebook) (piece : List Char) : Prop :=
  String.ofList (lower piece) ∉ book.removables ∧
    book.replacements.get? (String.ofList (lower piece)) = none

theorem merge_of_keeps {book : Phrasebook} {piece : List Char} {rest : List (List Char)} {spaced : Bool}
    (hb : piece.all isBlank = false) (h : book.Keeps piece) :
    merge book spaced (piece :: rest) = piece ++ merge book false rest := by
  simp [merge, hb, h.1, h.2]

theorem english_keeps {piece : List Char} (h : String.ofList (lower piece) ∉ english.removables) :
    english.Keeps piece := ⟨h, rfl⟩

theorem merge_isGap {gap rest : List Char} (h : IsGap gap) (hr : rest.head?.any isBlank = false) :
    merge english false (pieces (gap ++ rest)) = ' ' :: merge english true (pieces rest) := by
  have hall : gap.all isBlank = true := List.all_eq_true.2 h.2
  rw [pieces_run joins_of_isBlank h.1 h.2 hr]
  simp [merge, hall]

theorem length_lower_singleton (c : Char) : (lower [c]).length ≤ 2 := by
  simp only [lower, lowerFrom, lowerBetween]
  repeat' split
  all_goals simp

theorem english_keeps_singleton (c : Char) : english.Keeps [c] := by
  refine english_keeps fun hm => ?_
  have hlong : ∀ w ∈ english.removables, 3 ≤ w.toList.length := by decide
  have hlength := hlong _ hm
  have hshort := length_lower_singleton c
  rw [String.toList_ofList] at hlength
  omega

theorem Calm.merge {cs : List Char} (h : Calm cs) {rest : List Char} (hr : Ended cs rest)
    {spaced : Bool} (hs : cs ≠ [] ∨ spaced = false) :
    merge english spaced (pieces (cs ++ rest)) = cs ++ merge english false (pieces rest) := by
  induction h generalizing spaced with
  | nil =>
    rcases hs with hs | rfl
    · exact absurd rfl hs
    · rfl
  | @mark c cs hc hb _ ih =>
    have hjoin : ∀ d ∈ (cs ++ rest).head?, joins c d = false := by simp [joins, hc, hb]
    rw [List.cons_append, pieces_cons_of_not_joins hjoin,
      merge_of_keeps (by simpa using hb) (english_keeps_singleton c), ih (hr.of_append [c]) (.inr rfl)]
    rfl
  | @word word cs hne hword hfree hcs _ ih =>
    have hb : word.all isBlank = false := by
      obtain ⟨c, ds, rfl⟩ := List.exists_cons_of_ne_nil hne
      simp [isBlank_of_isWordChar (hword c (by simp))]
    rw [List.append_assoc, pieces_run joins_of_isWordChar hne hword (hr.head hne hword hcs),
      merge_of_keeps hb (english_keeps hfree.2), ih (hr.of_append word) (.inr rfl), List.append_assoc]

end Parlance
