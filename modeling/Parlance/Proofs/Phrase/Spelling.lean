import Parlance.Phrase.Reword
import Parlance.Proofs.Pattern.Rewriting

/-! What the rules of the English book do to a text, word by word. A rule replaces its own phrase, in
any letter case and with any blanks between its words. It copies a word that no phrase begins with,
and a phrase of a later rule: the later phrase does not begin with the earlier one, and if it is the
beginning of the earlier one, then the word that would have to come next is `or`. -/

namespace Parlance
open Text Pattern

/-! Phrases. -/

inductive Phrased : List String → List Char → Prop
  | last {w : String} {word : List Char} : word.map fold = w.toList → Phrased [w] word
  | more {w v : String} {ws : List String} {word gap rest : List Char} :
      word.map fold = w.toList → IsGap gap → Phrased (v :: ws) rest →
      Phrased (w :: v :: ws) (word ++ (gap ++ rest))

theorem readWords_eq_none_of_ne {w : String} {ws : List String} {cs : List Char}
    (h : (cs.takeWhile isWordChar).map fold ≠ w.toList) : readWords (w :: ws) cs = none := by
  simp only [readWords, if_neg h]

namespace Phrased

theorem exists_word {w : String} {ws : List String} {text : List Char} (h : Phrased (w :: ws) text)
    {rest : List Char} (hr : rest.head?.any isWordChar = false) :
    ∃ word tail, text ++ rest = word ++ tail ∧ word.map fold = w.toList ∧
      tail.head?.any isWordChar = false := by
  cases h with
  | last hword => exact ⟨text, rest, rfl, hword, hr⟩
  | @more _ v _ word gap others hword hgap _ =>
    refine ⟨word, gap ++ (others ++ rest), ?_, hword, hgap.head_any_isWordChar _⟩
    rw [List.append_assoc, List.append_assoc]

theorem firstWord_eq {w : String} {ws : List String} {text : List Char} (h : Phrased (w :: ws) text)
    (hw : IsWord w) {rest : List Char} (hr : rest.head?.any isWordChar = false) :
    ((text ++ rest).takeWhile isWordChar).map fold = w.toList := by
  obtain ⟨word, tail, he, hword, htail⟩ := h.exists_word hr
  rw [he, takeWhile_append_stop (hw.isWordChar hword) htail, hword]

theorem head_isWordChar {w : String} {ws : List String} {text : List Char}
    (h : Phrased (w :: ws) text) (hw : IsWord w) : text.head?.any isWordChar = true := by
  have hnil : ([] : List Char).head?.any isWordChar = false := rfl
  obtain ⟨word, tail, he, hword, -⟩ := h.exists_word hnil
  rw [List.append_nil] at he
  obtain ⟨c, cs, rfl⟩ := List.exists_cons_of_ne_nil (hw.ne_nil hword)
  rw [he]
  exact hw.isWordChar hword c (by simp)

theorem head_any_isBlank {w : String} {ws : List String} {text : List Char}
    (h : Phrased (w :: ws) text) (hw : IsWord w) (rest : List Char) :
    (text ++ rest).head?.any isBlank = false := by
  obtain ⟨c, hc, hchar⟩ := (Option.any_eq_true _ _).1 (h.head_isWordChar hw)
  rw [List.head?_append, hc]
  exact isBlank_of_isWordChar hchar

theorem getLast_isWordChar {ws : List String} {text : List Char} (h : Phrased ws text)
    (hws : ∀ w ∈ ws, IsWord w) : text.getLast?.any isWordChar = true := by
  induction h with
  | @last w word hword =>
    have hw := hws w (by simp)
    obtain ⟨l, hl⟩ := Option.isSome_iff_exists.1 (List.getLast?_isSome.2 (hw.ne_nil hword))
    rw [hl]
    exact hw.isWordChar hword l (List.mem_of_getLast? hl)
  | @more w v ws word gap rest _ _ _ ih =>
    have hlast := ih (List.forall_mem_cons.1 hws).2
    obtain ⟨l, hl, hw⟩ := (Option.any_eq_true _ _).1 hlast
    simpa [List.getLast?_append, hl] using hw

theorem ne_nil {ws : List String} {text : List Char} (h : Phrased ws text)
    (hws : ∀ w ∈ ws, IsWord w) : text ≠ [] := by
  rintro rfl
  cases h.getLast_isWordChar hws

theorem readWords_eq {ws : List String} {text : List Char} (h : Phrased ws text)
    (hws : ∀ w ∈ ws, IsWord w) {rest : List Char} (hr : rest.head?.any isWordChar = false) :
    readWords ws (text ++ rest) = some (text, rest) := by
  induction h with
  | @last w word hword =>
    have hw := (hws w (by simp)).isWordChar hword
    simp [readWords, takeWhile_append_stop hw hr, dropWhile_append_stop hw hr, hword]
  | @more w v ws word gap others hword hgap hothers ih =>
    obtain ⟨hw, hrest⟩ := List.forall_mem_cons.1 hws
    have hletters := hw.isWordChar hword
    have hstop := hgap.head_any_isWordChar (others ++ rest)
    have hblank := hothers.head_any_isBlank (hrest v (by simp)) rest
    rw [List.append_assoc, List.append_assoc, readWords_cons_cons,
      takeWhile_append_stop hletters hstop, dropWhile_append_stop hletters hstop, if_pos hword,
      if_pos (hgap.head_any_isBlank _), takeWhile_append_stop hgap.2 hblank,
      dropWhile_append_stop hgap.2 hblank, ih hrest]
    simp

theorem readWords_eq_none_of_head_ne {v w : String} {vs ws : List String} {text : List Char}
    (h : Phrased (v :: vs) text) (hv : IsWord v) {rest : List Char}
    (hr : rest.head?.any isWordChar = false) (hne : w ≠ v) :
    readWords (w :: ws) (text ++ rest) = none := by
  refine readWords_eq_none_of_ne ?_
  rw [h.firstWord_eq hv hr]
  exact fun he => hne (String.toList_injective he).symm

theorem readWords_eq_none {vs : List String} {text : List Char} (h : Phrased vs text)
    (hvs : ∀ v ∈ vs, IsWord v) {rest : List Char} (hr : rest.head?.any isWordChar = false)
    {ws : List String} (hpre : ¬ws <+: vs)
    (hnext : ∀ u us, ws = vs ++ u :: us →
      ((rest.dropWhile isBlank).takeWhile isWordChar).map fold ≠ u.toList) :
    readWords ws (text ++ rest) = none := by
  obtain ⟨w, us, rfl⟩ : ∃ w us, ws = w :: us := by
    refine List.exists_cons_of_ne_nil ?_
    rintro rfl
    exact hpre List.nil_prefix
  induction h generalizing w us with
  | @last v word hword =>
    have hv := hvs v (by simp)
    by_cases hwv : w = v
    · -- nothing is left of the phrase, so the next word is looked for in the rest
      subst hwv
      cases us with
      | nil => exact absurd List.prefix_rfl hpre
      | cons u us =>
        rw [readWords_cons_cons, dropWhile_append_stop (hv.isWordChar hword) hr,
          readWords_eq_none_of_ne (hnext u us rfl)]
        simp
    · exact (last hword).readWords_eq_none_of_head_ne hv hr hwv
  | @more v v' vs word gap others hword hgap hothers ih =>
    obtain ⟨hv, hvs'⟩ := List.forall_mem_cons.1 hvs
    by_cases hwv : w = v
    · subst hwv
      cases us with
      | nil => exact absurd (List.prefix_append [w] (v' :: vs)) hpre
      | cons u us =>
        have hstop := hgap.head_any_isWordChar (others ++ rest)
        have hblank := hothers.head_any_isBlank (hvs' v' (by simp)) rest
        rw [List.append_assoc, List.append_assoc, readWords_cons_cons,
          dropWhile_append_stop (hv.isWordChar hword) hstop, dropWhile_append_stop hgap.2 hblank, ih hvs']
        · simp
        · exact fun hp => hpre (List.cons_prefix_cons.2 ⟨rfl, hp⟩)
        · exact fun x xs he => hnext x xs (by rw [he]; rfl)
    · exact (more hword hgap hothers).readWords_eq_none_of_head_ne hv hr hwv

theorem rewrites {w : String} {p : Pattern} {f : Spot → Spot → List Char} (hp : Leads w p)
    {vs : List String} {text : List Char} (h : Phrased vs text) (hvs : ∀ v ∈ vs, IsWord v)
    (htail : ∀ v ∈ vs.tail, v ≠ w) {previous : Option Char} {rest out : List Char}
    (hfirst : ∀ n, ends p ⟨n, previous, text ++ rest, []⟩ = [])
    (hr : rest.head?.any isWordChar = false)
    (hrest : Rewrites p f (text.getLast?.or previous) rest out) :
    Rewrites p f previous (text ++ rest) (text ++ out) := by
  induction h generalizing previous with
  | @last v word hword =>
    have hv := hvs v (by simp)
    exact Rewrites.word hp (hv.isWordChar hword) hfirst hrest
  | @more v v' vs word gap others hword hgap hothers ih =>
    obtain ⟨hv, hvs'⟩ := List.forall_mem_cons.1 hvs
    have hmarks : ∀ c ∈ gap, isWordChar c = false := fun c hc => isWordChar_of_isBlank (hgap.2 c hc)
    simp only [List.append_assoc, List.getLast?_append, Option.or_assoc] at hfirst hrest ⊢
    refine Rewrites.word hp (hv.isWordChar hword) hfirst (Rewrites.marks hp hmarks ?_)
    refine ih hvs' (fun u hu => htail u (List.mem_of_mem_tail hu)) (fun n => ?_) hrest
    refine hp.ends_eq_nil (.inr ?_)
    rw [hothers.firstWord_eq (hvs' v' (by simp)) hr]
    exact fun he => htail v' (by simp) (String.toList_injective he)

end Phrased

/-! Phrases in plain letters. -/

structure Blanks where
  text : List Char
  nonempty : text ≠ []
  blank : ∀ c ∈ text, c = ' ' ∨ c = '\t'

theorem isBlank_of_space_or_tab {c : Char} (h : c = ' ' ∨ c = '\t') : isBlank c = true := by
  rcases h with rfl | rfl <;> decide

theorem Blanks.isGap (b : Blanks) : IsGap b.text :=
  ⟨b.nonempty, fun c hc => isBlank_of_space_or_tab (b.blank c hc)⟩

/-- The text writes the words in some letter case, with blanks between neighbours. -/
inductive Spells : List String → List Char → Prop
  | last {w : String} {text : List Char} : text.map Char.toLower = w.toList → Spells [w] text
  | more {w v : String} {ws : List String} {text rest : List Char} (gap : Blanks) :
      text.map Char.toLower = w.toList → Spells (v :: ws) rest →
      Spells (w :: v :: ws) (text ++ (gap.text ++ rest))

namespace Spells

theorem isNameChar {w : String} (hw : IsWord w) {text : List Char}
    (h : text.map Char.toLower = w.toList) : ∀ c ∈ text, Pattern.isNameChar c = true := by
  intro c hc
  refine isNameChar_of_isLower_toLower (hw.2 _ ?_)
  rw [← h]
  exact List.mem_map_of_mem hc

theorem map_fold {w : String} (hw : IsWord w) {text : List Char}
    (h : text.map Char.toLower = w.toList) : text.map fold = w.toList :=
  (map_fold_of_isNameChar (isNameChar hw h)).trans h

theorem phrased {ws : List String} {text : List Char} (h : Spells ws text)
    (hws : ∀ w ∈ ws, IsWord w) : Phrased ws text := by
  induction h with
  | @last w text ht => exact .last (map_fold (hws w (by simp)) ht)
  | @more w v ws text rest gap ht _ ih =>
    obtain ⟨hw, hrest⟩ := List.forall_mem_cons.1 hws
    exact .more (map_fold hw ht) gap.isGap (ih hrest)

end Spells

namespace Phrasebook

/-- The phrases of words in the English book, with what is written for them. -/
def wordings : List (List String × String) :=
  [(["is", "greater", "than", "or", "equal", "to"], ">="),
    (["is", "less", "than", "or", "equal", "to"], "<="),
    (["is", "greater", "than"], ">"),
    (["is", "less", "than"], "<"),
    (["is", "not", "equal", "to"], "!="),
    (["is", "equal", "to"], "=="),
    (["equals"], "=="),
    (["plus"], "+"),
    (["minus"], "-"),
    (["multiplied", "by"], "*"),
    (["times"], "*"),
    (["divided", "by"], "/"),
    (["modulo"], "%"),
    (["mod"], "%")]

theorem english_phrases : english.phrases =
    setPhrase :: wordings.map (fun r => .ofWords r.1 r.2) ++ [endPhrase] := rfl

def leaders : List String := ["set", "end"] ++ wordings.filterMap (·.1.head?)

theorem isWord_of_mem_wordings : ∀ r ∈ wordings, r.1 ≠ [] ∧ ∀ w ∈ r.1, IsWord w := by decide

theorem not_leader_of_mem_tail : ∀ r ∈ wordings, ∀ v ∈ r.1.tail, v ∉ leaders := by decide

theorem wordings_pairwise : wordings.Pairwise fun earlier later =>
    ¬earlier.1 <+: later.1 ∧
      (later.1 <+: earlier.1 → (earlier.1.drop later.1.length).head? = some "or") := by
  decide

end Phrasebook
end Parlance
