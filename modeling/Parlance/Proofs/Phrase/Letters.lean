import Parlance.Phrase.Reword

/-! Which characters rewording can write: those of the code, a space, and those of the book's own
replacement texts. -/

namespace Parlance

namespace Pattern
variable {P : Char → Prop}

section Invariant
variable {I : Spot → Prop}

theorem note_invariant {s : Spot} {found : List Spot} (hs : I s) (hf : ∀ t ∈ found, I t) :
    ∀ t ∈ note s found, I t := by
  unfold note
  split
  · exact hf
  · simpa using ⟨hs, hf⟩

theorem foldl_invariant {spots : List Spot} {add : List Spot → Spot → List Spot}
    (hadd : ∀ found t, I t → (∀ u ∈ found, I u) → ∀ u ∈ add found t, I u)
    (hs : ∀ t ∈ spots, I t) {found : List Spot} (hf : ∀ t ∈ found, I t) :
    ∀ t ∈ spots.foldl add found, I t := by
  induction spots generalizing found with
  | nil => exact hf
  | cons s spots ih =>
    have hs' := List.forall_mem_cons.1 hs
    exact ih hs'.2 (hadd found s hs'.1 hf)

variable {step : Spot → List Spot} (hstep : ∀ s, I s → ∀ t ∈ step s, I t)
include hstep

theorem explore_invariant (greedy : Bool) (n : Nat) {s : Spot} {found : List Spot} (hs : I s)
    (hf : ∀ t ∈ found, I t) : ∀ t ∈ explore step greedy n s found, I t := by
  induction n generalizing s found with
  | zero => exact note_invariant hs hf
  | succ n ih =>
    have honward (found : List Spot) (hf : ∀ t ∈ found, I t) :
        ∀ t ∈ (step s).foldl (fun found t => if s.position < t.position then
          explore step greedy n t found else found) found, I t := by
      refine foldl_invariant (fun found t ht hf => ?_) (hstep s hs) hf
      split
      · exact ih ht hf
      · exact hf
    simp only [explore]
    split
    · exact hf
    · split
      · exact List.forall_mem_cons.2 ⟨hs, honward found hf⟩
      · exact honward (s :: found) (List.forall_mem_cons.2 ⟨hs, hf⟩)

theorem repeatedly_invariant (greedy : Bool) {s : Spot} (hs : I s) :
    ∀ t ∈ repeatedly step greedy s, I t := by
  intro t ht
  simp only [repeatedly, List.mem_reverse] at ht
  refine foldl_invariant (fun found t ht hf => ?_) (hstep s hs) (by simp) t ht
  split
  · exact explore_invariant hstep greedy _ ht hf
  · exact note_invariant ht hf

end Invariant

def Spot.Within (P : Char → Prop) (s : Spot) : Prop :=
  (∀ c ∈ s.rest, P c) ∧ ∀ g ∈ s.groups, ∀ c ∈ g.2, P c

theorem ends_within (p : Pattern) {s : Spot} (h : s.Within P) : ∀ t ∈ ends p s, t.Within P := by
  induction p generalizing s with
  | empty =>
    intro t ht
    rw [ends, List.mem_singleton] at ht
    exact ht ▸ h
  | char test =>
    intro t ht
    simp only [ends] at ht
    split at ht
    · cases ht
    · next c rest hr =>
      split at ht
      · rw [List.mem_singleton] at ht
        rw [Spot.Within, hr] at h
        exact ht ▸ ⟨fun d hd => h.1 d (List.mem_cons_of_mem c hd), h.2⟩
      · cases ht
  | place test =>
    intro t ht
    simp only [ends] at ht
    split at ht
    · rw [List.mem_singleton] at ht
      exact ht ▸ h
    · cases ht
  | seq first second hfirst hsecond =>
    intro t ht
    obtain ⟨u, hu, ht⟩ := List.mem_flatMap.1 ht
    exact hsecond (hfirst h u hu) t ht
  | alt preferred other hpreferred hother =>
    intro t ht
    rcases List.mem_append.1 ht with ht | ht
    · exact hpreferred h t ht
    · exact hother h t ht
  | opt body greedy hbody =>
    intro t ht
    have hcases : t ∈ ends body s ∨ t = s := by
      cases greedy <;> simpa [ends, or_comm] using ht
    rcases hcases with ht | rfl
    · exact hbody h t ht
    · exact h
  | plus body greedy hbody => exact repeatedly_invariant (fun _ hs => hbody hs) greedy h
  | group index body hbody =>
    intro t ht
    obtain ⟨u, hu, rfl⟩ := List.mem_map.1 ht
    have hw := hbody h u hu
    refine ⟨hw.1, fun g hg => ?_⟩
    rcases List.mem_cons.1 hg with rfl | hg
    · exact fun c hc => h.1 c (List.mem_of_mem_take hc)
    · exact hw.2 g hg

def KeepsLetters (P : Char → Prop) (replacement : Spot → Spot → List Char) : Prop :=
  ∀ s t, s.Within P → t.Within P → ∀ c ∈ replacement s t, P c

theorem written_letters {p : Pattern} {replacement : Spot → Spot → List Char}
    (hr : KeepsLetters P replacement) {s : Spot} (hs : s.Within P) (counts : Spot → Bool) :
    ∀ c ∈ (((matchAt p s).filter counts).map (replacement s)).getD [], P c := by
  intro c hc
  cases hf : (matchAt p s).filter counts with
  | none => simp [hf] at hc
  | some t =>
    have ht : t ∈ ends p s := List.mem_of_head? (Option.filter_eq_some_iff.1 hf).1
    simp only [hf, Option.map_some, Option.getD_some] at hc
    exact hr s t hs (ends_within p hs t ht) c hc

theorem replaceFrom_letters {p : Pattern} {replacement : Spot → Spot → List Char}
    (hr : KeepsLetters P replacement) {cs : List Char} (h : ∀ c ∈ cs, P c) (skip : Nat)
    (touched : Bool) (position : Nat) (previous : Option Char) :
    ∀ c ∈ replaceFrom p replacement skip touched position previous cs, P c := by
  have hwritten (counts : Spot → Bool) := written_letters hr
    (s := { position, previous, rest := cs }) ⟨h, by simp⟩ (p := p) counts
  induction cs generalizing skip touched position previous with
  | nil =>
    cases skip with
    | zero => exact hwritten _
    | succ skip => simp [replaceFrom]
  | cons d cs ih =>
    have h' := List.forall_mem_cons.1 h
    have hrest (skip : Nat) (touched : Bool) :=
      ih h'.2 skip touched (position + 1) (some d) fun counts => written_letters hr ⟨h'.2, by simp⟩ counts
    cases skip with
    | succ skip =>
      rw [replaceFrom]
      exact hrest skip true
    | zero =>
      intro c hc
      simp only [replaceFrom] at hc
      split at hc
      · rcases List.mem_append.1 hc with hc | hc
        · exact hwritten _ c hc
        · rcases List.mem_cons.1 hc with rfl | hc
          · exact h'.1
          · exact hrest _ _ c hc
      · rcases List.mem_append.1 hc with hc | hc
        · exact hwritten _ c hc
        · exact hrest _ _ c hc

def TemplatePart.Letters (P : Char → Prop) : TemplatePart → Prop
  | .char c => P c
  | .group _ => True

instance [DecidablePred P] : DecidablePred (TemplatePart.Letters P)
  | .char c => inferInstanceAs (Decidable (P c))
  | .group _ => inferInstanceAs (Decidable True)

theorem groupText_letters {s t : Spot} (hs : s.Within P) (ht : t.Within P)
    (names : List (String × Nat)) (name : List Char) : ∀ c ∈ groupText names s t name, P c := by
  intro c hc
  unfold groupText at hc
  split at hc
  · exact hs.1 c (List.mem_of_mem_take hc)
  · next n _ _ =>
    cases hg : t.group? n with
    | none => simp [hg] at hc
    | some text =>
      rw [hg, Option.getD_some] at hc
      obtain ⟨before, after, hl, -⟩ := List.lookup_eq_some_iff.1 hg
      exact ht.2 (n, text) (by simp [hl]) c hc
  · cases hc

theorem keepsLetters_expand {parts : List TemplatePart} (h : ∀ part ∈ parts, part.Letters P)
    (names : List (String × Nat)) : KeepsLetters P (expand names parts) := by
  intro s t hs ht c hc
  obtain ⟨part, hp, hc⟩ := List.mem_flatMap.1 hc
  cases part with
  | char d =>
    rw [List.mem_singleton] at hc
    exact hc ▸ h _ hp
  | group name => exact groupText_letters hs ht names name c hc

end Pattern

namespace Phrasebook
variable {P : Char → Prop}

structure Letters (P : Char → Prop) (book : Phrasebook) : Prop where
  space : P ' '
  phrases : ∀ phrase ∈ book.phrases, ∀ part ∈ phrase.replacement, part.Letters P
  replacements : ∀ word text, book.replacements.get? word = some text → ∀ c ∈ text.toList, P c

theorem Letters.merge {book : Phrasebook} (h : book.Letters P) {pieces : List (List Char)}
    (hp : ∀ piece ∈ pieces, ∀ c ∈ piece, P c) (spaced : Bool) :
    ∀ c ∈ book.merge spaced pieces, P c := by
  induction pieces generalizing spaced with
  | nil => simp [Phrasebook.merge]
  | cons piece pieces ih =>
    have hp' := List.forall_mem_cons.1 hp
    have hrest := ih hp'.2
    simp only [Phrasebook.merge]
    split
    · split
      · exact hrest spaced
      · exact List.forall_mem_cons.2 ⟨h.space, hrest true⟩
    · split
      · exact hrest spaced
      · split
        · next text ht =>
          exact List.forall_mem_append.2 ⟨h.replacements _ text ht, hrest false⟩
        · exact List.forall_mem_append.2 ⟨hp'.1, hrest false⟩

theorem Letters.foldl {phrases : List Phrase}
    (h : ∀ phrase ∈ phrases, ∀ part ∈ phrase.replacement, part.Letters P) {code : List Char}
    (hc : ∀ c ∈ code, P c) :
    ∀ c ∈ phrases.foldl (fun text phrase => phrase.apply text) code, P c := by
  induction phrases generalizing code with
  | nil => exact hc
  | cons phrase phrases ih =>
    have h' := List.forall_mem_cons.1 h
    refine ih h'.2 ?_
    exact Pattern.replaceFrom_letters (Pattern.keepsLetters_expand h'.1 _) hc _ _ _ _

theorem Letters.reword {book : Phrasebook} (h : book.Letters P) {code : List Char}
    (hc : ∀ c ∈ code, P c) : ∀ c ∈ book.reword code, P c := by
  unfold Phrasebook.reword
  split
  · simp
  · refine h.merge (fun piece hp c hcp => ?_) false
    have hm := List.mem_flatten.2 ⟨piece, hp, hcp⟩
    rw [flatten_pieces] at hm
    exact Letters.foldl h.phrases hc c hm

end Phrasebook
end Parlance
