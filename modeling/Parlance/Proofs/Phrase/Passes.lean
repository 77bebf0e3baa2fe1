import Mathlib.Data.List.SplitBy
import Parlance.Proofs.Phrase.Repeated

/-! Rewording as passes, one after the other: the phrases, the cut into pieces, leaving out, replacing,
and one space for the gaps that have come together. Putting pieces together does the last three in one go
and remembers only whether a space was written last. -/

namespace Parlance
open Text

/-! The cut. -/

def Text.IsRun (p : Char → Bool) (cs : List Char) : Prop := cs ≠ [] ∧ ∀ c ∈ cs, p c = true

namespace Phrasebook

def IsPiece (cs : List Char) : Prop :=
  IsRun isBlank cs ∨ IsRun isWordChar cs ∨ ∃ c, cs = [c] ∧ isBlank c = false ∧ isWordChar c = false

/-- The pieces make up the text, and no two neighbours could be one. -/
structure IsCut (text : List Char) (ps : List (List Char)) : Prop where
  flatten : ps.flatten = text
  kinds : ∀ piece ∈ ps, IsPiece piece
  apart : ps.IsChain fun piece next =>
    ¬(IsRun isBlank piece ∧ IsRun isBlank next) ∧ ¬(IsRun isWordChar piece ∧ IsRun isWordChar next)

end Phrasebook

theorem Text.IsRun.head_any {p : Char → Bool} {cs : List Char} (h : IsRun p cs) :
    cs.head?.any p = true := by
  obtain ⟨c, cs, rfl⟩ := List.exists_cons_of_ne_nil h.1
  exact h.2 c List.mem_cons_self

theorem Text.IsRun.takeWhile {p : Char → Bool} {c : Char} (h : p c = true) (cs : List Char) :
    IsRun p (c :: cs.takeWhile p) :=
  ⟨List.cons_ne_nil _ _, List.forall_mem_cons.2 ⟨h, List.all_eq_true.1 List.all_takeWhile⟩⟩

theorem Throughout.after {P : Bool → List Char → Prop} {before after : List Char}
    (h : Throughout P false (before ++ after)) : Throughout P (before.getLast?.any isWordChar) after := by
  cases before with
  | nil => exact h
  | cons c before => exact h.drop (List.cons_ne_nil c before)

theorem splitBy_cons_cons {α : Type} {r : α → α → Bool} {a b : α} (h : r a b = true) (l : List α) :
    ∃ group groups, (b :: l).splitBy r = (b :: group) :: groups ∧
      (a :: b :: l).splitBy r = (a :: b :: group) :: groups := by
  cases hsplit : (b :: l).splitBy r with
  | nil => exact absurd (List.splitBy_eq_nil.1 hsplit) (List.cons_ne_nil b l)
  | cons first groups =>
    obtain ⟨hflatten, hnil, hchain, hnext⟩ := List.splitBy_eq_iff.1 hsplit
    cases first with
    | nil => exact absurd List.mem_cons_self hnil
    | cons b' group =>
      obtain ⟨rfl, hl⟩ := List.cons.inj hflatten
      refine ⟨group, groups, rfl, List.splitBy_eq_iff.2 ⟨?_, ?_, ?_, ?_⟩⟩
      · rw [hflatten]
        rfl
      · simpa using hnil
      · obtain ⟨hfirst, hgroups⟩ := List.forall_mem_cons.1 hchain
        exact List.forall_mem_cons.2 ⟨List.isChain_cons_cons.2 ⟨h, hfirst⟩, hgroups⟩
      · cases groups with
        | nil => exact List.isChain_singleton _
        | cons second groups =>
          obtain ⟨⟨hne, hne', hlast⟩, hrest⟩ := List.isChain_cons_cons.1 hnext
          refine List.isChain_cons_cons.2 ⟨⟨List.cons_ne_nil _ _, hne', ?_⟩, hrest⟩
          rwa [List.getLast_cons hne]

namespace Phrasebook

section Cut
variable {text piece : List Char} {ps : List (List Char)}

theorem IsPiece.ne_nil (h : IsPiece piece) : piece ≠ [] := by
  obtain h | h | ⟨c, rfl, -⟩ := h
  · exact h.1
  · exact h.1
  · exact List.cons_ne_nil c []

theorem IsPiece.isRun_isBlank (h : IsPiece piece) (hb : piece.head?.any isBlank = true) :
    IsRun isBlank piece := by
  obtain h | h | ⟨c, rfl, hc, -⟩ := h
  · exact h
  · obtain ⟨c, cs, rfl⟩ := List.exists_cons_of_ne_nil h.1
    exact absurd hb (Bool.eq_false_iff.1 (isBlank_of_isWordChar (h.2 c List.mem_cons_self)))
  · exact absurd hb (Bool.eq_false_iff.1 hc)

theorem IsPiece.isRun_isWordChar (h : IsPiece piece) (hw : piece.head?.any isWordChar = true) :
    IsRun isWordChar piece := by
  obtain h | h | ⟨c, rfl, -, hc⟩ := h
  · obtain ⟨c, cs, rfl⟩ := List.exists_cons_of_ne_nil h.1
    exact absurd hw (Bool.eq_false_iff.1 (isWordChar_of_isBlank (h.2 c List.mem_cons_self)))
  · exact h
  · exact absurd hw (Bool.eq_false_iff.1 hc)

theorem IsCut.tail (h : IsCut text (piece :: ps)) : IsCut ps.flatten ps :=
  ⟨rfl, fun q hq => h.kinds q (List.mem_cons_of_mem _ hq), h.apart.tail⟩

theorem IsCut.head?_eq (h : IsCut text (piece :: ps)) : text.head? = piece.head? := by
  obtain ⟨c, cs, rfl⟩ := List.exists_cons_of_ne_nil (h.kinds piece List.mem_cons_self).ne_nil
  rw [← h.flatten]
  rfl

theorem IsCut.next (h : IsCut text (piece :: ps)) :
    (IsRun isBlank piece → ps.flatten.head?.any isBlank = false) ∧
      (IsRun isWordChar piece → ps.flatten.head?.any isWordChar = false) := by
  cases ps with
  | nil => exact ⟨fun _ => rfl, fun _ => rfl⟩
  | cons next ps =>
    have hnext := h.kinds next (by simp)
    obtain ⟨hblank, hword⟩ := (List.isChain_cons_cons.1 h.apart).1
    rw [h.tail.head?_eq]
    refine ⟨fun hp => ?_, fun hp => ?_⟩
    · exact Bool.eq_false_iff.2 fun hb => hblank ⟨hp, hnext.isRun_isBlank hb⟩
    · exact Bool.eq_false_iff.2 fun hw => hword ⟨hp, hnext.isRun_isWordChar hw⟩

theorem IsCut.cons {rest : List Char} (hpiece : IsPiece piece) (h : IsCut rest ps)
    (hblank : IsRun isBlank piece → rest.head?.any isBlank = false)
    (hword : IsRun isWordChar piece → rest.head?.any isWordChar = false) :
    IsCut (piece ++ rest) (piece :: ps) := by
  refine ⟨by rw [List.flatten_cons, h.flatten], List.forall_mem_cons.2 ⟨hpiece, h.kinds⟩, ?_⟩
  cases ps with
  | nil => exact List.isChain_singleton piece
  | cons next ps =>
    rw [h.head?_eq] at hblank hword
    refine List.isChain_cons_cons.2 ⟨⟨fun hboth => ?_, fun hboth => ?_⟩, h.apart⟩
    · simp [hboth.2.head_any] at hblank
      exact hblank hboth.1
    · simp [hboth.2.head_any] at hword
      exact hword hboth.1

theorem isCut_pieces (text : List Char) : IsCut text (pieces text) := by
  induction text using pieces_induction with
  | nil => exact ⟨rfl, fun _ h => absurd h List.not_mem_nil, List.isChain_nil⟩
  | gap c cs hb ih =>
    have hrun := IsRun.takeWhile hb cs
    rw [pieces_of_joins joins_of_isBlank hb, cons_cut isBlank c cs]
    refine .cons (.inl hrun) ih (fun _ => head_any_dropWhile isBlank cs) fun hw => ?_
    have hc := isBlank_of_isWordChar (hw.2 c List.mem_cons_self)
    simp [hb] at hc
  | word c cs hw ih =>
    have hrun := IsRun.takeWhile hw cs
    rw [pieces_of_joins joins_of_isWordChar hw, cons_cut isWordChar c cs]
    refine .cons (.inr (.inl hrun)) ih (fun hb => ?_) fun _ => head_any_dropWhile isWordChar cs
    have hc := isWordChar_of_isBlank (hb.2 c List.mem_cons_self)
    simp [hw] at hc
  | mark c cs hw hb ih =>
    have hjoin : ∀ d ∈ cs.head?, joins c d = false := by simp [joins, hw, hb]
    rw [pieces_cons_of_not_joins hjoin]
    refine IsCut.cons (.inr (.inr ⟨c, rfl, hb, hw⟩)) ih (fun h => ?_) fun h => ?_
    · simp [h.2 c List.mem_cons_self] at hb
    · simp [h.2 c List.mem_cons_self] at hw

theorem IsCut.eq_pieces (h : IsCut text ps) : ps = pieces text := by
  induction ps generalizing text with
  | nil => rw [← h.flatten]; rfl
  | cons piece ps ih =>
    have hrest : ps = pieces ps.flatten := ih h.tail
    rw [← h.flatten, List.flatten_cons]
    obtain hp | hp | ⟨c, rfl, hb, hw⟩ := h.kinds piece List.mem_cons_self
    · rw [pieces_run joins_of_isBlank hp.1 hp.2 (h.next.1 hp), ← hrest]
    · rw [pieces_run joins_of_isWordChar hp.1 hp.2 (h.next.2 hp), ← hrest]
    · have hjoin : ∀ d ∈ ps.flatten.head?, joins c d = false := by simp [joins, hw, hb]
      rw [List.singleton_append, pieces_cons_of_not_joins hjoin, ← hrest]

end Cut

/-! The passes over the pieces. -/

/-- What a piece has become: a gap, or text that is not looked at again. -/
inductive Slot where
  | gap
  | text (cs : List Char)

namespace Slot

def isGap : Slot → Bool
  | gap => true
  | text _ => false

def ofPiece (piece : List Char) : Slot := if piece.all isBlank then gap else text piece

def write : Slot → List Char
  | gap => [' ']
  | text cs => cs

/-- One gap for each maximal sequence of gaps. -/
def collapse (slots : List Slot) : List Slot :=
  (slots.splitBy fun a b => a.isGap && b.isGap).flatMap (List.take 1)

def writeAll (slots : List Slot) : List Char := (collapse slots).flatMap write

end Slot

section Passes
variable (book : Phrasebook) (admits : List Char → Bool)

def leaveOut (ps : List (List Char)) : List (List Char) :=
  ps.filter fun piece => !(admits piece && book.removables.contains (String.ofList (lower piece)))

def replace (piece : List Char) : Slot :=
  if admits piece then
    ((book.replacements.get? (String.ofList (lower piece))).map fun r => Slot.text r.toList).getD
      (.ofPiece piece)
  else .ofPiece piece

def passes (ps : List (List Char)) : List Char :=
  Slot.writeAll ((book.leaveOut admits ps).map (book.replace admits))

end Passes

def isSolid (piece : List Char) : Bool := !piece.all isBlank

namespace Slot

theorem collapse_cons {slot : Slot} {slots : List Slot}
    (h : ∀ next ∈ slots.head?, (slot.isGap && next.isGap) = false) :
    collapse (slot :: slots) = slot :: collapse slots := by
  have hsplit := List.splitBy_append (r := fun a b : Slot => a.isGap && b.isGap) (l := [slot])
    (m := slots) (by simpa using h)
  rw [List.singleton_append] at hsplit
  rw [collapse, hsplit]
  rfl

theorem collapse_gap_gap (slots : List Slot) : collapse (gap :: gap :: slots) = collapse (gap :: slots) := by
  have hjoin : (gap.isGap && gap.isGap) = true := rfl
  obtain ⟨group, groups, hone, htwo⟩ :=
    splitBy_cons_cons (r := fun a b : Slot => a.isGap && b.isGap) hjoin slots
  rw [collapse, collapse, hone, htwo]
  rfl

theorem writeAll_text_cons (cs : List Char) (slots : List Slot) :
    writeAll (text cs :: slots) = cs ++ writeAll slots := by
  rw [writeAll, collapse_cons fun _ _ => rfl]
  rfl

theorem writeAll_gap_text_cons (cs : List Char) (slots : List Slot) :
    writeAll (gap :: text cs :: slots) = ' ' :: writeAll (text cs :: slots) := by
  rw [writeAll, collapse_cons (by simp [isGap])]
  rfl

theorem writeAll_gap_gap_cons (slots : List Slot) :
    writeAll (gap :: gap :: slots) = writeAll (gap :: slots) := by
  rw [writeAll, writeAll, collapse_gap_gap]

end Slot

section Fusion
variable (book : Phrasebook)

def slots (ps : List (List Char)) : List Slot :=
  (book.leaveOut isSolid ps).map (book.replace isSolid)

theorem slots_cons (piece : List Char) (ps : List (List Char)) : book.slots (piece :: ps) =
    if isSolid piece && book.removables.contains (String.ofList (lower piece)) then book.slots ps
    else book.replace isSolid piece :: book.slots ps := by
  rw [slots, leaveOut, List.filter_cons]
  cases isSolid piece && book.removables.contains (String.ofList (lower piece)) <;> rfl

theorem slots_cons_of_blank {piece : List Char} (h : piece.all isBlank = true) (ps : List (List Char)) :
    book.slots (piece :: ps) = .gap :: book.slots ps := by
  simp [slots_cons, isSolid, replace, Slot.ofPiece, h]

theorem exists_text_of_solid {piece : List Char} (hb : piece.all isBlank = false)
    (hout : book.removables.contains (String.ofList (lower piece)) = false) (ps : List (List Char)) :
    ∃ cs, book.slots (piece :: ps) = .text cs :: book.slots ps ∧
      ∀ spaced, merge book spaced (piece :: ps) = cs ++ merge book false ps := by
  have hsolid : isSolid piece = true := by simp [isSolid, hb]
  rw [slots_cons, hsolid, hout]
  cases hnew : book.replacements.get? (String.ofList (lower piece)) with
  | some new =>
    refine ⟨new.toList, ?_, fun spaced => ?_⟩
    · simp [replace, hsolid, hnew]
    · simp only [merge, hb, hout, hnew, Bool.false_eq_true, if_false]
  | none =>
    refine ⟨piece, ?_, fun spaced => ?_⟩
    · simp [replace, hsolid, hnew, Slot.ofPiece, hb]
    · simp only [merge, hb, hout, hnew, Bool.false_eq_true, if_false]

/-- Putting pieces together is all passes in one. A space that was written last stands for a gap before
the pieces that are left. -/
theorem merge_eq_writeAll (ps : List (List Char)) :
    merge book false ps = Slot.writeAll (book.slots ps) ∧
      ' ' :: merge book true ps = Slot.writeAll (.gap :: book.slots ps) := by
  induction ps with
  | nil => exact ⟨rfl, rfl⟩
  | cons piece ps ih =>
    obtain ⟨hplain, hspaced⟩ := ih
    cases hb : piece.all isBlank with
    | true =>
      -- after a gap, another one adds nothing
      rw [book.slots_cons_of_blank hb, Slot.writeAll_gap_gap_cons, ← hspaced]
      simp [merge, hb]
    | false =>
      cases hout : book.removables.contains (String.ofList (lower piece)) with
      | true =>
        have hsolid : isSolid piece = true := by simp [isSolid, hb]
        rw [slots_cons, hsolid, hout, Bool.and_self, if_pos rfl, ← hplain, ← hspaced]
        simp only [merge, hb, hout, Bool.false_eq_true, if_false, if_true, and_self]
      | false =>
        obtain ⟨cs, hslots, hmerge⟩ := book.exists_text_of_solid hb hout ps
        rw [hslots, hmerge, hmerge, Slot.writeAll_gap_text_cons, Slot.writeAll_text_cons, hplain]
        exact ⟨rfl, rfl⟩

theorem rewordBy_eq_passes (rules : List (List Char → List Char)) {code : List Char} (hcode : code ≠ [])
    {ps : List (List Char)} (h : IsCut (rules.foldl (fun text rule => rule text) code) ps) :
    book.rewordBy rules code = book.passes isSolid ps := by
  rw [rewordBy, if_neg (by simpa using hcode), ← h.eq_pieces, (book.merge_eq_writeAll ps).1]
  rfl

end Fusion

/-! What the English book leaves. -/

section English
variable {code before after : List Char}

theorem space_of_isBlank {c : Char} (h : english.reword code = before ++ c :: after) (hb : isBlank c = true) :
    c = ' ' ∧ after.head?.any isBlank = false := by
  have hsingle := (neat_reword code).single
  rw [h] at hsingle
  obtain ⟨hc, hafter⟩ := hsingle.after.1 hb
  exact ⟨Option.some.inj hc, hafter⟩

theorem not_removable_of_whole {word : List Char} (h : english.reword code = before ++ word ++ after)
    (hbefore : before.getLast?.any isWordChar = false) (hafter : after.head?.any isWordChar = false) :
    String.ofList (lower word) ∉ english.removables := by
  intro hout
  have hsmall : ∀ w ∈ english.removables, Pattern.IsWord w ∧ ∀ c ∈ w.toList, c.isLower = true := by decide
  -- only letters become small letters, so the word goes as far as the letters do
  obtain ⟨hword, hlower⟩ := hsmall _ hout
  rw [String.toList_ofList] at hlower
  have hfold : word.map fold = (String.ofList (lower word)).toList := by
    rw [String.toList_ofList]
    exact map_fold_of_lowerFrom hlower
  obtain ⟨c, cs, rfl⟩ := List.exists_cons_of_ne_nil (hword.ne_nil hfold)
  have hkept := (neat_reword code).kept
  rw [h, List.append_assoc] at hkept
  have hkeeps : english.Keeps ((c :: cs ++ after).takeWhile isWordChar) := hkept.after.1 hbefore
  rw [takeWhile_append_stop (hword.isWordChar hfold) hafter] at hkeeps
  exact hkeeps.1 hout

end English

/-- Rewording a stretch of code that is not empty is the passes one after the other, with the rules as any
functions of texts: the rules in their order, the only cut into pieces there is, leaving out removable
pieces that are no gaps, replacing such pieces, and one space for gaps that stand together. Nothing is
made of an empty stretch. So after the English book there are only single spaces, and no word that it
leaves out. -/
theorem reword_runs_passes (book : Phrasebook) (rules : List (List Char → List Char)) (code : List Char) :
    (∀ text, ∃! ps, IsCut text ps) ∧
    book.reword = book.rewordBy (book.phrases.map Phrase.apply) ∧
    book.rewordBy rules [] = [] ∧
    (code ≠ [] → ∀ ps, IsCut (rules.foldl (fun text rule => rule text) code) ps →
      book.rewordBy rules code = book.passes isSolid ps) ∧
    (∀ c ∈ english.reword code, isBlank c = true → c = ' ') ∧
    ¬[' ', ' '] <:+: english.reword code ∧
    ∀ before word after, english.reword code = before ++ word ++ after →
      before.getLast?.any isWordChar = false → after.head?.any isWordChar = false →
      String.ofList (lower word) ≠ "then" ∧ String.ofList (lower word) ≠ "end" := by
  refine ⟨fun text => ⟨pieces text, isCut_pieces text, fun ps h => h.eq_pieces⟩, book.reword_eq_rewordBy,
    rfl, fun hcode ps h => book.rewordBy_eq_passes rules hcode h, fun c hc hb => ?_, ?_, ?_⟩
  · obtain ⟨before, after, h⟩ := List.append_of_mem hc
    exact (space_of_isBlank h hb).1
  · rintro ⟨before, after, h⟩
    have hspaces : english.reword code = before ++ ' ' :: (' ' :: after) := by
      rw [← h, List.append_assoc]
      rfl
    have hblank : isBlank ' ' = true := by decide
    have hnext := (space_of_isBlank hspaces hblank).2
    simp [hblank] at hnext
  · intro before word after h hbefore hafter
    have hout := not_removable_of_whole h hbefore hafter
    exact ⟨fun he => hout (by rw [he]; decide), fun he => hout (by rw [he]; decide)⟩

/-- The gaps around a word that is left out become one, those around a replaced word do not, and the
replacement is not looked at. -/
theorem reword_runs_passes_mixed :
    let book := ((empty.addRemovable "Then").addReplacement "x" "THEN ").addReplacement "then" "y"
    let ps := ["a", " ", "then", "\t", "X", " ", "b"].map String.toList
    IsCut "a then\tX b".toList ps ∧ book.passes isSolid ps = "a THEN  b".toList ∧
      book.reword "a then\tX b".toList = "a THEN  b".toList := by
  intro book ps
  have hcut : IsCut "a then\tX b".toList ps := by
    have hpieces : ps = pieces "a then\tX b".toList := by decide
    rw [hpieces]
    exact isCut_pieces _
  have hpasses : book.passes isSolid ps = "a THEN  b".toList := by decide
  refine ⟨hcut, hpasses, ?_⟩
  obtain ⟨-, hreword, -, hrun, -⟩ := reword_runs_passes book [] "a then\tX b".toList
  rw [hreword, ← hpasses]
  exact hrun (by decide) ps hcut

/-- With gaps admitted to leaving out and replacing, or with an empty stretch of code, the passes would
give something else: a gap is never taken for a word, and no rule is applied where there is no code. -/
theorem reword_differs_from_all_admitted :
    let all : List Char → Bool := fun _ => true
    let removing := empty.addRemovable " "
    let replacing := empty.addReplacement " " "_"
    removing.reword "a b".toList = "a b".toList ∧
      removing.passes all (pieces "a b".toList) = "ab".toList ∧
    replacing.reword "a b".toList = "a b".toList ∧
      replacing.passes all (pieces "a b".toList) = "a_b".toList ∧
    ∃ phrase, Phrase.ofText? "" "x" = some phrase ∧ (empty.addPhrase phrase).reword [] = [] ∧
      (empty.addPhrase phrase).passes all (pieces (phrase.apply [])) = ['x'] := by
  intro all removing replacing
  exact ⟨by decide, by decide, by decide, by decide, _, rfl, rfl, by decide⟩

end Phrasebook
end Parlance
