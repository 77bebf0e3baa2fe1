import Parlance.Proofs.Phrase.Repeated

/-! Dotted paths in code. A dot stands apart from words, so each segment of a path is a word of its own
for the rules, and nothing joins it to the next. A path is therefore left as it is exactly if none of its
segments is a phrase by itself or a word that is left out. -/

namespace Parlance
open Text Pattern Phrasebook

/-- The words that rewording takes away wherever they stand. -/
def lostWords : List String := ["then", "end", "equals", "plus", "minus", "times", "modulo", "mod"]

theorem mem_lostWords_of_mem_wordings : ∀ r ∈ wordings, ∀ w, r.1 = [w] → w ∈ lostWords := by
  have hsingle : ∀ r ∈ wordings, r.1.length = 1 → ∀ w ∈ r.1, w ∈ lostWords := by decide
  intro r hr w he
  exact hsingle r hr (by rw [he]; rfl) w (by rw [he]; exact List.mem_cons_self)

theorem cases_of_mem_lostWords : ∀ w ∈ lostWords,
    w ∈ english.removables ∨ ∃ r ∈ wordings, r.1 = [w] := by decide

theorem mem_lostWords_of_removable : ∀ w ∈ english.removables, w ∈ lostWords := by decide

/-- A name between dots: a letter or `_`, then letters, digits and `_`. -/
structure MemberPath.Segment where
  text : List Char
  nonempty : text ≠ []
  chars : ∀ c ∈ text, isNameChar c = true
  start : ∀ c ∈ text.head?, c.isDigit = false

namespace MemberPath.Segment

def name (s : Segment) : String := String.ofList s.text

def key (s : Segment) : String := String.ofList (s.text.map Char.toLower)

theorem isWordChar (s : Segment) : ∀ c ∈ s.text, Text.isWordChar c = true :=
  fun c hc => isWordChar_of_isNameChar (s.chars c hc)

theorem lower_eq (s : Segment) : String.ofList (lower s.text) = s.key := by
  rw [lower, lowerFrom_of_isNameChar s.chars, key]

theorem fold_eq_iff (s : Segment) (w : String) : s.text.map fold = w.toList ↔ s.key = w := by
  rw [map_fold_of_isNameChar s.chars, key, ← String.toList_inj, String.toList_ofList]

end MemberPath.Segment

structure MemberPath where
  root : MemberPath.Segment
  members : List MemberPath.Segment

namespace MemberPath

def segments (p : MemberPath) : List Segment := p.root :: p.members

def text (p : MemberPath) : List Char := p.root.text ++ p.members.flatMap fun s => '.' :: s.text

def source (p : MemberPath) : String := String.ofList p.text

def names (p : MemberPath) : List String := p.segments.map Segment.name

def Survives (p : MemberPath) : Prop := ∀ s ∈ p.segments, s.key ∉ lostWords

instance : DecidablePred Survives := fun p =>
  inferInstanceAs (Decidable (∀ s ∈ p.segments, s.key ∉ lostWords))

end MemberPath

/-! Where a phrase ends. -/

/-- Whatever phrase came before, it does not go on here. -/
def Apart (rest : List Char) : Prop :=
  rest.head?.any isWordChar = false ∧ ∀ gap c more, rest = gap ++ c :: more → IsGap gap →
    isWordChar c = false ∧ nameStart.accepts c = false

theorem apart_of_not_isBlank {rest : List Char} (hw : rest.head?.any isWordChar = false)
    (hb : rest.head?.any isBlank = false) : Apart rest := by
  refine ⟨hw, fun gap c more he hgap => ?_⟩
  rw [he, hgap.head_any_isBlank] at hb
  cases hb

theorem apart_nil : Apart [] := apart_of_not_isBlank rfl rfl

theorem apart_equals (cs : List Char) : Apart (' ' :: '=' :: cs) := by
  obtain ⟨hword, hblank, hname, -⟩ := table_of_mem_signs '=' (by decide)
  refine ⟨rfl, fun gap c more he hgap => ?_⟩
  obtain ⟨b, gap, rfl⟩ := List.exists_cons_of_ne_nil hgap.1
  obtain ⟨-, he⟩ := List.cons.inj he
  cases gap with
  | nil =>
    obtain ⟨rfl, -⟩ := List.cons.inj he
    exact ⟨hword, hname⟩
  | cons d gap =>
    obtain ⟨rfl, -⟩ := List.cons.inj he
    have hd : isBlank '=' = true := hgap.2 '=' (by simp)
    rw [hblank] at hd
    cases hd

theorem Phrased.not_apart {w v : String} {ws : List String} (hws : ∀ u ∈ w :: v :: ws, IsWord u)
    {text after : List Char} (h : Phrased (w :: v :: ws) text) {word rest : List Char}
    (hword : ∀ c ∈ word, isWordChar c = true) (hrest : Apart rest) : text ++ after ≠ word ++ rest := by
  intro he
  cases h with
  | @more _ _ _ word' gap others hword' hgap hothers =>
    obtain ⟨hw, hvs⟩ := List.forall_mem_cons.1 hws
    rw [List.append_assoc, List.append_assoc] at he
    obtain ⟨-, hgaps⟩ := run_append_inj (hw.isWordChar hword') (hgap.head_any_isWordChar _) hword hrest.1 he
    obtain ⟨c, hc, hchar⟩ := (Option.any_eq_true _ _).1 (hothers.head_isWordChar (hvs v List.mem_cons_self))
    obtain ⟨more, hmore⟩ := List.head?_eq_some_iff.1 hc
    rw [hmore] at hgaps
    have hstop := (hrest.2 gap c (more ++ after) hgaps.symm hgap).1
    rw [hchar] at hstop
    cases hstop

theorem Rule.Stands.exists_wording {rule : Rule} {word rest : List Char}
    (h : rule.Stands false (word ++ rest)) (hword : ∀ c ∈ word, isWordChar c = true) (hrest : Apart rest) :
    ∃ r ∈ wordings, ∃ w, r.1 = [w] ∧ word.map fold = w.toList := by
  obtain ⟨-, taken, new, after, he, hswaps, hafter⟩ := h
  cases hswaps with
  | @setting word' gap name gap' word'' hset hgap hname _ _ =>
    have hletters : IsWord "set" := by decide
    simp only [List.append_assoc] at he
    obtain ⟨-, hgaps⟩ := run_append_inj hword hrest.1 (hletters.isWordChar hset) (hgap.head_any_isWordChar _) he
    obtain ⟨c, cs, rfl, hc, -⟩ := hname
    have hstop := (hrest.2 gap c _ hgaps hgap).2
    rw [hc] at hstop
    cases hstop
  | @wording r _ hr hphrased =>
    refine ⟨r, hr, ?_⟩
    have hwords := (isWord_of_mem_wordings r hr).2
    generalize r.1 = ws at hphrased hwords
    cases hphrased with
    | @last w _ hw =>
      have hletters := (hwords w List.mem_cons_self).isWordChar hw
      obtain ⟨rfl, -⟩ := run_append_inj hword hrest.1 hletters hafter he
      exact ⟨w, rfl, hw⟩
    | more hw hgap hothers => exact absurd he.symm ((Phrased.more hw hgap hothers).not_apart hwords hword hrest)
  | @ending w _ hw hphrased =>
    exact absurd he.symm (hphrased.not_apart (Rule.isWord_of_mem_closed w hw) hword hrest)

/-! Places in a path. -/

namespace MemberPath

theorem text_cons (root s : Segment) (ms : List Segment) :
    text ⟨root, s :: ms⟩ = root.text ++ '.' :: text ⟨s, ms⟩ := rfl

theorem chars (p : MemberPath) : ∀ c ∈ p.text, isNameChar c = true ∨ c = '.' := by
  intro c hc
  rcases List.mem_append.1 hc with hc | hc
  · exact .inl (p.root.chars c hc)
  · obtain ⟨s, -, hc⟩ := List.mem_flatMap.1 hc
    rcases List.mem_cons.1 hc with rfl | hc
    · exact .inr rfl
    · exact .inl (s.chars c hc)

theorem inLine (p : MemberPath) : ∀ c ∈ p.text, Source.InLine c := by
  intro c hc
  rcases p.chars c hc with hc | rfl
  · exact Wording.inLine_of_isNameChar hc
  · decide

theorem isBlank_eq_false (p : MemberPath) : ∀ c ∈ p.text, isBlank c = false := by
  intro c hc
  rcases p.chars c hc with hc | rfl
  · exact isBlank_of_isWordChar (isWordChar_of_isNameChar hc)
  · decide

theorem text_ne_nil (p : MemberPath) : p.text ≠ [] := List.append_ne_nil_of_left_ne_nil p.root.nonempty _

theorem throughout {P : Bool → List Char → Prop} (hword : ∀ c cs, isWordChar c = true → P true (c :: cs))
    (hdot : ∀ inside cs, P inside ('.' :: cs)) {p : MemberPath} {rest : List Char}
    (hsegment : ∀ s ∈ p.segments, ∀ rest, Apart rest → P false (s.text ++ rest)) (hrest : Apart rest)
    (h : Throughout P true rest) : Throughout P false (p.text ++ rest) := by
  have hsolid (s : Segment) {more : List Char} (hbegin : P false (s.text ++ more))
      (hmore : Throughout P true more) : Throughout P false (s.text ++ more) := by
    obtain ⟨c, cs, he⟩ := List.exists_cons_of_ne_nil s.nonempty
    have hchars := he ▸ s.isWordChar
    rw [he] at hbegin ⊢
    obtain ⟨hc, hcs⟩ := List.forall_mem_cons.1 hchars
    exact ⟨hbegin, hc ▸ throughout_inside hword hcs hmore⟩
  obtain ⟨root, members⟩ := p
  induction members generalizing root with
  | nil =>
    obtain ⟨hroot, -⟩ := List.forall_mem_cons.1 hsegment
    rw [show text ⟨root, []⟩ = root.text from List.append_nil _]
    exact hsolid root (hroot rest hrest) h
  | cons s members ih =>
    obtain ⟨hroot, hmembers⟩ := List.forall_mem_cons.1 hsegment
    have hmore := ih s hmembers
    rw [text_cons, List.append_assoc]
    exact hsolid root (hroot _ (apart_of_not_isBlank rfl rfl)) ⟨hdot true _, hmore⟩

theorem exists_of_throughout {P : Bool → List Char → Prop} {p : MemberPath} (h : Throughout P false p.text)
    {s : Segment} (hs : s ∈ p.segments) :
    ∃ rest, rest.head?.any isWordChar = false ∧ P false (s.text ++ rest) := by
  have hbegin (s : Segment) {more : List Char} (hmore : Throughout P false (s.text ++ more)) :
      P false (s.text ++ more) := by
    obtain ⟨c, cs, he⟩ := List.exists_cons_of_ne_nil s.nonempty
    rw [he] at hmore ⊢
    exact hmore.1
  obtain ⟨root, members⟩ := p
  induction members generalizing root with
  | nil =>
    obtain rfl := List.mem_singleton.1 hs
    exact ⟨[], rfl, hbegin s h⟩
  | cons t members ih =>
    rw [text_cons] at h
    rcases List.mem_cons.1 hs with rfl | hs
    · exact ⟨_, rfl, hbegin s h⟩
    · exact ih t (h.drop root.nonempty).2 hs

/-! Rewording. -/

theorem throughout_kept {p : MemberPath} (hp : p.Survives) {rest : List Char} (hrest : Apart rest)
    (h : Throughout Kept true rest) : Throughout Kept false (p.text ++ rest) := by
  refine throughout (fun _ _ _ => kept_inside _) (fun _ _ => kept_of_head rfl)
    (fun s hs more hmore _ => ?_) hrest h
  rw [takeWhile_append_stop s.isWordChar hmore.1]
  refine english_keeps fun hremovable => hp s hs ?_
  rw [s.lower_eq] at hremovable
  exact mem_lostWords_of_removable _ hremovable

theorem throughout_single (p : MemberPath) {rest : List Char} (hrest : Apart rest)
    (h : Throughout Single true rest) : Throughout Single false (p.text ++ rest) := by
  refine throughout (fun c _ hc => single_of_head (isBlank_of_isWordChar hc))
    (fun _ _ => single_of_head rfl) (fun s _ more _ => single_of_head ?_) hrest h
  obtain ⟨c, cs, he⟩ := List.exists_cons_of_ne_nil s.nonempty
  have hc := s.isWordChar c (he ▸ List.mem_cons_self)
  rw [he]
  exact isBlank_of_isWordChar hc

theorem clear {p : MemberPath} (hp : p.Survives) {rule : Rule} {rest : List Char} (hrest : Apart rest)
    (h : rule.Clear true rest) : rule.Clear false (p.text ++ rest) := by
  refine throughout (fun _ _ _ hstands => ?_) (fun inside _ => Rule.not_stands_of_head rfl rule inside)
    (fun s hs more hmore hstands => ?_) hrest h
  · cases hstands.1
  · obtain ⟨r, hr, w, he, hw⟩ := hstands.exists_wording s.isWordChar hmore
    refine hp s hs ?_
    rw [(s.fold_eq_iff w).1 hw]
    exact mem_lostWords_of_mem_wordings r hr w he

theorem reword_append {p : MemberPath} (hp : p.Survives) {rest : List Char} (hrest : Apart rest)
    (hneat : Neat true rest) (hclear : ∀ rule ∈ rules, rule.Clear true rest) :
    english.reword (p.text ++ rest) = p.text ++ rest :=
  reword_eq_self ⟨throughout_kept hp hrest hneat.kept, p.throughout_single hrest hneat.single⟩
    fun rule hrule => clear hp hrest (hclear rule hrule)

theorem reword_eq_self_iff (p : MemberPath) : english.reword p.text = p.text ↔ p.Survives := by
  constructor
  · intro he s hs hlost
    have hclear := clear_of_count_reword (congrArg (List.countP isWordChar) he)
    have hneat := neat_reword p.text
    rw [he] at hneat
    rcases cases_of_mem_lostWords _ hlost with hremovable | ⟨r, hr, hw⟩
    · obtain ⟨rest, hrest, hkept⟩ := exists_of_throughout hneat.kept hs
      have hkeeps := (hkept rfl).1
      rw [takeWhile_append_stop s.isWordChar hrest, s.lower_eq] at hkeeps
      exact hkeeps hremovable
    · obtain ⟨rest, hrest, hstands⟩ := exists_of_throughout (hclear _ (wording_mem_rules hr)) hs
      have hphrased : Phrased r.1 s.text := hw ▸ .last ((s.fold_eq_iff s.key).2 rfl)
      exact hstands ⟨rfl, s.text, r.2.toList, rest, rfl, .wording hr hphrased, hrest⟩
  · intro hp
    have hreword := reword_append hp apart_nil ⟨trivial, trivial⟩ fun _ _ => trivial
    rwa [List.append_nil] at hreword

theorem merge_sublist {cs : List Char} (h : ∀ c ∈ cs, isBlank c = false) (spaced : Bool) :
    (merge english spaced (pieces cs)).Sublist cs := by
  induction cs using pieces_induction generalizing spaced with
  | nil => exact List.Sublist.refl _
  | gap c cs hb _ =>
    have hc := h c List.mem_cons_self
    rw [hb] at hc
    cases hc
  | word c cs hw ih =>
    have hrest : ∀ d ∈ cs.dropWhile isWordChar, isBlank d = false :=
      fun d hd => h d (List.mem_cons_of_mem c ((List.dropWhile_sublist _).subset hd))
    rw [merge_of_isWordChar hw]
    split
    · exact ((ih hrest spaced).trans (List.dropWhile_sublist _)).cons c
    · have hkept := (ih hrest false).append_left (c :: cs.takeWhile isWordChar)
      rwa [← cons_cut] at hkept
  | mark c cs hw hb ih =>
    rw [merge_of_mark hw hb]
    exact (ih (List.forall_mem_cons.1 h).2 false).cons_cons c

theorem reword_eq_of_sublist {p : MemberPath} (h : p.text.Sublist (english.reword p.text)) :
    english.reword p.text = p.text := by
  have hcount := Nat.le_antisymm (count_reword_le p.text) h.countP_le
  have hruled := ruled_of_clear (fun _ hrule => hrule) (clear_of_count_reword hcount)
  have hsublist := merge_sublist p.isBlank_eq_false false
  rw [reword_eq_merge, hruled] at h ⊢
  exact hsublist.antisymm h

theorem reword_assign {p q : MemberPath} (hp : p.Survives) (hq : q.Survives) :
    english.reword (p.text ++ ' ' :: '=' :: ' ' :: q.text) = p.text ++ ' ' :: '=' :: ' ' :: q.text := by
  have hkept : Throughout Kept false (q.text ++ []) := throughout_kept hq apart_nil trivial
  have hsingle : Throughout Single false (q.text ++ []) := q.throughout_single apart_nil trivial
  have hclear (rule : Rule) : rule.Clear false (q.text ++ []) := clear hq apart_nil trivial
  have hblank : q.text.head?.any isBlank = false := by
    obtain ⟨c, cs, he⟩ := List.exists_cons_of_ne_nil q.text_ne_nil
    have hc := q.isBlank_eq_false c (he ▸ List.mem_cons_self)
    rw [he]
    exact hc
  rw [List.append_nil] at hkept hsingle
  refine reword_append hp (apart_equals _) ⟨?_, ?_⟩ fun rule _ => ?_
  · exact ⟨kept_of_head rfl, kept_of_head rfl, kept_of_head rfl, hkept⟩
  · exact ⟨fun _ => ⟨rfl, rfl⟩, single_of_head rfl, fun _ => ⟨rfl, hblank⟩, hsingle⟩
  · have hrest := hclear rule
    rw [List.append_nil] at hrest
    exact ⟨Rule.not_stands_of_head rfl rule _, Rule.not_stands_of_head rfl rule _,
      Rule.not_stands_of_head rfl rule _, hrest⟩

/-! Sources of one line. -/

theorem parts_of_inLine {cs : List Char} (hne : cs ≠ []) (h : ∀ c ∈ cs, Source.InLine c) :
    Source.parts cs = [.code cs] := by
  have hlaid : Source.Laid true [.code cs] := .code hne h nofun nofun (.nil false)
  have hparts := Source.partsFrom_eq_of_laid hlaid
  simpa [Source.parts, Source.Part.text] using hparts

theorem process_of_inLine {cs : List Char} (hne : cs ≠ []) (h : ∀ c ∈ cs, Source.InLine c) :
    Source.process english.reword cs = english.reword cs := by
  rw [Source.process_eq_written rfl, parts_of_inLine hne h]
  exact List.append_nil _

end MemberPath
end Parlance
