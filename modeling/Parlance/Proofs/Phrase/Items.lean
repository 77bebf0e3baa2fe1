import Mathlib.Data.List.Chain
import Parlance.Proofs.Phrase.Atoms

/-! Rewording a stretch of code that is written token by token. Each rule of the English book replaces
the phrases that are its own and copies everything else; what is left after all of them has one
space for every run of blanks. -/

namespace Parlance.Wording
open Text Pattern Phrasebook
open Token (Kind)

structure Item where
  before : List Char
  atom : Atom
  blank : ∀ c ∈ before, c = ' ' ∨ c = '\t'

theorem blank_nil : ∀ c ∈ ([] : List Char), c = ' ' ∨ c = '\t' := List.forall_mem_nil _

theorem blank_space : ∀ c ∈ [' '], c = ' ' ∨ c = '\t' := by decide

def Item.textAfter (done : List (List String × String)) (x : Item) : List Char :=
  x.before ++ x.atom.textAfter done

def textAfter (done : List (List String × String)) (items : List Item) : List Char :=
  items.flatMap (Item.textAfter done)

/-- The second token can stand right after the first. Two tokens that a character could join have
blanks between them, and a phrase does not go on with the word `or`. -/
structure Fits (x y : Item) : Prop where
  apart : x.atom.tight = true ∨ y.atom.tight = true ∨ y.before ≠ []
  notOr : x.atom.isPhrase = true → y.atom.content ≠ (.keyword .orWord, "or")

namespace Atom

theorem textAfter_ne_nil (x : Atom) (done : List (List String × String)) :
    x.textAfter done ≠ [] := by
  cases x with
  | name x => exact List.append_ne_nil_of_left_ne_nil x.first.nonempty _
  | numeral n => exact List.append_ne_nil_of_left_ne_nil n.nonempty _
  | literal l => exact List.cons_ne_nil _ _
  | fixed t h => exact (fixedTokens_cases t h).1
  | phrase r h text hs =>
    rw [textAfter]
    split
    · exact (wordings_marks r h).1
    · have hw := (isWord_of_mem_wordings r h).2
      exact (hs.phrased hw).ne_nil hw

theorem textAfter_eq {x : Atom} {done done' : List (List String × String)}
    (h : ∀ r h text hs, x = .phrase r h text hs → (r ∈ done ↔ r ∈ done')) :
    x.textAfter done = x.textAfter done' := by
  cases x with
  | phrase r hr text hs => simp only [textAfter, h r hr text hs rfl]
  | _ => rfl

theorem isWordChar_of_tight {x : Atom} (ht : x.tight = true) (hl : x.isLiteral = false)
    (done : List (List String × String)) : ∀ c ∈ x.textAfter done, isWordChar c = false := by
  have hdelimiters : ∀ t ∈ fixedTokens, isDelimiter t.1 = true →
      ∀ c ∈ t.2.toList, isWordChar c = false := by
    decide
  cases x with
  | literal l => cases hl
  | fixed t h => exact hdelimiters t h ht
  | name | numeral | phrase => cases ht

theorem not_tight_of_isPhrase {x : Atom} (h : x.isPhrase = true) : x.tight ≠ true := by
  cases x with
  | phrase => exact Bool.false_ne_true
  | name | numeral | literal | fixed => cases h

theorem calm_or_phrased {x : Atom} (hl : x.isLiteral = false)
    (done : List (List String × String)) : Calm (x.textAfter done) ∨
      x.isPhrase = true ∧ ∃ r ∈ wordings, r ∉ done ∧ Phrased r.1 (x.textAfter done) := by
  cases x with
  | phrase r h text hs =>
    by_cases hd : r ∈ done
    · refine .inl (calm hl ?_)
      rintro _ _ _ _ ⟨⟩
      exact hd
    · refine .inr ⟨rfl, r, h, hd, ?_⟩
      rw [textAfter, if_neg hd]
      exact hs.phrased (isWord_of_mem_wordings r h).2
  | _ => exact .inl (calm hl (by rintro _ _ _ _ ⟨⟩))

theorem head_any_isBlank {x : Atom} (hl : x.isLiteral = false)
    (done : List (List String × String)) (rest : List Char) :
    (x.textAfter done ++ rest).head?.any isBlank = false := by
  rcases calm_or_phrased hl done with h | ⟨-, r, hr, -, hs⟩
  · exact h.head_any_isBlank (x.textAfter_ne_nil done) rest
  · obtain ⟨hne, hw⟩ := isWord_of_mem_wordings r hr
    obtain ⟨w, ws, he⟩ := List.exists_cons_of_ne_nil hne
    rw [he] at hs hw
    exact hs.head_any_isBlank (hw w (by simp)) rest

theorem takeWhile_marks {cs : List Char} (hne : cs ≠ []) (h : ∀ c ∈ cs, isWordChar c = false)
    (rest : List Char) : (cs ++ rest).takeWhile isWordChar = [] := by
  obtain ⟨c, ds, rfl⟩ := List.exists_cons_of_ne_nil hne
  simp [h c (by simp)]

theorem firstWord_ne_or {x : Atom} (hl : x.isLiteral = false)
    (hx : x.content ≠ (.keyword .orWord, "or")) {done : List (List String × String)}
    {rest : List Char} (hr : Ended (x.textAfter done) rest) :
    ((x.textAfter done ++ rest).takeWhile isWordChar).map fold ≠ "or".toList := by
  cases x with
  | literal l => cases hl
  | name x =>
    have hstop := hr.head x.first.nonempty x.first.isWordChar (Name.head_others _)
    rw [textAfter, Name.text, List.append_assoc, takeWhile_append_stop x.first.isWordChar hstop,
      map_fold_of_isNameChar x.first.chars]
    intro he
    refine x.first.free ?_
    rw [he]
    decide
  | numeral n =>
    have hdigits : ∀ c ∈ n.whole, c.isDigit = true :=
      fun c hc => n.digits c (List.mem_append_left _ hc)
    have hword : ∀ c ∈ n.whole, isWordChar c = true :=
      fun c hc => n.isWordChar c (List.mem_append_left _ hc)
    have hhead : (if n.fraction = [] then [] else '.' :: n.fraction).head?.any isWordChar = false := by
      split
      · rfl
      · exact isWordChar_dot
    rw [textAfter, Numeral.text, List.append_assoc,
      takeWhile_append_stop hword (hr.head n.nonempty hword hhead),
      map_fold_of_isNameChar fun c hc => isNameChar_of_isDigit (hdigits c hc)]
    have hfirst := head_any_isDigit n.nonempty hdigits []
    rw [List.append_nil] at hfirst
    have hor : String.ofList (n.whole.map Char.toLower) ∉ ["or"] :=
      not_mem_of_isDigit hfirst (by decide)
    intro he
    exact hor (by rw [he]; decide)
  | fixed t h =>
    have hne := (fixedTokens_cases t h).1
    rcases (fixedTokens_cases t h).2 with ⟨hc, -⟩ | hm
    · have hword : ∀ c ∈ t.2.toList, isWordChar c = true :=
        fun c hm => isWordChar_of_isNameChar (hc c hm)
      have hor : ∀ t ∈ fixedTokens, t ≠ (.keyword .orWord, "or") →
          t.2.toList.map Char.toLower ≠ "or".toList := by
        decide
      have hstop : rest.head?.any isWordChar = false := by
        obtain ⟨l, hl⟩ := Option.isSome_iff_exists.1 (List.getLast?_isSome.2 hne)
        exact hr (by simpa [textAfter, hl] using hword l (List.mem_of_getLast? hl))
      rw [textAfter, takeWhile_append_stop hword hstop, map_fold_of_isNameChar hc]
      exact hor t h hx
    · rw [textAfter, takeWhile_marks hne fun c hc => (hm c hc).1]
      decide
  | phrase r h text hs =>
    by_cases hd : r ∈ done
    · rw [textAfter, if_pos hd, takeWhile_marks (wordings_marks r h).1 fun c hc =>
        ((wordings_marks r h).2 c hc).1]
      decide
    · obtain ⟨hne, hw⟩ := isWord_of_mem_wordings r h
      obtain ⟨w, ws, he⟩ := List.exists_cons_of_ne_nil hne
      have hor : ∀ r ∈ wordings, r.1.head? ≠ some "or" := by decide
      have hphrased := hs.phrased hw
      rw [textAfter, if_neg hd] at hr ⊢
      have hstop := hr (hphrased.getLast_isWordChar hw)
      rw [he] at hphrased hw
      rw [hphrased.firstWord_eq (hw w (by simp)) hstop]
      intro hword
      exact hor r h (by rw [he, String.toList_injective hword]; rfl)

end Atom

section Stretch
variable {tail : List Char} (htail : ∀ c ∈ tail, c = ' ' ∨ c = '\t')
  {done : List (List String × String)} {x : Item} {items : List Item}
  (hchain : (x :: items).IsChain Fits) (hcode : ∀ y ∈ x :: items, y.atom.isLiteral = false)
include htail hchain hcode

theorem ended_atom : Ended (x.atom.textAfter done) (textAfter done items ++ tail) := by
  intro hlast
  have hx : x.atom.tight ≠ true := by
    intro ht
    obtain ⟨l, hl, hw⟩ := (Option.any_eq_true _ _).1 hlast
    simp [Atom.isWordChar_of_tight ht (hcode x (by simp)) done l (List.mem_of_getLast? hl)] at hw
  cases items with
  | nil =>
    cases tail with
    | nil => rfl
    | cons c tail => exact isWordChar_of_isBlank (isBlank_of_space_or_tab (htail c (by simp)))
  | cons y items =>
    have hfits := (List.isChain_cons_cons.1 hchain).1
    rw [textAfter, List.flatMap_cons, Item.textAfter]
    cases hb : y.before with
    | cons c before =>
      have hc := y.blank c (by simp [hb])
      exact isWordChar_of_isBlank (isBlank_of_space_or_tab hc)
    | nil =>
      have hy : y.atom.tight = true := by
        rcases hfits.apart with h | h | h
        · exact absurd h hx
        · exact h
        · exact absurd hb h
      obtain ⟨c, cs, he⟩ := List.exists_cons_of_ne_nil (y.atom.textAfter_ne_nil done)
      have hc := Atom.isWordChar_of_tight hy (hcode y (by simp)) done c (by simp [he])
      simpa [he] using hc

theorem nextWord_ne_or (hx : x.atom.isPhrase = true) :
    (((textAfter done items ++ tail).dropWhile isBlank).takeWhile isWordChar).map fold ≠
      "or".toList := by
  cases items with
  | nil =>
    have hnil : (tail ++ []).dropWhile isBlank = [] :=
      dropWhile_append_stop (fun c hc => isBlank_of_space_or_tab (htail c hc)) rfl
    rw [List.append_nil] at hnil
    rw [textAfter, List.flatMap_nil, List.nil_append, hnil]
    decide
  | cons y items =>
    have hchain' := List.isChain_cons_cons.1 hchain
    have hcode' : ∀ z ∈ y :: items, z.atom.isLiteral = false :=
      fun z hz => hcode z (List.mem_cons_of_mem x hz)
    have hy := hcode' y (by simp)
    have hgap : ∀ c ∈ y.before, isBlank c = true :=
      fun c hc => isBlank_of_space_or_tab (y.blank c hc)
    rw [textAfter, List.flatMap_cons, Item.textAfter, List.append_assoc, List.append_assoc,
      dropWhile_append_stop hgap (Atom.head_any_isBlank hy done _)]
    exact Atom.firstWord_ne_or hy (hchain'.1.notOr hx) (ended_atom htail hchain'.2 hcode')

end Stretch

theorem rewrites_items {w : String} {p : Pattern} {f : Spot → Spot → List Char} (hp : Leads w p)
    {done done' : List (List String × String)}
    (hatom : ∀ (x : Atom) (previous : Option Char) (rest out : List Char), x.isLiteral = false →
      Ended (x.textAfter done) rest →
      (x.isPhrase = true → previous.any isWordChar = false ∧
        ((rest.dropWhile isBlank).takeWhile isWordChar).map fold ≠ "or".toList) →
      Rewrites p f ((x.textAfter done).getLast?.or previous) rest out →
      Rewrites p f previous (x.textAfter done ++ rest) (x.textAfter done' ++ out))
    {tail : List Char} (htail : ∀ c ∈ tail, c = ' ' ∨ c = '\t') {items : List Item}
    (hchain : items.IsChain Fits) (hcode : ∀ y ∈ items, y.atom.isLiteral = false)
    {previous : Option Char}
    (hprevious : ∀ x ∈ items.head?, x.atom.isPhrase = true →
      x.before ≠ [] ∨ previous.any isWordChar = false) :
    Rewrites p f previous (textAfter done items ++ tail) (textAfter done' items ++ tail) := by
  induction items generalizing previous with
  | nil =>
    have hcopy := Rewrites.marks hp (fun c hc => isWordChar_of_isBlank (isBlank_of_space_or_tab (htail c hc)))
      (Rewrites.nil hp (f := f) (tail.getLast?.or previous))
    rwa [List.append_nil] at hcopy
  | cons x items ih =>
    have hx := hcode x (by simp)
    have hended : Ended (x.atom.textAfter done) (textAfter done items ++ tail) :=
      ended_atom htail hchain hcode
    have hgap : ∀ c ∈ x.before, isWordChar c = false :=
      fun c hc => isWordChar_of_isBlank (isBlank_of_space_or_tab (x.blank c hc))
    simp only [textAfter, List.flatMap_cons, Item.textAfter, List.append_assoc]
    refine Rewrites.marks hp hgap (hatom x.atom _ _ _ hx hended (fun hphrase => ⟨?_, ?_⟩) ?_)
    · cases hb : x.before with
      | nil => exact (hprevious x rfl hphrase).resolve_left (fun h => h hb)
      | cons c before =>
        obtain ⟨l, hl⟩ := Option.isSome_iff_exists.1 (List.getLast?_isSome.2 (List.cons_ne_nil c before))
        rw [hl]
        exact hgap l (by rw [hb]; exact List.mem_of_getLast? hl)
    · exact nextWord_ne_or htail hchain hcode hphrase
    · refine ih (List.isChain_of_isChain_cons hchain)
        (fun y hy => hcode y (List.mem_cons_of_mem x hy)) fun y hy hphrase => ?_
      obtain ⟨rest, rfl⟩ : ∃ rest, items = y :: rest := List.head?_eq_some_iff.1 hy
      rcases (List.isChain_cons_cons.1 hchain).1.apart with ht | ht | hb
      · obtain ⟨l, hl⟩ := Option.isSome_iff_exists.1
          (List.getLast?_isSome.2 (x.atom.textAfter_ne_nil done))
        rw [hl]
        exact .inr (Atom.isWordChar_of_tight ht hx done l (List.mem_of_getLast? hl))
      · exact absurd ht (Atom.not_tight_of_isPhrase hphrase)
      · exact .inl hb

/-! The rules. -/

theorem expand_wording {r : List String × String} (h : r ∈ wordings) (s t : Spot) :
    expand [] (template r.2) s t = r.2.toList := by
  have htemplate : ∀ r ∈ wordings, template r.2 = r.2.toList.map .char := by decide
  rw [expand, htemplate r h, List.flatMap_map]
  simp

theorem ends_wording {r : List String × String} (hr : r ∈ wordings) {s : Spot}
    (hs : s.previous.any isWordChar = false) : ends (Phrase.ofWords r.1 r.2).pattern s =
      ((readWords r.1 s.rest).map fun q => s.past q.1 q.2).toList := by
  obtain ⟨hne, hws⟩ := isWord_of_mem_wordings r hr
  obtain ⟨w, ws, he⟩ := List.exists_cons_of_ne_nil hne
  rw [he] at hws ⊢
  exact ends_ofWords hws r.2 hs

theorem readWords_later {pre post : List (List String × String)} {r q : List String × String}
    (h : wordings = pre ++ r :: post) (hq : q ∈ post) {text rest : List Char}
    (hs : Phrased q.1 text) (hstop : rest.head?.any isWordChar = false)
    (hnext : ((rest.dropWhile isBlank).takeWhile isWordChar).map fold ≠ "or".toList) :
    readWords r.1 (text ++ rest) = none := by
  have hpair : ¬r.1 <+: q.1 ∧ (q.1 <+: r.1 → (r.1.drop q.1.length).head? = some "or") := by
    have hall := wordings_pairwise
    rw [h] at hall
    exact List.rel_of_pairwise_cons (List.pairwise_append.1 hall).2.1 hq
  have hq' : q ∈ wordings := by simp [h, hq]
  refine hs.readWords_eq_none (isWord_of_mem_wordings q hq').2 hstop hpair.1 fun u us he => ?_
  have hu := hpair.2 (he ▸ List.prefix_append _ _)
  rw [he, List.drop_left] at hu
  cases hu
  exact hnext

theorem rewrites_atom {pre post : List (List String × String)} {r : List String × String}
    (h : wordings = pre ++ r :: post) {w : String}
    (hp : Leads w (Phrase.ofWords r.1 r.2).pattern) (hw : w ∈ leaders) {x : Atom}
    {previous : Option Char} {rest out : List Char} (hl : x.isLiteral = false)
    (hended : Ended (x.textAfter pre) rest)
    (hphrase : x.isPhrase = true → previous.any isWordChar = false ∧
      ((rest.dropWhile isBlank).takeWhile isWordChar).map fold ≠ "or".toList)
    (hrest : Rewrites (Phrase.ofWords r.1 r.2).pattern (expand [] (template r.2))
      ((x.textAfter pre).getLast?.or previous) rest out) :
    Rewrites (Phrase.ofWords r.1 r.2).pattern (expand [] (template r.2)) previous
      (x.textAfter pre ++ rest) (x.textAfter (pre ++ [r]) ++ out) := by
  by_cases hd : ∀ q h text hs, x = .phrase q h text hs → q ∈ pre
  · have heq : x.textAfter pre = x.textAfter (pre ++ [r]) :=
      Atom.textAfter_eq fun q hq text hs he => by simp [hd q hq text hs he]
    rw [← heq]
    exact (Atom.calm hl hd).rewrites hp hw hended hrest
  · cases x with
    | name | numeral | literal | fixed => exact absurd (by rintro _ _ _ _ ⟨⟩) hd
    | phrase q hq text hs =>
      have hpre : q ∉ pre := by
        intro hm
        refine hd ?_
        rintro _ _ _ _ ⟨⟩
        exact hm
      obtain ⟨hprevious, hnext⟩ := hphrase rfl
      have hvs := (isWord_of_mem_wordings q hq).2
      have hphrased := hs.phrased hvs
      simp only [Atom.textAfter, if_neg hpre] at hended hrest ⊢
      have hstop := hended (hphrased.getLast_isWordChar hvs)
      by_cases hqr : q = r
      · subst hqr
        rw [if_pos (by simp)]
        refine .swap (hphrased.ne_nil hvs) (fun n =>
          ⟨Spot.past ⟨n, previous, text ++ rest, []⟩ text rest, ?_, rfl, expand_wording hq _ _⟩) hrest
        rw [matchAt, ends_wording hq hprevious, hphrased.readWords_eq hvs hstop]
        rfl
      · have hpost : q ∈ post := by
          rw [h, List.mem_append, List.mem_cons] at hq
          exact (hq.resolve_left hpre).resolve_left hqr
        rw [if_neg (by simp [hpre, hqr])]
        refine hphrased.rewrites hp hvs (fun v hv he => not_leader_of_mem_tail q hq v hv (he ▸ hw))
          (fun n => ?_) hstop hrest
        rw [ends_wording (by simp [h]) hprevious, readWords_later h hpost hphrased hstop hnext]
        rfl

section Rules
variable {tail : List Char} (htail : ∀ c ∈ tail, c = ' ' ∨ c = '\t') {items : List Item}
  (hchain : items.IsChain Fits) (hcode : ∀ y ∈ items, y.atom.isLiteral = false)
include htail hchain hcode

theorem copies_items {w : String} {p : Pattern} {f : Spot → Spot → List Char} (hp : Leads w p)
    (hw : w ∈ leaders) (hwords : ∀ r ∈ wordings, w ∉ r.1) (done : List (List String × String))
    {previous : Option Char} (hprevious : ∀ x ∈ items.head?, x.atom.isPhrase = true →
      x.before ≠ [] ∨ previous.any isWordChar = false) :
    Rewrites p f previous (textAfter done items ++ tail) (textAfter done items ++ tail) := by
  refine rewrites_items hp (fun x previous rest out hl hended _ hrest => ?_) htail hchain hcode
    hprevious
  rcases Atom.calm_or_phrased hl done with h | ⟨-, r, hr, -, hs⟩
  · exact h.rewrites hp hw hended hrest
  · obtain ⟨hne, hvs⟩ := isWord_of_mem_wordings r hr
    have hstop := hended (hs.getLast_isWordChar hvs)
    refine hs.rewrites hp hvs (fun v hv he => hwords r hr (he ▸ List.mem_of_mem_tail hv))
      (fun n => hp.ends_eq_nil (.inr ?_)) hstop hrest
    obtain ⟨v, vs, he⟩ := List.exists_cons_of_ne_nil hne
    rw [he] at hs hvs
    rw [hs.firstWord_eq (hvs v (by simp)) hstop]
    exact fun hv => hwords r hr (by rw [he, ← String.toList_injective hv]; simp)

theorem rewrites_wording {pre post : List (List String × String)} {r : List String × String}
    (h : wordings = pre ++ r :: post) {previous : Option Char}
    (hprevious : ∀ x ∈ items.head?, x.atom.isPhrase = true →
      x.before ≠ [] ∨ previous.any isWordChar = false) :
    Rewrites (Phrase.ofWords r.1 r.2).pattern (expand [] (template r.2)) previous
      (textAfter pre items ++ tail) (textAfter (pre ++ [r]) items ++ tail) := by
  have hr : r ∈ wordings := by simp [h]
  obtain ⟨hne, hws⟩ := isWord_of_mem_wordings r hr
  obtain ⟨w, ws, he⟩ := List.exists_cons_of_ne_nil hne
  have hp : Leads w (Phrase.ofWords r.1 r.2).pattern := by
    rw [he] at hws ⊢
    exact leads_ofWords hws r.2
  have hw : w ∈ leaders := by
    refine List.mem_append_right _ (List.mem_filterMap.2 ⟨r, hr, ?_⟩)
    rw [he]
    rfl
  refine rewrites_items hp (fun x previous rest out hl hended hphrase hrest => ?_) htail hchain
    hcode hprevious
  exact rewrites_atom h hp hw hl hended hphrase hrest

theorem apply_wordings {pre post : List (List String × String)} (h : wordings = pre ++ post) :
    (post.map fun r => Phrase.ofWords r.1 r.2).foldl (fun text phrase => phrase.apply text)
      (textAfter pre items ++ tail) = textAfter wordings items ++ tail := by
  induction post generalizing pre with
  | nil => rw [h, List.append_nil, List.map_nil, List.foldl_nil]
  | cons r post ih =>
    have happly : (Phrase.ofWords r.1 r.2).apply (textAfter pre items ++ tail) =
        textAfter (pre ++ [r]) items ++ tail :=
      (rewrites_wording htail hchain hcode h fun _ _ _ => .inr rfl).replaceAll_eq
    rw [List.map_cons, List.foldl_cons, happly]
    exact ih (by rw [h, List.append_assoc]; rfl)

theorem apply_rules : (wordings.map (fun r => Phrase.ofWords r.1 r.2) ++ [endPhrase]).foldl
    (fun text phrase => phrase.apply text) (textAfter [] items ++ tail) =
      textAfter wordings items ++ tail := by
  rw [List.foldl_append, apply_wordings htail hchain hcode rfl]
  exact (copies_items htail hchain hcode leads_endPhrase (by decide) (by decide) wordings
    fun _ _ _ => .inr rfl).replaceAll_eq

theorem apply_setPhrase :
    setPhrase.apply (textAfter [] items ++ tail) = textAfter [] items ++ tail :=
  (copies_items htail hchain hcode leads_setPhrase (by decide) (by decide) []
    fun _ _ _ => .inr rfl).replaceAll_eq

end Rules

/-! What is left after the rules. -/

def space (gap : List Char) : List Char := if gap = [] then [] else [' ']

def Item.canonical (x : Item) : List Char := space x.before ++ x.atom.textAfter wordings

theorem merge_items {tail : List Char} (htail : ∀ c ∈ tail, c = ' ' ∨ c = '\t') {items : List Item}
    (hchain : items.IsChain Fits) (hcode : ∀ y ∈ items, y.atom.isLiteral = false) :
    merge english false (pieces (textAfter wordings items ++ tail)) =
      items.flatMap Item.canonical ++ space tail := by
  have hgap {cs : List Char} (hne : cs ≠ []) (h : ∀ c ∈ cs, c = ' ' ∨ c = '\t') : IsGap cs :=
    ⟨hne, fun c hc => isBlank_of_space_or_tab (h c hc)⟩
  induction items with
  | nil =>
    by_cases ht : tail = []
    · subst ht
      rfl
    · have h : merge english false (pieces (tail ++ [])) = _ := merge_isGap (hgap ht htail) rfl
      rw [List.append_nil] at h
      rw [textAfter, List.flatMap_nil, List.nil_append, h, space, if_neg ht]
      rfl
  | cons x items ih =>
    have hx := hcode x (by simp)
    have hcalm : Calm (x.atom.textAfter wordings) := Atom.calm hx fun _ h _ _ _ => h
    have hended : Ended (x.atom.textAfter wordings) (textAfter wordings items ++ tail) :=
      ended_atom htail hchain hcode
    have hrest := ih (List.isChain_of_isChain_cons hchain)
      fun y hy => hcode y (List.mem_cons_of_mem x hy)
    have htext : textAfter wordings (x :: items) ++ tail =
        x.before ++ (x.atom.textAfter wordings ++ (textAfter wordings items ++ tail)) := by
      simp [textAfter, Item.textAfter]
    rw [htext, List.flatMap_cons, Item.canonical]
    by_cases hb : x.before = []
    · rw [hb, List.nil_append, hcalm.merge hended (.inr rfl), hrest]
      simp [space]
    · rw [merge_isGap (hgap hb x.blank) (Atom.head_any_isBlank hx wordings _),
        hcalm.merge hended (.inl (x.atom.textAfter_ne_nil wordings)), hrest]
      simp [space, hb]

theorem reword_of_foldl {code text : List Char} (hne : code ≠ [])
    (h : english.phrases.foldl (fun text phrase => phrase.apply text) code = text) :
    english.reword code = merge english false (pieces text) := by
  have hempty : code.isEmpty = false := by simpa using hne
  rw [reword, h]
  simp [hempty]

theorem reword_items {tail : List Char} (htail : ∀ c ∈ tail, c = ' ' ∨ c = '\t')
    {items : List Item} (hchain : items.IsChain Fits)
    (hcode : ∀ y ∈ items, y.atom.isLiteral = false) :
    english.reword (textAfter [] items ++ tail) = items.flatMap Item.canonical ++ space tail := by
  by_cases hne : textAfter [] items ++ tail = []
  · cases items with
    | nil =>
      obtain rfl : tail = [] := hne
      rfl
    | cons x items => exact absurd hne (by simp [textAfter, Item.textAfter, Atom.textAfter_ne_nil])
  · rw [reword_of_foldl hne, merge_items htail hchain hcode]
    rw [english_phrases, List.cons_append, List.foldl_cons, apply_setPhrase htail hchain hcode,
      apply_rules htail hchain hcode]

end Parlance.Wording
