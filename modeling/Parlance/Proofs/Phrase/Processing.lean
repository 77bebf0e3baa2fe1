import Parlance.Proofs.Phrase.Items
import Parlance.Proofs.Phrase.Parts

/-! Rewording a text that is written token by token. The text is cut at its literals, which are copied
with the line ends in them; each stretch between them is reworded on its own. At the front of a text
the words `set … to` around a name become a declaration. -/

namespace Parlance.Wording
open Text Pattern Phrasebook Source
open Token (Kind)

/-! Cutting a text into stretches. -/

theorem inside_letters {quote : Char} {letters : List Letter} (h : ∀ l ∈ letters, l.Fits quote) :
    Inside quote (letters.flatMap Letter.text) := by
  induction letters with
  | nil => exact .nil
  | cons l letters ih =>
    have h' := List.forall_mem_cons.1 h
    cases l with
    | plain c => exact .plain h'.1.1 h'.1.2 (ih h'.2)
    | escaped c => exact .escape c (ih h'.2)

section
variable {reword : List Char → List Char} (hr : reword [] = [])
include hr

theorem written_last {cs : List Char} (h : ∀ c ∈ cs, InLine c) (fresh : Bool) :
    written reword (partsFrom .code fresh [] cs) = reword cs := by
  have hcode := partsFrom_code h fresh [] []
  rw [List.append_nil, List.append_nil] at hcode
  rw [hcode, partsFrom, written_ofStretch hr, List.reverse_reverse]

theorem written_to_literal {cs : List Char} (h : ∀ c ∈ cs, InLine c) (l : Literal) (fresh : Bool)
    (rest : List Char) : written reword (partsFrom .code fresh [] (cs ++ (l.text ++ rest))) =
      reword cs ++ (l.text ++ written reword (partsFrom .code false [] rest)) := by
  have hbody := partsFrom_inside l.isQuote (inside_letters l.fits) [l.quote] (l.quote :: rest)
  have hclosed : partsFrom (.literal l.quote false) false [l.quote] (l.body ++ [l.quote] ++ rest) =
      .literal l.text :: partsFrom .code false [] rest := by
    rw [List.append_assoc, List.singleton_append, Literal.body, hbody, partsFrom, if_pos rfl]
    simp [Literal.text, Literal.body]
  rw [partsFrom_code h, List.append_nil, Literal.text, List.cons_append, partsFrom_quote l.isQuote, hclosed,
    written_append, written_ofStretch hr, written_cons, List.reverse_reverse]
  rfl

end

/-! The characters of tokens. -/

theorem inLine_of_isNameChar {c : Char} (h : isNameChar c = true) : InLine c := by
  simpa using forall_isNameChar (p := fun c => decide (InLine c)) (by decide) h

theorem inLine_of_space_or_tab {c : Char} (h : c = ' ' ∨ c = '\t') : InLine c := by
  rcases h with rfl | rfl <;> decide

theorem Spells.inLine {ws : List String} {text : List Char} (h : Spells ws text)
    (hws : ∀ w ∈ ws, IsWord w) : ∀ c ∈ text, InLine c := by
  induction h with
  | @last w text ht =>
    intro c hc
    exact inLine_of_isNameChar (Spells.isNameChar (hws w (by simp)) ht c hc)
  | @more w v ws text rest gap ht hs ih =>
    intro c hc
    rcases List.mem_append.1 hc with hc | hc
    · exact inLine_of_isNameChar (Spells.isNameChar (hws w (by simp)) ht c hc)
    · rcases List.mem_append.1 hc with hc | hc
      · exact inLine_of_space_or_tab (gap.blank c hc)
      · exact ih (fun u hu => hws u (List.mem_cons_of_mem w hu)) c hc

theorem Name.inLine (x : Name) : ∀ c ∈ x.text, InLine c := by
  intro c hc
  rcases List.mem_append.1 hc with hc | hc
  · exact inLine_of_isNameChar (x.first.chars c hc)
  · obtain ⟨s, -, hc⟩ := List.mem_flatMap.1 hc
    rcases List.mem_cons.1 hc with rfl | hc
    · decide
    · exact inLine_of_isNameChar (s.chars c hc)

theorem Numeral.inLine (n : Numeral) : ∀ c ∈ n.text, InLine c := by
  have hdigit : ∀ c ∈ n.whole ++ n.fraction, InLine c :=
    fun c hc => inLine_of_isNameChar (isNameChar_of_isDigit (n.digits c hc))
  intro c hc
  rcases List.mem_append.1 hc with hc | hc
  · exact hdigit c (List.mem_append_left _ hc)
  · split at hc
    · cases hc
    · rcases List.mem_cons.1 hc with rfl | hc
      · decide
      · exact hdigit c (List.mem_append_right _ hc)

theorem Atom.inLine {x : Atom} (hl : x.isLiteral = false) : ∀ c ∈ x.textAfter [], InLine c := by
  have hfixed : ∀ t ∈ fixedTokens, ∀ c ∈ t.2.toList, InLine c := by decide
  cases x with
  | name x => exact x.inLine
  | numeral n => exact n.inLine
  | literal l => cases hl
  | fixed t h => exact hfixed t h
  | phrase r h text hs => exact Spells.inLine hs (isWord_of_mem_wordings r h).2

theorem inLine_textAfter {items : List Item} (h : ∀ y ∈ items, y.atom.isLiteral = false) :
    ∀ c ∈ textAfter [] items, InLine c := by
  intro c hc
  obtain ⟨x, hx, hc⟩ := List.mem_flatMap.1 hc
  rcases List.mem_append.1 hc with hc | hc
  · exact inLine_of_space_or_tab (x.blank c hc)
  · exact Atom.inLine (h x hx) c hc

/-! Stretches between literals. -/

theorem exists_stretch (items : List Item) : ∃ pending rest, items = pending ++ rest ∧
    (∀ y ∈ pending, y.atom.isLiteral = false) ∧
    (rest = [] ∨ ∃ x l more, rest = x :: more ∧ x.atom = .literal l) := by
  induction items with
  | nil => exact ⟨[], [], rfl, by simp, .inl rfl⟩
  | cons x items ih =>
    cases ha : x.atom with
    | literal l => exact ⟨[], x :: items, rfl, by simp, .inr ⟨x, l, items, rfl, ha⟩⟩
    | name | numeral | fixed | phrase =>
      obtain ⟨pending, rest, rfl, hp, hr⟩ := ih
      exact ⟨x :: pending, rest, rfl, List.forall_mem_cons.2 ⟨by rw [ha]; rfl, hp⟩, hr⟩

def gapOf : List Item → List Char
  | [] => []
  | x :: _ => x.before

theorem gapOf_blank (items : List Item) : ∀ c ∈ gapOf items, c = ' ' ∨ c = '\t' := by
  cases items with
  | nil => simp [gapOf]
  | cons x items => exact x.blank

theorem written_front {front out : List Char} (hfront : ∀ c ∈ front, InLine c)
    {items : List Item}
    (hfirst : ∀ pending rest, items = pending ++ rest →
      (∀ y ∈ pending, y.atom.isLiteral = false) →
      english.reword (front ++ (textAfter [] pending ++ gapOf rest)) =
        out ++ (pending.flatMap Item.canonical ++ space (gapOf rest)))
    (hmore : ∀ pending x more, items = pending ++ x :: more →
      written english.reword (partsFrom .code false [] (textAfter [] more)) =
        more.flatMap Item.canonical) (fresh : Bool) :
    written english.reword (partsFrom .code fresh [] (front ++ textAfter [] items)) =
      out ++ items.flatMap Item.canonical := by
  obtain ⟨pending, rest, rfl, hp, hrest⟩ := exists_stretch items
  have hcode : ∀ c ∈ front ++ (textAfter [] pending ++ gapOf rest), InLine c := by
    intro c hc
    rcases List.mem_append.1 hc with hc | hc
    · exact hfront c hc
    · rcases List.mem_append.1 hc with hc | hc
      · exact inLine_textAfter hp c hc
      · exact inLine_of_space_or_tab (gapOf_blank rest c hc)
  have hreword := hfirst pending rest rfl hp
  rcases hrest with rfl | ⟨x, l, more, rfl, hx⟩
  · rw [gapOf, List.append_nil] at hcode hreword
    rw [List.append_nil, written_last rfl hcode, hreword]
    simp [space]
  · have htext : front ++ textAfter [] (pending ++ x :: more) =
        (front ++ (textAfter [] pending ++ x.before)) ++ (l.text ++ textAfter [] more) := by
      simp [textAfter, Item.textAfter, hx, Atom.textAfter]
    rw [gapOf] at hcode hreword
    rw [htext, written_to_literal rfl hcode, hreword, hmore pending x more rfl]
    simp [Item.canonical, hx, Atom.textAfter]

theorem written_items {items : List Item} (hchain : items.IsChain Fits) (fresh : Bool) :
    written english.reword (partsFrom .code fresh [] (textAfter [] items)) =
      items.flatMap Item.canonical := by
  induction hn : items.length using Nat.strongRecOn generalizing items fresh with
  | _ n ih =>
    show written english.reword (partsFrom .code fresh [] ([] ++ textAfter [] items)) =
      [] ++ items.flatMap Item.canonical
    refine written_front (by simp) (fun pending rest he hp => ?_) (fun pending x more he => ?_) fresh
    · subst he
      exact reword_items (gapOf_blank rest) (List.isChain_append.1 hchain).1 hp
    · subst he
      refine ih more.length (by simp [← hn]; omega) ?_ false rfl
      exact List.isChain_of_isChain_cons (List.isChain_append.1 hchain).2.1

theorem process_items {items : List Item} (hchain : items.IsChain Fits) :
    Source.process english.reword (textAfter [] items) = items.flatMap Item.canonical := by
  rw [process_eq_written rfl, parts, written_items hchain]

/-! The words around a name at the front of a text. -/

/-- The words `set … to` around a name. -/
structure Setting where
  setWord : List Char
  afterSet : Blanks
  name : Name
  afterName : Blanks
  toWord : List Char
  isSet : setWord.map Char.toLower = "set".toList
  isTo : toWord.map Char.toLower = "to".toList

theorem Name.exists_cons (x : Name) : ∃ c cs, x.text = c :: cs ∧ nameStart.accepts c = true ∧
    ∀ d ∈ cs, nameRest.accepts d = true := by
  obtain ⟨c, ds, hc⟩ := List.exists_cons_of_ne_nil x.first.nonempty
  have haccepts {d : Char} (hd : isNameChar d = true) :
      nameRest.accepts d = true ∧ (d.isDigit = false → nameStart.accepts d = true) := by
    have hall := forall_isNameChar (p := fun d => nameRest.accepts d && (d.isDigit || nameStart.accepts d))
      (by decide) hd
    rw [Bool.and_eq_true, Bool.or_eq_true] at hall
    exact ⟨hall.1, fun hdigit => hall.2.resolve_left (Bool.eq_false_iff.1 hdigit)⟩
  refine ⟨c, ds ++ x.others.flatMap fun s => '.' :: s.text, by simp [Name.text, hc], ?_, ?_⟩
  · exact (haccepts (x.first.chars c (by simp [hc]))).2 (x.first.start c (by simp [hc]))
  · intro d hd
    rcases List.mem_append.1 hd with hd | hd
    · exact (haccepts (x.first.chars d (by simp [hc, hd]))).1
    · obtain ⟨s, -, hd⟩ := List.mem_flatMap.1 hd
      rcases List.mem_cons.1 hd with rfl | hd
      · decide
      · exact (haccepts (s.chars d hd)).1

namespace Setting

def text (s : Setting) : List Char :=
  s.setWord ++ (s.afterSet.text ++ (s.name.text ++ (s.afterName.text ++ s.toWord)))

def items (s : Setting) : List Item :=
  [⟨[], .fixed (.keyword .varWord, "var") (by decide), blank_nil⟩, ⟨[' '], .name s.name, blank_space⟩,
    ⟨[' '], .fixed (.operator, "=") (by decide), blank_space⟩]

theorem textAfter_items (s : Setting) :
    textAfter [] s.items = "var ".toList ++ (s.name.text ++ " =".toList) := by
  simp [textAfter, items, Item.textAfter, Atom.textAfter]

theorem exists_text (s : Setting) : ∃ c cs, s.text = c :: cs ∧ isNameChar c = true := by
  have hchars := Spells.isNameChar (by decide) s.isSet
  cases hw : s.setWord with
  | nil =>
    have hset := s.isSet
    rw [hw] at hset
    cases hset
  | cons c cs => exact ⟨c, _, by rw [text, hw]; rfl, hchars c (by simp [hw])⟩

theorem text_ne_nil (s : Setting) : s.text ≠ [] := by
  obtain ⟨c, cs, hc, -⟩ := s.exists_text
  simp [hc]

theorem matchAt_setPhrase (s : Setting) {rest : List Char}
    (hrest : rest.head?.any isWordChar = false) (n : Nat) :
    matchAt setPhrase.pattern ⟨n, none, s.text ++ rest, []⟩ =
      some ((Spot.past ⟨n, none, s.text ++ rest, []⟩ s.text rest).capture 1 s.name.text) := by
  obtain ⟨c, cs, hname, hc, hcs⟩ := s.name.exists_cons
  have hset : s.setWord.map fold = "set".toList := Spells.map_fold (by decide) s.isSet
  have hto : s.toWord.map fold = "to".toList := Spells.map_fold (by decide) s.isTo
  rw [matchAt, ends_setPhrase hset s.afterSet.isGap hname hc hcs s.afterName.isGap hto hrest]
  · rfl
  · simp [text]
  · rfl

theorem expand_setPhrase (s t : Spot) (name : List Char) :
    expand [] (template "var $1 =") s (t.capture 1 name) =
      "var ".toList ++ (name ++ " =".toList) := by
  have htemplate : template "var $1 =" = "var ".toList.map .char ++ (.group ['1'] :: " =".toList.map .char) := by
    decide
  have hgroup : groupText [] s (t.capture 1 name) ['1'] = name := rfl
  rw [expand, htemplate]
  simp [hgroup]

theorem apply_setPhrase (s : Setting) {tail : List Char} (htail : ∀ c ∈ tail, c = ' ' ∨ c = '\t')
    {items : List Item} (hchain : items.IsChain Fits)
    (hcode : ∀ y ∈ items, y.atom.isLiteral = false)
    (hgap : (textAfter [] items ++ tail).head?.any isBlank = true) :
    setPhrase.apply (s.text ++ (textAfter [] items ++ tail)) =
      textAfter [] (s.items ++ items) ++ tail := by
  have hrest : (textAfter [] items ++ tail).head?.any isWordChar = false := by
    obtain ⟨c, hc, hb⟩ := (Option.any_eq_true _ _).1 hgap
    rw [hc]
    exact isWordChar_of_isBlank hb
  have hprevious : ∀ x ∈ items.head?, x.atom.isPhrase = true →
      x.before ≠ [] ∨ (s.text.getLast?.or none).any isWordChar = false := by
    intro x hx _
    obtain ⟨rest, rfl⟩ := List.head?_eq_some_iff.1 hx
    refine .inl fun hb => ?_
    have hhead := Atom.head_any_isBlank (hcode x (by simp)) [] (textAfter [] rest ++ tail)
    simp [textAfter, Item.textAfter, hb] at hgap hhead
    simp [hhead] at hgap
  have hswap : Rewrites setPhrase.pattern (expand [] (template "var $1 =")) none
      (s.text ++ (textAfter [] items ++ tail))
      (("var ".toList ++ (s.name.text ++ " =".toList)) ++ (textAfter [] items ++ tail)) :=
    .swap s.text_ne_nil (fun n => ⟨_, s.matchAt_setPhrase hrest n, rfl, expand_setPhrase _ _ _⟩)
      (copies_items htail hchain hcode leads_setPhrase (by decide) (by decide) [] hprevious)
  rw [show setPhrase.apply (s.text ++ (textAfter [] items ++ tail)) = _ from hswap.replaceAll_eq,
    ← textAfter_items]
  simp [textAfter]

theorem reword_eq (s : Setting) {tail : List Char} (htail : ∀ c ∈ tail, c = ' ' ∨ c = '\t')
    {items : List Item} (hchain : (s.items ++ items).IsChain Fits)
    (hcode : ∀ y ∈ items, y.atom.isLiteral = false)
    (hgap : (textAfter [] items ++ tail).head?.any isBlank = true) :
    english.reword (s.text ++ (textAfter [] items ++ tail)) =
      s.items.flatMap Item.canonical ++ (items.flatMap Item.canonical ++ space tail) := by
  have hcode' : ∀ y ∈ s.items ++ items, y.atom.isLiteral = false := by
    intro y hy
    rcases List.mem_append.1 hy with hy | hy
    · simp only [Setting.items, List.mem_cons, List.not_mem_nil, or_false] at hy
      rcases hy with rfl | rfl | rfl <;> rfl
    · exact hcode y hy
  rw [reword_of_foldl (List.append_ne_nil_of_left_ne_nil s.text_ne_nil _),
    merge_items htail hchain hcode', List.flatMap_append, List.append_assoc]
  rw [english_phrases, List.cons_append, List.foldl_cons,
    s.apply_setPhrase htail (List.isChain_append.1 hchain).2.1 hcode hgap,
    apply_rules htail hchain hcode']

theorem inLine (s : Setting) : ∀ c ∈ s.text, InLine c := by
  intro c hc
  simp only [text, List.mem_append] at hc
  rcases hc with hc | hc | hc | hc | hc
  · exact inLine_of_isNameChar (Spells.isNameChar (by decide) s.isSet c hc)
  · exact inLine_of_space_or_tab (s.afterSet.blank c hc)
  · exact s.name.inLine c hc
  · exact inLine_of_space_or_tab (s.afterName.blank c hc)
  · exact inLine_of_isNameChar (Spells.isNameChar (by decide) s.isTo c hc)

theorem process_eq (s : Setting) {items : List Item} (hchain : (s.items ++ items).IsChain Fits)
    (hgap : gapOf items ≠ []) :
    Source.process english.reword (s.text ++ textAfter [] items) =
      (s.items ++ items).flatMap Item.canonical := by
  rw [process_eq_written rfl, parts, List.flatMap_append]
  refine written_front s.inLine (fun pending rest he hp => ?_) (fun pending x more he => ?_) true
  · subst he
    rw [← List.append_assoc] at hchain
    refine s.reword_eq (gapOf_blank rest) (List.isChain_append.1 hchain).1 hp ?_
    obtain ⟨c, cs, hc⟩ := List.exists_cons_of_ne_nil hgap
    have hb : isBlank c = true :=
      isBlank_of_space_or_tab (gapOf_blank _ c (by rw [hc]; simp))
    cases pending with
    | nil =>
      rw [List.nil_append] at hc
      simpa [textAfter, hc] using hb
    | cons x pending =>
      have hx : x.before = c :: cs := hc
      simpa [textAfter, Item.textAfter, hx] using hb
  · subst he
    rw [← List.append_assoc] at hchain
    exact written_items (List.isChain_of_isChain_cons (List.isChain_append.1 hchain).2.1) false

end Setting
end Parlance.Wording
