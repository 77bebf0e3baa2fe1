import Parlance.Proofs.Phrase.Items
import Parlance.Proofs.Token.Lexing

/-! The canonical text of written tokens is cut into exactly these tokens. A token stands before a
space, or one of the two tokens at a seam is a delimiter or a text, which no character can join. -/

namespace Parlance.Wording
open Text Pattern Phrasebook
open Token (Kind Lexes Lexeme opening continuesName isOperatorChar nameKind)

def stops (c : Char) : Bool := !continuesName c && !isOperatorChar c

theorem any_of_stops {p : Char → Bool} {rest : List Char} (hr : rest.head?.all stops = true)
    (hp : ∀ c, stops c = true → p c = false) : rest.head?.any p = false := by
  cases rest with
  | nil => rfl
  | cons c rest => exact hp c hr

theorem continuesName_of_stops {c : Char} (h : stops c = true) : continuesName c = false := by
  rw [stops, Bool.and_eq_true, Bool.not_eq_true'] at h
  exact h.1

theorem isOperatorChar_of_stops {c : Char} (h : stops c = true) : isOperatorChar c = false := by
  rw [stops, Bool.and_eq_true, Bool.not_eq_true', Bool.not_eq_true'] at h
  exact h.2

theorem lexes_plain {kind : Kind} {c : Char} {cs rest : List Char}
    (h : Lexeme.first c (cs ++ rest) = .ok (.plain kind (c :: cs) rest)) :
    Lexes (c :: cs ++ rest) [(kind, String.ofList (c :: cs))] rest := .step h (.done rest)

theorem lexes_name {c : Char} {cs rest : List Char} (hc : opening c = .name)
    (hcs : ∀ d ∈ cs, continuesName d = true) (hr : rest.head?.all stops = true) :
    Lexes (c :: cs ++ rest) [(nameKind (String.ofList (c :: cs)), String.ofList (c :: cs))] rest := by
  have hstop := any_of_stops hr fun _ => continuesName_of_stops
  refine lexes_plain ?_
  rw [Token.first_eq, hc]
  simp only [takeWhile_append_stop hcs hstop, dropWhile_append_stop hcs hstop]

/-! Fixed tokens. -/

def readsBack (t : Kind × String) : Bool :=
  match t.2.toList with
  | [] => false
  | c :: cs =>
    match t.1 with
    | .keyword k => opening c = .name && cs.all continuesName && nameKind t.2 = .keyword k
    | .operator => opening c = .operator && cs.all isOperatorChar
    | .delimiter d => opening c = .delimiter d && cs.isEmpty
    | _ => false

theorem readsBack_of_mem : ∀ t ∈ fixedTokens, readsBack t = true := by decide

theorem lexes_fixed {t : Kind × String} (h : t ∈ fixedTokens) {rest : List Char}
    (hr : isDelimiter t.1 = true ∨ rest.head?.all stops = true) :
    Lexes (t.2.toList ++ rest) [t] rest := by
  have hb := readsBack_of_mem t h
  obtain ⟨kind, text⟩ := t
  simp only [readsBack] at hb
  split at hb
  · cases hb
  · next c cs hcs =>
    have htext : text = String.ofList (c :: cs) := by rw [← hcs, String.ofList_toList]
    simp only [hcs]
    rw [htext]
    cases kind with
    | keyword k =>
      simp only [Bool.and_eq_true, decide_eq_true_eq, List.all_eq_true] at hb
      rw [← hb.2, htext]
      exact lexes_name hb.1.1 hb.1.2 (hr.resolve_left Bool.false_ne_true)
    | operator =>
      simp only [Bool.and_eq_true, decide_eq_true_eq, List.all_eq_true] at hb
      have hstop := any_of_stops (hr.resolve_left Bool.false_ne_true) fun _ => isOperatorChar_of_stops
      refine lexes_plain ?_
      rw [Token.first_eq, hb.1]
      simp only [takeWhile_append_stop hb.2 hstop, dropWhile_append_stop hb.2 hstop]
    | delimiter d =>
      simp only [Bool.and_eq_true, decide_eq_true_eq, List.isEmpty_iff] at hb
      obtain ⟨hc, rfl⟩ := hb
      refine lexes_plain ?_
      rw [Token.first_eq, hc]
      rfl
    | identifier | number | string | endOfLine | endOfInput => cases hb

/-! Names, numbers and text. -/

theorem nameKind_eq_identifier (x : Name) : nameKind (String.ofList x.text) = .identifier := by
  have hfree : ∀ k ∈ Keyword.all, '.' ∉ k.spelling.toList ∧
      k.spelling.toList.map Char.toLower = k.spelling.toList ∧ k.spelling ∈ reserved := by
    decide
  have hnone : Keyword.ofSpelling? (String.ofList x.text) = none := by
    refine List.find?_eq_none.2 fun k hk he => ?_
    obtain ⟨hdot, hlower, hmem⟩ := hfree k hk
    have htext : k.spelling.toList = x.text := by
      rw [beq_iff_eq] at he
      rw [he, String.toList_ofList]
    cases ho : x.others with
    | nil =>
      have hfirst : x.first.text = k.spelling.toList := by simp [htext, Name.text, ho]
      refine x.first.free ?_
      rwa [hfirst, hlower, String.ofList_toList]
    | cons s others =>
      refine hdot ?_
      rw [htext, Name.text, ho]
      simp
  rw [nameKind, hnone]

theorem opening_of_isNameChar {c : Char} (h : isNameChar c = true) :
    opening c = if c.isDigit then .digit else .name := by
  simpa using forall_isNameChar (p := fun c =>
    decide (opening c = if c.isDigit then .digit else .name)) (by decide) h

theorem Name.lexes (x : Name) {rest : List Char} (hr : rest.head?.all stops = true) :
    Lexes (x.text ++ rest) [(.identifier, String.ofList x.text)] rest := by
  obtain ⟨c, ds, hc⟩ := List.exists_cons_of_ne_nil x.first.nonempty
  have htext : x.text = c :: (ds ++ x.others.flatMap fun s => '.' :: s.text) := by
    simp [Name.text, hc]
  have hopen : opening c = .name := by
    rw [opening_of_isNameChar (x.first.chars c (by simp [hc])), x.first.start c (by simp [hc])]
    rfl
  have hcs : ∀ d ∈ ds ++ x.others.flatMap fun s => '.' :: s.text, continuesName d = true := by
    intro d hd
    rcases List.mem_append.1 hd with hd | hd
    · exact continuesName_of_isNameChar (x.first.chars d (by simp [hc, hd]))
    · obtain ⟨s, -, hd⟩ := List.mem_flatMap.1 hd
      rcases List.mem_cons.1 hd with rfl | hd
      · decide
      · exact continuesName_of_isNameChar (s.chars d hd)
  have h := lexes_name hopen hcs hr
  rwa [← htext, nameKind_eq_identifier] at h

theorem isDigit_of_stops {c : Char} (h : stops c = true) : c.isDigit = false := by
  rw [Bool.eq_false_iff]
  intro hd
  have hc := continuesName_of_isNameChar (isNameChar_of_isDigit hd)
  simp [continuesName_of_stops h] at hc

theorem Numeral.number_eq (n : Numeral) {rest : List Char} (hr : rest.head?.all stops = true) :
    Lexeme.number (n.text ++ rest) = .plain .number n.text rest := by
  have hwhole : ∀ c ∈ n.whole, c.isDigit = true :=
    fun c hc => n.digits c (List.mem_append_left _ hc)
  have hfraction : ∀ c ∈ n.fraction, c.isDigit = true :=
    fun c hc => n.digits c (List.mem_append_right _ hc)
  have hstop := any_of_stops hr fun _ => isDigit_of_stops
  rw [Numeral.text]
  split
  · rw [List.append_nil, Lexeme.number]
    simp only [takeWhile_append_stop hwhole hstop, dropWhile_append_stop hwhole hstop]
    have hdot : ¬stops '.' = true := by decide
    split
    · exact absurd hr hdot
    · rfl
  · have hpoint : ('.' :: (n.fraction ++ rest)).head?.any Char.isDigit = false := rfl
    rw [List.append_assoc, List.cons_append, Lexeme.number]
    simp only [takeWhile_append_stop hwhole hpoint, dropWhile_append_stop hwhole hpoint,
      takeWhile_append_stop hfraction hstop, dropWhile_append_stop hfraction hstop]

theorem Numeral.lexes (n : Numeral) {rest : List Char} (hr : rest.head?.all stops = true) :
    Lexes (n.text ++ rest) [(.number, String.ofList n.text)] rest := by
  obtain ⟨c, ds, hc⟩ := List.exists_cons_of_ne_nil n.nonempty
  obtain ⟨cs, htext⟩ : ∃ cs, n.text = c :: cs := ⟨_, by rw [Numeral.text, hc]; rfl⟩
  have hdigit : c.isDigit = true := n.digits c (by simp [hc])
  have hopen : opening c = .digit := by
    rw [opening_of_isNameChar (isNameChar_of_isDigit hdigit), if_pos hdigit]
  have hnumber := n.number_eq hr
  rw [htext] at hnumber ⊢
  refine lexes_plain ?_
  rw [Token.first_eq, hopen]
  exact congrArg Except.ok hnumber

theorem contents_letters {quote : Char} (hquote : quote ≠ '\\') {letters : List Letter}
    (h : ∀ l ∈ letters, l.Fits quote) (rest : List Char) :
    Lexeme.contents quote (letters.flatMap Letter.text ++ quote :: rest) =
      some (letters.map Letter.value, letters.flatMap Letter.text ++ [quote], rest) := by
  induction letters with
  | nil => exact Token.contents_quote hquote rest
  | cons l letters ih =>
    have h' := List.forall_mem_cons.1 h
    cases l with
    | plain c =>
      rw [List.flatMap_cons, Letter.text, List.append_assoc, List.singleton_append,
        Token.contents_cons h'.1.1 h'.1.2, ih h'.2, Option.map_some]
      rfl
    | escaped c => simp [Letter.text, Lexeme.contents, ih h'.2, Letter.value]

theorem Literal.lexes (l : Literal) (rest : List Char) :
    Lexes (l.text ++ rest) [(.string, l.value)] rest := by
  have hopen : opening l.quote = .quote := Source.opening_of_isQuote l.isQuote
  have hne : l.quote ≠ '\\' := Source.ne_backslash_of_isQuote l.isQuote
  have hfirst : Lexeme.first l.quote (l.body ++ [l.quote] ++ rest) =
      .ok ⟨some .string, l.letters.map Letter.value, l.text, rest⟩ := by
    rw [Token.first_eq, hopen, List.append_assoc, List.singleton_append, Literal.body]
    simp only [contents_letters hne l.fits]
    rfl
  exact .step hfirst (.done rest)

/-! Token after token. -/

theorem Atom.lexes (x : Atom) {rest : List Char}
    (hr : x.tight = true ∨ rest.head?.all stops = true) :
    Lexes (x.textAfter wordings ++ rest) [x.content] rest := by
  have hsigns : ∀ r ∈ wordings, (Kind.operator, r.2) ∈ fixedTokens := by decide
  cases x with
  | name x => exact x.lexes (hr.resolve_left Bool.false_ne_true)
  | numeral n => exact n.lexes (hr.resolve_left Bool.false_ne_true)
  | literal l => exact l.lexes rest
  | fixed t h => exact lexes_fixed h hr
  | phrase r h text hs =>
    rw [textAfter, if_pos h]
    exact lexes_fixed (hsigns r h) (.inr (hr.resolve_left Bool.false_ne_true))

theorem Atom.stops_of_tight {x : Atom} (h : x.tight = true) (rest : List Char) :
    (x.textAfter wordings ++ rest).head?.all stops = true := by
  have hfixed : ∀ t ∈ fixedTokens, isDelimiter t.1 = true →
      t.2.toList ≠ [] ∧ t.2.toList.head?.all stops = true := by
    decide
  cases x with
  | literal l =>
    have hq : (l.quote = '"' ∨ l.quote = '\'') := by simpa [Source.isQuote] using l.isQuote
    show stops l.quote = true
    rcases hq with h | h <;> rw [h] <;> decide
  | fixed t ht =>
    obtain ⟨hne, hs⟩ := hfixed t ht h
    obtain ⟨c, cs, hc⟩ := List.exists_cons_of_ne_nil hne
    rw [hc] at hs
    rw [textAfter, hc]
    exact hs
  | name | numeral | phrase => cases h

theorem lexes_items {items : List Item} (hchain : items.IsChain Fits) :
    Lexes (items.flatMap Item.canonical) (items.map (·.atom.content)) [] := by
  induction items with
  | nil => exact .done []
  | cons x items ih =>
    have hrest := ih (List.isChain_of_isChain_cons hchain)
    have hstop : x.atom.tight = true ∨ (items.flatMap Item.canonical).head?.all stops = true := by
      cases items with
      | nil => exact .inr rfl
      | cons y items =>
        have hspace : stops ' ' = true := by decide
        rw [List.flatMap_cons, Item.canonical, List.append_assoc]
        by_cases hb : y.before = []
        · refine (List.isChain_cons_cons.1 hchain).1.apart.imp_right fun h => ?_
          rw [space, if_pos hb]
          exact Atom.stops_of_tight (h.resolve_right fun hne => hne hb) _
        · rw [space, if_neg hb]
          exact .inr hspace
    have hatom := (x.atom.lexes hstop).append hrest
    rw [List.flatMap_cons, Item.canonical, List.append_assoc]
    by_cases hb : x.before = []
    · simpa [space, hb] using hatom
    · simp only [space, hb, if_false]
      exact Lexes.step (l := .gap [' '] _) rfl hatom

end Parlance.Wording
