import Parlance.Proofs.Phrase.Lexis
import Parlance.Proofs.Phrase.Processing
import Parlance.Proofs.Script.Source
import Parlance.Proofs.Script.Term

/-! Reading a written expression gives its tree back, whichever of its operators are phrases. The
tokens of the expression have a derivation of the tree, and they are what the lexer finds once the
phrases were replaced. -/

namespace Parlance

namespace Grammar

/-! Scripts of one statement. -/

theorem not_continues_of_endOfInput {used : List Token} {last : Token}
    (h : last.kind = .endOfInput) : ∀ t ∈ [last].head?, ¬Continues used t := by
  rintro _ ⟨⟩ (⟨s, op, ⟨hk, -⟩ | ⟨k, hk, -⟩⟩ | ⟨hk, -⟩ | ⟨hk, -⟩) <;> simp [h] at hk

theorem statement_of_expression {used : List Token} {e : Node} (h : Derives .assignment used e)
    (n : Nat) (rest : List Token) : statement (n + 1) (used ++ rest) =
      expressionStatement (expression (n + 1)) (used ++ rest) := by
  obtain ⟨t, us, rfl, ht | ⟨-, op, ⟨hk, -⟩ | ⟨hk, -⟩⟩⟩ := h.exists_cons
  · simp only [StartsPrimary, List.mem_cons, List.not_mem_nil, or_false] at ht
    rcases ht with hk | hk | hk | hk | hk | hk | hk <;> simp only [statement, List.cons_append, hk]
  · simp only [statement, List.cons_append, hk]
  · simp only [statement, List.cons_append, hk]

theorem statement_of_derives {used : List Token} {e : Node} (h : Derives .assignment used e)
    {last : Token} (hlast : last.kind = .endOfInput) {n : Nat} (hn : used.length < n) :
    statement n (used ++ [last]) = .ok (e, [last]) := by
  obtain ⟨m, rfl⟩ : ∃ m, n = m + 1 := ⟨n - 1, by omega⟩
  have hread := expression_complete h (not_continues_of_endOfInput hlast) hn
  rw [statement_of_expression h]
  exact bind_eq_ok.2 ⟨e, [last], hread,
    bind_eq_ok.2 ⟨false, [last], accept_eq_ok.2 (.inr (by simp [nextIs, hlast])), rfl⟩⟩

theorem declaration_of_derives {used : List Token} {e : Node} (h : Derives .assignment used e)
    {var name equals last : Token} (hvar : var.kind = .keyword .varWord)
    (hname : name.kind = .identifier) (hequals : IsEquals equals)
    (hlast : last.kind = .endOfInput) {n : Nat} (hn : used.length < n) :
    statement n (var :: name :: equals :: (used ++ [last])) =
      .ok (.assign name.text e, [last]) := by
  obtain ⟨m, rfl⟩ : ∃ m, n = m + 1 := ⟨n - 1, by omega⟩
  have hread := expression_complete h (not_continues_of_endOfInput hlast) hn
  simp only [statement, hvar]
  refine bind_eq_ok.2 ⟨name.text, equals :: (used ++ [last]),
    expectName_eq_ok.2 ⟨name, rfl, hname, rfl⟩, bind_eq_ok.2 ⟨_, _, rfl, ?_⟩⟩
  simp only [if_pos (isOperator_equals_iff.2 hequals)]
  exact bind_eq_ok.2 ⟨(), used ++ [last], rfl, bind_eq_ok.2 ⟨e, [last], hread, rfl⟩⟩

theorem readScript_of_statement {t last : Token} {us : List Token} {node : Node}
    (hline : t.kind ≠ .endOfLine) (hinput : t.kind ≠ .endOfInput) (hlast : last.kind = .endOfInput)
    (h : statement ((t :: us).length + 2) (t :: us ++ [last]) = .ok (node, [last])) :
    readScript (t :: us ++ [last]) = .ok (.block [node]) := by
  have hdrop : dropLineEnds (t :: us ++ [last]) = t :: us ++ [last] := by
    simp [dropLineEnds, hline]
  have hend : atEnd (dropLineEnds [last]) = true := by simp [dropLineEnds, hlast, atEnd]
  have hlength : (t :: us ++ [last]).length + 1 = (t :: us).length + 2 := by simp
  refine readScript_eq_ok.2 ⟨dropLineEnds [last], ?_⟩
  rw [hlength]
  refine (sequence_succ_eq_ok ?_).2 ⟨node, [last], [], ?_, sequence_of_stop hend, rfl⟩
  · rw [hdrop]
    simp [atEnd, hinput]
  · rw [hdrop]
    exact h

theorem readScript_of_derives {used : List Token} {e : Node} (h : Derives .assignment used e)
    {last : Token} (hlast : last.kind = .endOfInput) :
    readScript (used ++ [last]) = .ok (.block [e]) := by
  have hread : statement (used.length + 2) (used ++ [last]) = .ok (e, [last]) :=
    statement_of_derives h hlast (by omega)
  have hstart : ∃ t us, used = t :: us ∧ t.kind ≠ .endOfLine ∧ t.kind ≠ .endOfInput := by
    obtain ⟨t, us, rfl, ht | ⟨-, op, ⟨hk, -⟩ | ⟨hk, -⟩⟩⟩ := h.exists_cons
    · simp only [StartsPrimary, List.mem_cons, List.not_mem_nil, or_false] at ht
      rcases ht with hk | hk | hk | hk | hk | hk | hk <;> exact ⟨t, us, rfl, by simp [hk]⟩
    · exact ⟨t, us, rfl, by simp [hk]⟩
    · exact ⟨t, us, rfl, by simp [hk]⟩
  obtain ⟨t, us, rfl, hline, hinput⟩ := hstart
  exact readScript_of_statement hline hinput hlast hread

theorem readScript_of_declaration {used : List Token} {e : Node} (h : Derives .assignment used e)
    {var name equals last : Token} (hvar : var.kind = .keyword .varWord)
    (hname : name.kind = .identifier) (hequals : IsEquals equals)
    (hlast : last.kind = .endOfInput) :
    readScript (var :: name :: equals :: used ++ [last]) = .ok (.block [.assign name.text e]) :=
  readScript_of_statement (by simp [hvar]) (by simp [hvar]) hlast
    (declaration_of_derives h hvar hname hequals hlast (by simp; omega))

end Grammar

namespace Wording
open Grammar (Stratum Derives CommaJoined WritesUnary IsEquals)
open Text (takeWhile_append_stop dropWhile_append_stop)
open Source (unplaced)
open Token (Kind)

/-! The number that digits stand for. -/

theorem readDigits_of_digits {whole : List Char} (hne : whole ≠ [])
    (hwhole : ∀ c ∈ whole, c.isDigit = true) :
    Decimal.readDigits whole = some (Decimal.nearest (Decimal.natOfDigits whole) 0) := by
  have hend : ([] : List Char).head?.any Char.isDigit = false := rfl
  have hsome : whole.isEmpty = false := by simpa using hne
  rw [← List.append_nil whole, Decimal.readDigits]
  simp only [takeWhile_append_stop hwhole hend, dropWhile_append_stop hwhole hend, hsome,
    List.takeWhile_nil, Bool.false_and]
  simp [Decimal.readExponent]

theorem readDigits_of_point {whole fraction : List Char} (hne : whole ≠ [])
    (hdigits : ∀ c ∈ whole ++ fraction, c.isDigit = true) :
    Decimal.readDigits (whole ++ '.' :: fraction) =
      some (Decimal.nearest (Decimal.natOfDigits (whole ++ fraction)) (-fraction.length)) := by
  have hwhole : ∀ c ∈ whole, c.isDigit = true := fun c hc => hdigits c (List.mem_append_left _ hc)
  have hfraction : ∀ c ∈ fraction, c.isDigit = true :=
    fun c hc => hdigits c (List.mem_append_right _ hc)
  have hend : ([] : List Char).head?.any Char.isDigit = false := rfl
  have hpoint : ('.' :: (fraction ++ [])).head?.any Char.isDigit = false := rfl
  have hsome : whole.isEmpty = false := by simpa using hne
  rw [← List.append_nil fraction, Decimal.readDigits]
  simp only [takeWhile_append_stop hwhole hpoint, dropWhile_append_stop hwhole hpoint, hsome,
    takeWhile_append_stop hfraction hend, dropWhile_append_stop hfraction hend, Bool.false_and]
  simp [Decimal.readExponent]

theorem Numeral.readDigits_eq (n : Numeral) : Decimal.readDigits n.text = some n.value := by
  by_cases hf : n.fraction = []
  · have htext : n.text = n.whole := by simp [Numeral.text, hf]
    rw [htext, readDigits_of_digits n.nonempty fun c hc => n.digits c (List.mem_append_left _ hc)]
    simp [value, hf]
  · have htext : n.text = n.whole ++ '.' :: n.fraction := by simp [Numeral.text, hf]
    rw [htext, readDigits_of_point n.nonempty n.digits]
    rfl

theorem read_of_readDigits {cs : List Char} {x : Float} (hdigit : cs.head?.any Char.isDigit = true)
    (h : Decimal.readDigits cs = some x) : Decimal.read cs = .ok x := by
  have hempty : cs.isEmpty = false := by
    cases cs with
    | nil => cases hdigit
    | cons c cs => rfl
  have hsign : Decimal.takeSign cs = (false, cs) := by
    unfold Decimal.takeSign
    split
    · cases hdigit
    · cases hdigit
    · rfl
  have hword : String.ofList (cs.map Char.toLower) ∉ ["inf", "infinity", "nan"] :=
    not_mem_of_isDigit hdigit (by decide)
  have hunsigned : Decimal.readUnsigned cs = some x := by
    simp only [List.mem_cons, List.not_mem_nil, or_false, not_or] at hword
    simp [Decimal.readUnsigned, hword, h]
  simp [Decimal.read, hempty, hsign, hunsigned]

theorem Numeral.read_eq (n : Numeral) : Decimal.read n.text = .ok n.value :=
  read_of_readDigits
    (head_any_isDigit n.nonempty (fun c hc => n.digits c (List.mem_append_left _ hc)) _)
    n.readDigits_eq

/-! The tokens of an expression. -/

def tokensOf (items : List Item) : List Token := items.map fun x => unplaced x.atom.content

theorem tokensOf_append (xs ys : List Item) : tokensOf (xs ++ ys) = tokensOf xs ++ tokensOf ys :=
  List.map_append

theorem tokensOf_cons (x : Item) (xs : List Item) :
    tokensOf (x :: xs) = unplaced x.atom.content :: tokensOf xs := rfl

theorem tokensOf_pad (b : Blanks) (items : List Item) : tokensOf (pad b items) = tokensOf items := by
  cases items <;> rfl

theorem tokensOf_parens (items : List Item) : tokensOf (parens items) =
    unplaced (mark .leftParen).atom.content ::
      (tokensOf items ++ [unplaced (mark .rightParen).atom.content]) := by
  simp [tokensOf, parens]

theorem commaJoined_listed (parts : List (List Item)) :
    CommaJoined (parts.map tokensOf) (tokensOf (listed parts)) := by
  fun_induction listed parts with
  | case1 => exact .none
  | case2 part => exact .one _
  | case3 part next parts ih =>
    rw [tokensOf_append, tokensOf_cons, tokensOf_pad]
    exact .more rfl ih

theorem derives_parens {items : List Item} {e : Node}
    (h : Derives .assignment (tokensOf items) e) : Derives .primary (tokensOf (parens items)) e := by
  rw [tokensOf_parens]
  exact .group rfl rfl h

theorem derives_wrap {s found : Stratum} {items : List Item} {e : Node}
    (h : Derives found (tokensOf items) e) : Derives s (tokensOf (wrap s found items)) e := by
  unfold wrap
  split
  · next hs => exact h.loosen hs
  · exact (derives_parens (h.loosen (Nat.zero_le _))).loosen s.rank_le

theorem writes_of_mem {op : BinaryOp} {t : Kind × String} (h : t ∈ binarySigns op) :
    (stratumOf op).Writes (unplaced t) op := by
  cases op with
  | or | and =>
    simp only [binarySigns, List.mem_cons, List.not_mem_nil, or_false] at h
    rcases h with rfl | rfl
    · exact .inl ⟨rfl, by decide⟩
    · exact .inr ⟨_, rfl, rfl⟩
  | other text => exact absurd h List.not_mem_nil
  | _ =>
    rw [List.mem_singleton.1 h]
    exact .inl ⟨rfl, by decide⟩

theorem writesUnary_of_mem {op : UnaryOp} {t : Kind × String} (h : t ∈ unarySigns op) :
    WritesUnary (unplaced t) op := by
  cases op with
  | neg | bang =>
    rw [List.mem_singleton.1 h]
    exact .inl ⟨rfl, by decide⟩
  | not =>
    rw [List.mem_singleton.1 h]
    exact .inr ⟨rfl, rfl⟩
  | other text => exact absurd h List.not_mem_nil

theorem Term.derives (t : Term) : Derives t.stratum (tokensOf t.items) t.node := by
  induction t using Term.induction with
  | number n =>
    rw [items, node]
    exact .number rfl (by simpa [unplaced, bare, Atom.content] using n.read_eq)
  | text l =>
    rw [items, node]
    exact .text rfl
  | bool b =>
    rw [items, node]
    cases b with
    | true => exact .truth rfl
    | false => exact .falsehood rfl
  | null =>
    rw [items, node]
    exact .null rfl
  | name x =>
    rw [items, node]
    exact .path rfl
  | call x args ih =>
    have hfirst : (args.map fun t => (tokensOf t.items, t.node)).map (·.1) =
        (args.map items).map tokensOf := by
      simp [Function.comp_def]
    have hsecond : (args.map fun t => (tokensOf t.items, t.node)).map (·.2) = args.map node := by
      simp [Function.comp_def]
    have hargs : ∀ arg ∈ args.map fun t => (tokensOf t.items, t.node),
        Derives .assignment arg.1 arg.2 := by
      intro arg ha
      obtain ⟨t, ht, rfl⟩ := List.mem_map.1 ha
      exact (ih t ht).loosen (Nat.zero_le _)
    have hjoined := commaJoined_listed (args.map items)
    rw [← hfirst] at hjoined
    rw [items, node, tokensOf_cons, tokensOf_parens, ← hsecond]
    exact .call rfl rfl rfl hjoined hargs
  | assign x before after value ih =>
    rw [items, node, tokensOf_cons, tokensOf_cons, tokensOf_pad]
    have hname : Derives .or [unplaced (.identifier, String.ofList x.text)]
        (.path (String.ofList x.text)) := (Derives.path rfl).loosen (by decide)
    exact .assign hname ⟨rfl, rfl⟩ (ih.loosen (Nat.zero_le _))
  | unary op w before after operand ih =>
    rw [items, node, tokensOf_cons, tokensOf_pad]
    refine .unary ?_ (derives_wrap ih)
    cases before <;> exact writesUnary_of_mem (w.content_mem _)
  | binary op w before after left right hleft hright =>
    rw [items, node, tokensOf_append, tokensOf_cons, tokensOf_pad]
    exact .binary (derives_wrap hleft) (writes_of_mem (w.content_mem _)) (derives_wrap hright)
  | group inner ih =>
    rw [items, node]
    exact derives_parens (ih.loosen (Nat.zero_le _))

/-! The text of an expression. -/

def Term.source (t : Term) : String := String.ofList (textAfter [] t.items)

def Setting.source (s : Setting) (b : Blanks) (t : Term) : String :=
  String.ofList (s.text ++ textAfter [] (pad b t.items))

theorem parse_items {items : List Item} (hchain : items.IsChain Fits) {text : String}
    (htext : Source.process Phrasebook.english.reword text.toList =
      items.flatMap Item.canonical) {e : Node}
    (hread : Grammar.readScript (tokensOf items ++ [unplaced Token.ending]) = .ok (.block [e])) :
    Source.parse .english text = .ok (.block [e]) := by
  have hlexes := lexes_items hchain
  rw [← htext] at hlexes
  refine Source.parse_of_lexes hlexes ?_
  rwa [List.map_append, List.map_map]

theorem Term.parse_source (t : Term) : Source.parse .english t.source = .ok (.block [t.node]) := by
  have hchain := t.operand.chain
  refine parse_items hchain ?_ ?_
  · rw [source, String.toList_ofList, process_items hchain]
  · exact Grammar.readScript_of_derives (t.derives.loosen (Nat.zero_le _)) rfl

theorem gapOf_pad {items : List Item} (h : items ≠ []) (b : Blanks) : gapOf (pad b items) ≠ [] := by
  obtain ⟨x, rest, rfl⟩ := List.exists_cons_of_ne_nil h
  exact List.append_ne_nil_of_left_ne_nil b.nonempty _

theorem Setting.chain (s : Setting) (b : Blanks) (t : Term) :
    (s.items ++ pad b t.items).IsChain Fits := by
  have hitems : s.items.IsChain Fits := by
    refine List.isChain_cons_cons.2 ⟨⟨.inr (.inr (by simp)), nofun⟩, ?_⟩
    exact List.isChain_cons_cons.2 ⟨⟨.inr (.inr (by simp)), nofun⟩, .singleton _⟩
  refine List.isChain_append.2 ⟨hitems, (t.operand.pad b).chain, ?_⟩
  rintro x - y hy
  exact t.operand.fits_pad b y hy

theorem Setting.parse_source (s : Setting) (b : Blanks) (t : Term) :
    Source.parse .english (s.source b t) =
      .ok (.block [.assign (String.ofList s.name.text) t.node]) := by
  have hchain := s.chain b t
  refine parse_items hchain ?_ ?_
  · rw [source, String.toList_ofList, s.process_eq hchain (gapOf_pad t.operand.nonempty b)]
  · rw [tokensOf_append, tokensOf_pad]
    exact Grammar.readScript_of_declaration (t.derives.loosen (Nat.zero_le _)) rfl rfl ⟨rfl, rfl⟩ rfl

/-! The expression with signs only. -/

theorem Term.node_plain (t : Term) : t.plain.node = t.node := by
  induction t using Term.induction with
  | number | text | bool | null | name => simp [plain]
  | call x args ih => simpa [plain, node] using ih
  | assign x before after value ih => rw [plain, node, node, ih]
  | unary op w before after operand ih => rw [plain, node, node, ih]
  | binary op w before after left right hleft hright => rw [plain, node, node, hleft, hright]
  | group inner ih => rw [plain, node, node, ih]

def wordless (items : List Item) : Bool := items.all fun x => !x.atom.isPhrase

theorem wordless_append (xs ys : List Item) :
    wordless (xs ++ ys) = (wordless xs && wordless ys) := List.all_append

theorem wordless_cons (x : Item) (xs : List Item) :
    wordless (x :: xs) = (!x.atom.isPhrase && wordless xs) := rfl

theorem wordless_pad (b : Blanks) (items : List Item) : wordless (pad b items) = wordless items := by
  cases items <;> rfl

theorem wordless_parens (items : List Item) : wordless (parens items) = wordless items := by
  rw [parens, wordless_cons, wordless_append]
  exact Bool.and_true _

theorem wordless_wrap (s found : Stratum) (items : List Item) :
    wordless (wrap s found items) = wordless items := by
  unfold wrap
  split
  · rfl
  · exact wordless_parens items

theorem wordless_listed {parts : List (List Item)} (h : ∀ part ∈ parts, wordless part = true) :
    wordless (listed parts) = true := by
  fun_induction listed parts with
  | case1 => rfl
  | case2 part => exact h part (by simp)
  | case3 part next parts ih =>
    have h' := List.forall_mem_cons.1 h
    rw [wordless_append, wordless_cons, wordless_pad, h'.1, ih h'.2]
    rfl

theorem Term.wordless_plain (t : Term) : wordless t.plain.items = true := by
  induction t using Term.induction with
  | number | text | null | name =>
    simp only [plain, items]
    rfl
  | bool b =>
    simp only [plain, items]
    cases b <;> rfl
  | call x args ih =>
    have hparts : ∀ part ∈ (args.map plain).map items, wordless part = true := by
      intro part hp
      obtain ⟨_, hu, rfl⟩ := List.mem_map.1 hp
      obtain ⟨t, ht, rfl⟩ := List.mem_map.1 hu
      exact ih t ht
    rw [plain, items, wordless_cons, wordless_parens, wordless_listed hparts]
    rfl
  | assign x before after value ih =>
    rw [plain, items, wordless_cons, wordless_cons, wordless_pad, ih]
    rfl
  | unary op w before after operand ih =>
    have hsign := w.isPhrase_plain (unarySigns_subset op)
    rw [plain, items, wordless_cons, wordless_pad, wordless_wrap, ih, Bool.and_true,
      Bool.not_eq_true']
    cases before <;> exact hsign
  | binary op w before after left right hleft hright =>
    have hsign : (spaced before (w.plain.atom (binarySigns_subset op))).atom.isPhrase = false :=
      w.isPhrase_plain (binarySigns_subset op)
    rw [plain, items, wordless_append, wordless_cons, wordless_pad, wordless_wrap, wordless_wrap,
      hleft, hright, hsign]
    rfl
  | group inner ih => rw [plain, items, wordless_parens, ih]

/-- Whichever operators are written as phrases, an expression is read as its tree, as it is if all of
them are signs; and the words `set … to` before an expression are read as an assignment. -/
theorem parse_phrases_as_signs (t : Term) (s : Setting) (before after : Blanks) :
    wordless t.plain.items = true ∧
    Source.parse .english t.source = .ok (.block [t.node]) ∧
    Source.parse .english t.plain.source = .ok (.block [t.node]) ∧
    Source.parse .english (s.source after t) =
      .ok (.block [.assign (String.ofList s.name.text) t.node]) ∧
    Source.parse .english (Term.assign s.name before after t.plain).source =
      .ok (.block [.assign (String.ofList s.name.text) t.node]) := by
  refine ⟨t.wordless_plain, t.parse_source, ?_, s.parse_source after t, ?_⟩
  · rw [t.plain.parse_source, t.node_plain]
  · rw [Term.parse_source, Term.node, t.node_plain]

theorem parse_phrases_as_signs_comparison :
    Source.parse .english "set total to a.b Is\tGREATER  than minus 2.5" =
      .ok (.block [.assign "total" (.binary .gt (.path "a.b")
        (.unary .neg (.literal (.number (Decimal.nearest 25 (-1))))))]) := by
  let one : Blanks := ⟨[' '], by decide, by decide⟩
  let two : Blanks := ⟨[' ', ' '], by decide, by decide⟩
  let tab : Blanks := ⟨['\t'], by decide, by decide⟩
  let total : Name := ⟨⟨"total".toList, by decide, by decide, by decide, by decide⟩, []⟩
  let path : Name := ⟨⟨"a".toList, by decide, by decide, by decide, by decide⟩,
    [⟨"b".toList, by decide, by decide, by decide, by decide⟩]⟩
  have hspells : Spells ["is", "greater", "than"]
      ("Is".toList ++ (tab.text ++ ("GREATER".toList ++ (two.text ++ "than".toList)))) :=
    .more tab rfl (.more two rfl (.last rfl))
  let greater : Written (binarySigns .gt) :=
    .phrase (["is", "greater", "than"], ">") (by decide) (by decide) _ hspells
  let minus : Written (unarySigns .neg) :=
    .phrase (["minus"], "-") (by decide) (by decide) "minus".toList (.last rfl)
  let value : Term := .binary .gt greater one one (.name path)
    (.unary .neg minus none one (.number ⟨"2".toList, "5".toList, by decide, by decide⟩))
  let s : Setting := ⟨"set".toList, one, total, one, "to".toList, rfl, rfl⟩
  have hsource : s.source one value = "set total to a.b Is\tGREATER  than minus 2.5" := by
    simp only [Setting.source, value, Term.items]
    rfl
  have h := (parse_phrases_as_signs value s one one).2.2.2.1
  simp only [value, Term.node] at h
  rw [← hsource]
  exact h

end Wording

end Parlance
