import Parlance.Proofs.Text.Variants
import Parlance.Proofs.Token.Lines

/-! The lexical grammar, said without the lexer: which texts are names, numbers, operators, delimiters
and line ends, what is written between quotes, and what may stand between lexemes. A lexeme is the
longest one of its form, and the first character decides the form. So one step of the lexer takes
exactly a gap or a lexeme of this grammar, and it is refused exactly where neither begins. -/

namespace Parlance

namespace Keyword

theorem ofSpelling?_spelling (k : Keyword) : ofSpelling? k.spelling = some k := by
  cases k <;> rfl

theorem mem_all (k : Keyword) : k ∈ all := by
  cases k <;> decide

end Keyword

namespace Token

inductive Form where
  | name
  | number
  | operator
  | delimiter (d : Delimiter)
  | lineEnd

namespace Form

def Spells : Form → List Char → Prop
  | name, l => ∃ c cs, l = c :: cs ∧ (Text.isAlphabetic c = true ∨ c = '_') ∧
      ∀ d ∈ cs, Text.isAlphanumeric d = true ∨ d = '_' ∨ d = '.'
  | number, l => ∃ whole fraction, whole ≠ [] ∧ (∀ c ∈ whole ++ fraction, c.isDigit = true) ∧
      (l = whole ∨ l = whole ++ '.' :: fraction)
  | operator, l => l ≠ [] ∧
      ∀ c ∈ l, c ∈ ['+', '-', '*', '/', '=', '<', '>', '!', '&', '|', '%', '^']
  | delimiter d, l => l = [d.char]
  | lineEnd, l => l = ['\n'] ∨ l = [';']

/-- The text is one of the form, and what follows cannot make it a longer one. -/
def LongestAt (form : Form) (l rest : List Char) : Prop :=
  form.Spells l ∧ ∀ l', l' <+: l ++ rest → form.Spells l' → l'.length ≤ l.length

/-- A text of the form is a token of this kind. A name that is spelt like a keyword is that keyword,
and no other name is one. -/
def Yields : Form → List Char → Kind → Prop
  | name, l, .keyword k => l = k.spelling.toList
  | name, l, .identifier => ∀ k : Keyword, l ≠ k.spelling.toList
  | number, _, .number => True
  | operator, _, .operator => True
  | delimiter d, _, .delimiter d' => d' = d
  | lineEnd, _, .endOfLine => True
  | _, _, _ => False

def opening : Form → Opening
  | name => .name
  | number => .digit
  | operator => .operator
  | delimiter d => .delimiter d
  | lineEnd => .lineEnd

end Form

def Escape (c d : Char) : Prop :=
  (c, d) ∈ [('n', '\n'), ('r', '\r'), ('t', '\t'), ('0', '\x00')] ∨
    c ∉ ['n', 'r', 't', '0'] ∧ d = c

/-- Between quotes the source `body` says `text`: the quote itself comes only after a backslash. -/
inductive Quoted (quote : Char) : List Char → List Char → Prop
  | nil : Quoted quote [] []
  | plain {c : Char} {body text : List Char} : c ≠ quote → c ≠ '\\' → Quoted quote body text →
      Quoted quote (c :: body) (c :: text)
  | escaped {c d : Char} {body text : List Char} : Escape c d → Quoted quote body text →
      Quoted quote ('\\' :: c :: body) (d :: text)

inductive Reads (rest : List Char) : List Char → Kind → List Char → Prop
  | plain {form : Form} {l : List Char} {kind : Kind} : form.LongestAt l rest →
      form.Yields l kind → Reads rest l kind l
  | string {quote : Char} {body text : List Char} : quote = '"' ∨ quote = '\'' →
      Quoted quote body text → Reads rest (quote :: (body ++ [quote])) .string text

/-- Blanks on one line and then perhaps a comment, which goes on to the end of the line. -/
inductive Gap : List Char → List Char → Prop
  | nil (rest : List Char) : Gap [] rest
  | blank {c : Char} {gap rest : List Char} : Text.isBlank c = true → c ≠ '\n' → Gap gap rest →
      Gap (c :: gap) rest
  | comment {cs rest : List Char} : (∀ c ∈ cs, c ≠ '\n') → (∀ c ∈ rest.head?, c = '\n') →
      Gap ('#' :: cs) rest

/-- Nothing can be read here: the character begins neither a gap nor a lexeme, whatever follows it, or
it is a quote that is never closed. -/
inductive Stuck : List Char → Refusal → Prop
  | unexpected {c : Char} {cs : List Char} : (∀ gap rest, ¬Gap (c :: gap) rest) →
      (∀ l rest kind text, ¬Reads rest (c :: l) kind text) → Stuck (c :: cs) (.unexpected c)
  | unterminated {quote : Char} {cs : List Char} : quote = '"' ∨ quote = '\'' →
      (∀ body text rest, Quoted quote body text → cs ≠ body ++ quote :: rest) →
      Stuck (quote :: cs) .unterminated

/-! What the first character says. -/

theorem startsName_iff {c : Char} :
    startsName c = true ↔ Text.isAlphabetic c = true ∨ c = '_' := by
  simp [startsName]

theorem continuesName_iff {c : Char} :
    continuesName c = true ↔ Text.isAlphanumeric c = true ∨ c = '_' ∨ c = '.' := by
  simp [continuesName, or_assoc]

theorem continuesName_of_startsName {c : Char} (h : startsName c = true) :
    continuesName c = true := by
  rw [startsName_iff] at h
  rw [continuesName_iff]
  refine h.elim (fun ha => .inl ?_) fun hu => .inr (.inl hu)
  simp [Text.isAlphanumeric, ha]

theorem isBlank_of_startsName {c : Char} (h : startsName c = true) : Text.isBlank c = false := by
  rw [Bool.eq_false_iff]
  intro hb
  have hc := (Text.table_of_isBlank hb).1.2
  rw [continuesName_of_startsName h] at hc
  cases hc

def Opening.Covers (c : Char) : Opening → Prop
  | .lineEnd => c = '\n' ∨ c = ';'
  | .blank => Text.isBlank c = true ∧ c ≠ '\n'
  | .comment => c = '#'
  | .name => startsName c = true
  | .digit => c.isDigit = true
  | .quote => c = '"' ∨ c = '\''
  | .operator => isOperatorChar c = true
  | .delimiter d => c = d.char
  | .nothing => True

theorem opening_covers (c : Char) : (opening c).Covers c := by
  unfold opening
  repeat' split
  · next hline => exact .inl hline
  · next hline hblank => exact ⟨hblank, hline⟩
  · next hcomment => exact hcomment
  · next hname => exact hname
  · next hdigit => exact hdigit
  · next hquote => simpa [Opening.Covers] using hquote
  · next hsemi => exact .inr hsemi
  · next hoperator => exact hoperator
  · next d hd =>
    have hchar : (d.char == c) = true :=
      List.find?_some (p := fun d : Delimiter => d.char == c) hd
    exact (eq_of_beq hchar).symm
  · trivial

theorem opening_of_isBlank {c : Char} (h : Text.isBlank c = true) (hn : c ≠ '\n') :
    opening c = .blank := by
  unfold opening
  rw [if_neg hn, if_pos h]

theorem opening_of_startsName {c : Char} (h : startsName c = true) : opening c = .name := by
  have hblank := isBlank_of_startsName h
  have hline : c ≠ '\n' := by
    rintro rfl
    exact absurd hblank (by decide)
  have hcomment : c ≠ '#' := by
    rintro rfl
    exact absurd h (by decide)
  unfold opening
  rw [if_neg hline, if_neg (by simp [hblank]), if_neg hcomment, if_pos h]

theorem opening_of_isDigit {c : Char} (h : c.isDigit = true) : opening c = .digit := by
  have hsmall : c.toNat < 128 := Nat.lt_of_le_of_lt (Char.isDigit_iff_toNat.1 h).2 (by decide)
  have hall := Text.forall_ascii (p := fun c => !c.isDigit || opening c == .digit)
    (by decide) hsmall
  simpa [h] using hall

theorem opening_of_isQuote {c : Char} (h : c = '"' ∨ c = '\'') : opening c = .quote := by
  rcases h with rfl | rfl <;> rfl

theorem Form.Spells.exists_cons {form : Form} {l : List Char} (h : form.Spells l) :
    ∃ c cs, l = c :: cs ∧ Token.opening c = form.opening := by
  cases form with
  | name =>
    obtain ⟨c, cs, rfl, hc, -⟩ := h
    exact ⟨c, cs, rfl, opening_of_startsName (startsName_iff.2 hc)⟩
  | number =>
    obtain ⟨whole, fraction, hne, hdigits, hl⟩ := h
    obtain ⟨c, cs, rfl⟩ := List.exists_cons_of_ne_nil hne
    have hc := opening_of_isDigit (hdigits c (by simp))
    rcases hl with rfl | rfl
    · exact ⟨c, cs, rfl, hc⟩
    · exact ⟨c, cs ++ '.' :: fraction, rfl, hc⟩
  | operator =>
    have hall : ∀ c ∈ ['+', '-', '*', '/', '=', '<', '>', '!', '&', '|', '%', '^'],
        Token.opening c = .operator := by decide
    obtain ⟨hne, hl⟩ := h
    obtain ⟨c, cs, rfl⟩ := List.exists_cons_of_ne_nil hne
    exact ⟨c, cs, rfl, hall c (hl c (by simp))⟩
  | delimiter d =>
    refine ⟨d.char, [], h, ?_⟩
    cases d <;> rfl
  | lineEnd =>
    rcases h with rfl | rfl
    · exact ⟨'\n', [], rfl, rfl⟩
    · exact ⟨';', [], rfl, rfl⟩

/-! Longest lexemes. -/

theorem length_le_takeWhile {p : Char → Bool} {l cs : List Char} (h : l <+: cs)
    (hl : ∀ c ∈ l, p c = true) : l.length ≤ (cs.takeWhile p).length := by
  obtain ⟨rest, rfl⟩ := h
  rw [List.takeWhile_append_of_pos hl, List.length_append]
  omega

theorem Form.LongestAt.unique {form : Form} {l l' rest rest' : List Char}
    (h : form.LongestAt l rest) (h' : form.LongestAt l' rest') (he : l ++ rest = l' ++ rest') :
    l = l' ∧ rest = rest' := by
  have hle : l.length ≤ l'.length := h'.2 l ⟨rest, he⟩ h.1
  have hge : l'.length ≤ l.length := h.2 l' ⟨rest', he.symm⟩ h'.1
  exact List.append_inj he (Nat.le_antisymm hle hge)

theorem longestAt_name {c : Char} (hc : startsName c = true) (cs : List Char) :
    Form.name.LongestAt (c :: cs.takeWhile continuesName) (cs.dropWhile continuesName) := by
  refine ⟨⟨c, _, rfl, startsName_iff.1 hc, fun d hd => ?_⟩, ?_⟩
  · exact continuesName_iff.1 (List.all_eq_true.1 List.all_takeWhile d hd)
  · rintro l' hstart ⟨c', ds, rfl, -, hds⟩
    rw [List.cons_append, List.takeWhile_append_dropWhile, List.cons_prefix_cons] at hstart
    have hlength := length_le_takeWhile hstart.2 fun d hd => continuesName_iff.2 (hds d hd)
    exact Nat.succ_le_succ hlength

theorem isOperatorChar_iff {c : Char} : isOperatorChar c = true ↔
    c ∈ ['+', '-', '*', '/', '=', '<', '>', '!', '&', '|', '%', '^'] := List.contains_iff_mem

theorem longestAt_operator {c : Char} (hc : isOperatorChar c = true) (cs : List Char) :
    Form.operator.LongestAt (c :: cs.takeWhile isOperatorChar) (cs.dropWhile isOperatorChar) := by
  refine ⟨⟨by simp, fun d hd => ?_⟩, ?_⟩
  · rcases List.mem_cons.1 hd with rfl | hd
    · exact isOperatorChar_iff.1 hc
    · exact isOperatorChar_iff.1 (List.all_eq_true.1 List.all_takeWhile d hd)
  · rintro l' hstart ⟨-, hl⟩
    have hrun : (c :: cs).takeWhile isOperatorChar = c :: cs.takeWhile isOperatorChar := by
      rw [List.takeWhile_cons, if_pos hc]
    rw [List.cons_append, List.takeWhile_append_dropWhile] at hstart
    rw [← hrun]
    exact length_le_takeWhile hstart fun d hd => isOperatorChar_iff.2 (hl d hd)

theorem takeWhile_of_point_prefix {whole fraction cs : List Char}
    (hdigits : ∀ c ∈ whole ++ fraction, c.isDigit = true) (h : whole ++ '.' :: fraction <+: cs) :
    cs.takeWhile Char.isDigit = whole ∧
      ∃ rest, cs.dropWhile Char.isDigit = '.' :: rest ∧ fraction <+: rest := by
  obtain ⟨rest, rfl⟩ := h
  have hwhole : ∀ c ∈ whole, c.isDigit = true := fun c hc => hdigits c (by simp [hc])
  have hpoint : ('.' :: (fraction ++ rest)).head?.any Char.isDigit = false := rfl
  rw [List.append_assoc, List.cons_append]
  exact ⟨Text.takeWhile_append_stop hwhole hpoint, fraction ++ rest,
    Text.dropWhile_append_stop hwhole hpoint, List.prefix_append _ _⟩

theorem longestAt_number {c : Char} (hc : c.isDigit = true) (cs : List Char) :
    Form.number.LongestAt (Lexeme.number (c :: cs)).taken (Lexeme.number (c :: cs)).rest := by
  have hne : (c :: cs).takeWhile Char.isDigit ≠ [] := by simp [hc]
  have hdigits (ds : List Char) : ∀ d ∈ ds.takeWhile Char.isDigit, d.isDigit = true :=
    List.all_eq_true.1 List.all_takeWhile
  have hwhole {l' : List Char} (hstart : l' <+: c :: cs) (hl : ∀ d ∈ l', d.isDigit = true) :=
    length_le_takeWhile hstart hl
  refine ⟨?_, ?_⟩
  · unfold Lexeme.number
    split
    · next rest _ =>
      refine ⟨_, rest.takeWhile Char.isDigit, hne, fun d hd => ?_, .inr rfl⟩
      exact (List.mem_append.1 hd).elim (hdigits _ d) (hdigits _ d)
    · exact ⟨_, [], hne, by simpa using hdigits (c :: cs), .inl rfl⟩
  · rw [number_taken]
    rintro l' hstart ⟨whole, fraction, -, hl, rfl | rfl⟩
    · have hlength := hwhole hstart fun d hd => hl d (by simp [hd])
      unfold Lexeme.number
      split
      · simp only [Lexeme.plain, List.length_append]
        omega
      · exact hlength
    · obtain ⟨hcut, rest, hrest, hfraction⟩ := takeWhile_of_point_prefix hl hstart
      have hlength := length_le_takeWhile hfraction fun d hd => hl d (by simp [hd])
      simp only [Lexeme.number, hcut, hrest, Lexeme.plain, List.length_append, List.length_cons]
      omega

theorem longestAt_single {form : Form} {c : Char} {rest : List Char} (h : form.Spells [c])
    (hone : ∀ l, form.Spells l → l.length = 1) : form.LongestAt [c] rest :=
  ⟨h, fun l' _ hl' => Nat.le_of_eq (hone l' hl')⟩

theorem length_of_spells_lineEnd {l : List Char} (h : Form.lineEnd.Spells l) : l.length = 1 := by
  rcases h with rfl | rfl <;> rfl

/-! Names and keywords. -/

theorem yields_nameKind (l : List Char) : Form.name.Yields l (nameKind (String.ofList l)) := by
  unfold nameKind
  cases hk : Keyword.ofSpelling? (String.ofList l) with
  | some k =>
    have hspelling : k.spelling = String.ofList l :=
      eq_of_beq (List.find?_some (p := fun k : Keyword => k.spelling == String.ofList l) hk)
    show l = k.spelling.toList
    rw [hspelling, String.toList_ofList]
  | none =>
    intro k he
    have hnone := List.find?_eq_none.1 hk k (Keyword.mem_all k)
    rw [he, String.ofList_toList] at hnone
    exact hnone (beq_self_eq_true _)

theorem Form.Yields.unique {form : Form} {l : List Char} {kind kind' : Kind}
    (h : form.Yields l kind) (h' : form.Yields l kind') : kind = kind' := by
  have hname {kind : Kind} (h : Form.name.Yields l kind) : kind = nameKind (String.ofList l) := by
    cases kind with
    | keyword k =>
      obtain rfl : l = k.spelling.toList := h
      rw [nameKind, String.ofList_toList, Keyword.ofSpelling?_spelling]
    | identifier =>
      have hl := yields_nameKind l
      cases hk : nameKind (String.ofList l) with
      | identifier => rfl
      | keyword k =>
        rw [hk] at hl
        exact absurd hl (h k)
      | _ =>
        rw [hk] at hl
        exact hl.elim
    | _ => exact h.elim
  cases form with
  | name => exact (hname h).trans (hname h').symm
  | delimiter d =>
    cases kind <;> cases kind' <;> first | exact h.elim | exact h'.elim | skip
    rw [show _ = d from h, show _ = d from h']
  | number | operator | lineEnd =>
    cases kind <;> cases kind' <;> first | exact h.elim | exact h'.elim | rfl

/-! What stands between quotes. -/

theorem escape_unescape (c : Char) : Escape c (unescape c) := by
  unfold unescape Escape
  repeat' split
  all_goals simp_all

theorem Escape.eq {c d : Char} (h : Escape c d) : d = unescape c := by
  unfold Escape at h
  unfold unescape
  rcases h with h | ⟨h, rfl⟩
  · simp only [List.mem_cons, Prod.mk.injEq, List.not_mem_nil, or_false] at h
    rcases h with ⟨rfl, rfl⟩ | ⟨rfl, rfl⟩ | ⟨rfl, rfl⟩ | ⟨rfl, rfl⟩ <;> rfl
  · simp_all

theorem Quoted.contents {quote : Char} (hq : quote ≠ '\\') {body text : List Char}
    (h : Quoted quote body text) (rest : List Char) :
    Lexeme.contents quote (body ++ quote :: rest) = some (text, body ++ [quote], rest) := by
  induction h with
  | nil => exact contents_quote hq rest
  | plain hne hback _ ih =>
    rw [List.cons_append, contents_cons hne hback, ih, Option.map_some]
    rfl
  | escaped he _ ih => simp [Lexeme.contents, ih, he.eq]

theorem quoted_of_contents {quote : Char} {cs text taken rest : List Char}
    (h : Lexeme.contents quote cs = some (text, taken, rest)) :
    ∃ body, Quoted quote body text ∧ taken = body ++ [quote] := by
  induction h using contents_induction with
  | closing => exact ⟨[], .nil, rfl⟩
  | escape c _ ih =>
    obtain ⟨body, hbody, rfl⟩ := ih
    exact ⟨'\\' :: c :: body, .escaped (escape_unescape c) hbody, rfl⟩
  | @plain c _ _ _ _ hc hback _ _ ih =>
    obtain ⟨body, hbody, rfl⟩ := ih
    exact ⟨c :: body, .plain hc hback hbody, rfl⟩

theorem ne_backslash_of_isQuote {quote : Char} (h : quote = '"' ∨ quote = '\'') : quote ≠ '\\' := by
  rcases h with rfl | rfl <;> decide

/-! One step of the lexer. -/

theorem exists_taken_cons {c : Char} {cs : List Char} {l : Lexeme} (h : Lexeme.first c cs = .ok l) :
    ∃ ds, l.taken = c :: ds := by
  have htaken := first_taken h
  have hlength := congrArg List.length htaken
  have hrest := Lexeme.first_rest_le h
  rw [List.length_append, List.length_cons] at hlength
  obtain ⟨d, ds, hds⟩ := List.exists_cons_of_length_pos (l := l.taken) (by omega)
  rw [hds, List.cons_append] at htaken
  exact ⟨ds, hds.trans (by rw [(List.cons.inj htaken).1])⟩

theorem exists_first_of_opening {form : Form} {c : Char} (h : opening c = form.opening)
    (cs : List Char) : ∃ kind l rest, Lexeme.first c cs = .ok (.plain kind l rest) ∧
      form.LongestAt l rest ∧ form.Yields l kind := by
  have hcovers := opening_covers c
  rw [first_eq, h]
  rw [h] at hcovers
  cases form with
  | name => exact ⟨_, _, _, rfl, longestAt_name hcovers cs, yields_nameKind _⟩
  | number =>
    have hlongest := longestAt_number hcovers cs
    refine ⟨.number, (Lexeme.number (c :: cs)).taken, (Lexeme.number (c :: cs)).rest, ?_, hlongest,
      trivial⟩
    show Except.ok (Lexeme.number (c :: cs)) = _
    unfold Lexeme.number
    split <;> rfl
  | operator => exact ⟨_, _, _, rfl, longestAt_operator hcovers cs, trivial⟩
  | delimiter d =>
    obtain rfl : c = d.char := hcovers
    exact ⟨_, _, _, rfl, longestAt_single rfl fun l hl => congrArg List.length hl, rfl⟩
  | lineEnd =>
    have hspells : Form.lineEnd.Spells [c] := hcovers.imp (congrArg (· :: [])) (congrArg (· :: []))
    exact ⟨_, _, _, rfl, longestAt_single hspells fun _ => length_of_spells_lineEnd, trivial⟩

theorem Reads.exists_first {rest l text : List Char} {kind : Kind} (h : Reads rest l kind text) :
    ∃ c cs, l ++ rest = c :: cs ∧ Lexeme.first c cs = .ok ⟨some kind, text, l, rest⟩ := by
  cases h with
  | @plain form _ _ hlongest hkind =>
    obtain ⟨c, cs, rfl, hopening⟩ := hlongest.1.exists_cons
    obtain ⟨kind', l', rest', hfirst, hlongest', hkind'⟩ :=
      exists_first_of_opening hopening (cs ++ rest)
    have htaken : l' ++ rest' = c :: (cs ++ rest) := first_taken hfirst
    obtain ⟨rfl, rfl⟩ := hlongest'.unique hlongest htaken
    obtain rfl := hkind'.unique hkind
    exact ⟨c, cs ++ rest', rfl, hfirst⟩
  | @string quote body _ hq hbody =>
    refine ⟨quote, body ++ [quote] ++ rest, rfl, ?_⟩
    have hcontents := hbody.contents (ne_backslash_of_isQuote hq) rest
    rw [first_eq, opening_of_isQuote hq, List.append_assoc, List.singleton_append]
    simp only [hcontents]

theorem first_blank {c : Char} (h : Text.isBlank c = true) (hn : c ≠ '\n') (cs : List Char) :
    Lexeme.first c cs = .ok (.gap [c] cs) := by
  rw [first_eq, opening_of_isBlank h hn]

theorem first_comment {cs rest : List Char} (hcs : ∀ c ∈ cs, c ≠ '\n')
    (hrest : ∀ c ∈ rest.head?, c = '\n') :
    Lexeme.first '#' (cs ++ rest) = .ok (.gap ('#' :: cs) rest) := by
  have hinside : ∀ c ∈ cs, (c != '\n') = true := fun c hc => by simpa using hcs c hc
  have hstop : rest.head?.any (· != '\n') = false := by
    cases rest with
    | nil => rfl
    | cons c rest => simpa using hrest c rfl
  rw [first_eq, show opening '#' = .comment from rfl]
  simp only [Text.takeWhile_append_stop hinside hstop, Text.dropWhile_append_stop hinside hstop]

theorem gap_or_reads_of_first {c : Char} {cs : List Char} {l : Lexeme}
    (h : Lexeme.first c cs = .ok l) : (l.kind? = none ∧ Gap l.taken l.rest) ∨
      ∃ kind, l.kind? = some kind ∧ Reads l.rest l.taken kind l.text := by
  have hcovers := opening_covers c
  have hform (form : Form) (ho : opening c = form.opening) :
      ∃ kind, l.kind? = some kind ∧ Reads l.rest l.taken kind l.text := by
    obtain ⟨kind, l', rest', hfirst, hlongest, hkind⟩ := exists_first_of_opening ho cs
    rw [hfirst] at h
    cases h
    exact ⟨kind, rfl, .plain hlongest hkind⟩
  cases ho : opening c with
  | lineEnd => exact .inr (hform .lineEnd ho)
  | name => exact .inr (hform .name ho)
  | digit => exact .inr (hform .number ho)
  | operator => exact .inr (hform .operator ho)
  | delimiter d => exact .inr (hform (.delimiter d) ho)
  | blank =>
    rw [ho] at hcovers
    rw [first_blank hcovers.1 hcovers.2] at h
    cases h
    exact .inl ⟨rfl, .blank hcovers.1 hcovers.2 (.nil _)⟩
  | comment =>
    rw [ho] at hcovers
    obtain rfl : c = '#' := hcovers
    rw [first_eq, ho] at h
    cases h
    refine .inl ⟨rfl, .comment (fun c hc => ?_) fun c (hc : (cs.dropWhile _).head? = some c) => ?_⟩
    · simpa using List.all_eq_true.1 List.all_takeWhile c hc
    · have hstop := Text.head_any_dropWhile (· != '\n') cs
      rw [hc] at hstop
      simpa using hstop
  | quote =>
    rw [ho] at hcovers
    rw [first_eq, ho] at h
    cases hr : Lexeme.contents c cs with
    | none =>
      simp only [hr] at h
      cases h
    | some r =>
      obtain ⟨text, taken, rest⟩ := r
      simp only [hr] at h
      cases h
      obtain ⟨body, hbody, rfl⟩ := quoted_of_contents hr
      exact .inr ⟨.string, rfl, .string hcovers hbody⟩
  | nothing =>
    rw [first_eq, ho] at h
    cases h

/-! Refusals. -/

theorem opening_ne_nothing_of_gap {c : Char} {gap rest : List Char} (h : Gap (c :: gap) rest) :
    opening c ≠ .nothing := by
  cases h with
  | blank hb hn _ => simp [opening_of_isBlank hb hn]
  | comment => exact Opening.noConfusion

theorem opening_ne_nothing_of_reads {c : Char} {l rest text : List Char} {kind : Kind}
    (h : Reads rest (c :: l) kind text) : opening c ≠ .nothing := by
  obtain ⟨c', cs, hl, hfirst⟩ := h.exists_first
  obtain ⟨rfl, -⟩ := List.cons.inj hl
  intro hnothing
  rw [first_eq, hnothing] at hfirst
  cases hfirst

theorem stuck_of_first {c : Char} {cs : List Char} {refusal : Refusal}
    (h : Lexeme.first c cs = .error refusal) : Stuck (c :: cs) refusal := by
  have hcovers := opening_covers c
  rw [first_eq] at h
  cases ho : opening c with
  | quote =>
    rw [ho] at h hcovers
    cases hr : Lexeme.contents c cs with
    | none =>
      simp only [hr] at h
      cases h
      refine .unterminated hcovers fun body text rest hbody he => ?_
      rw [he, hbody.contents (ne_backslash_of_isQuote hcovers)] at hr
      cases hr
    | some r =>
      simp only [hr] at h
      cases h
  | nothing =>
    rw [ho] at h
    cases h
    exact .unexpected (fun gap rest hgap => opening_ne_nothing_of_gap hgap ho)
      fun l rest kind text hreads => opening_ne_nothing_of_reads hreads ho
  | lineEnd | blank | comment | name | digit | operator | delimiter d =>
    rw [ho] at h
    cases h

theorem first_eq_error_iff {c : Char} {cs : List Char} {refusal : Refusal} :
    Lexeme.first c cs = .error refusal ↔ Stuck (c :: cs) refusal := by
  refine ⟨stuck_of_first, fun h => ?_⟩
  cases h with
  | unexpected hgap hreads =>
    cases hf : Lexeme.first c cs with
    | ok l =>
      obtain ⟨ds, htaken⟩ := exists_taken_cons hf
      rcases gap_or_reads_of_first hf with ⟨-, hg⟩ | ⟨kind, -, hr⟩
      · rw [htaken] at hg
        exact absurd hg (hgap ds l.rest)
      · rw [htaken] at hr
        exact absurd hr (hreads ds l.rest kind l.text)
    | error refusal =>
      cases stuck_of_first hf with
      | unexpected => rfl
      | unterminated hq _ =>
        -- with another such quote after it, it would begin a string
        exact absurd (Reads.string hq .nil) (hreads [c] [] .string [])
  | unterminated hq hopen =>
    rw [first_eq, opening_of_isQuote hq]
    cases hr : Lexeme.contents c cs with
    | none => rfl
    | some r =>
      obtain ⟨text, taken, rest⟩ := r
      obtain ⟨body, hbody, rfl⟩ := quoted_of_contents hr
      have htaken := contents_taken hr
      rw [List.append_assoc, List.singleton_append] at htaken
      exact absurd htaken.symm (hopen body text rest hbody)

end Token
end Parlance
