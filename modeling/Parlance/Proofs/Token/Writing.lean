import Parlance.Proofs.Token.Splitting

/-! Writing tokens down. Any tokens, with single spaces between them and with their strings put between
quotes, make a source that has exactly these tokens. No lexeme goes on over a space, and between quotes
a backslash before the quote or before another backslash takes away its meaning. -/

namespace Parlance.Token

def Writable : Kind → List Char → Prop
  | .identifier, text => Form.name.Spells text ∧ ∀ k : Keyword, text ≠ k.spelling.toList
  | .keyword k, text => text = k.spelling.toList
  | .number, text => Form.number.Spells text
  | .operator, text => Form.operator.Spells text
  | .string, _ => True
  | .delimiter d, text => text = [d.char]
  | .endOfLine, text => text = ['\n'] ∨ text = [';']
  | .endOfInput, _ => False

structure Draft where
  kind : Kind
  text : String
  quote : Char
  writable : Writable kind text.toList
  isQuote : quote = '"' ∨ quote = '\''

namespace Draft

def content (x : Draft) : Kind × String := (x.kind, x.text)

def escape (quote : Char) (text : List Char) : List Char :=
  text.flatMap fun c => if c = quote ∨ c = '\\' then ['\\', c] else [c]

def source (x : Draft) : List Char :=
  if x.kind = .string then x.quote :: (escape x.quote x.text.toList ++ [x.quote]) else x.text.toList

def written (drafts : List Draft) : String :=
  String.ofList ([' '].intercalate (drafts.map source))

end Draft

/-! A space ends every lexeme but a string. -/

theorem Form.Spells.space_not_mem {form : Form} {l : List Char} (h : form.Spells l) : ' ' ∉ l := by
  intro hspace
  cases form with
  | name =>
    obtain ⟨c, cs, rfl, hc, hcs⟩ := h
    rcases List.mem_cons.1 hspace with rfl | hspace
    · exact absurd (startsName_iff.2 hc) (by decide)
    · exact absurd (continuesName_iff.2 (hcs _ hspace)) (by decide)
  | number =>
    obtain ⟨whole, fraction, -, hdigits, hl⟩ := h
    have hnot : ' ' ∉ whole ++ fraction := fun hm => absurd (hdigits _ hm) (by decide)
    rcases hl with rfl | rfl
    · exact hnot (List.mem_append_left _ hspace)
    · simp_all
  | operator => exact absurd (h.2 _ hspace) (by decide)
  | delimiter d =>
    rw [show l = [d.char] from h, List.mem_singleton] at hspace
    cases d <;> exact absurd hspace (by decide)
  | lineEnd => rcases h with rfl | rfl <;> exact absurd hspace (by decide)

def Spaced (rest : List Char) : Prop := ∀ c ∈ rest.head?, c = ' '

theorem Form.Spells.longestAt {form : Form} {l rest : List Char} (h : form.Spells l)
    (hrest : Spaced rest) : form.LongestAt l rest := by
  refine ⟨h, fun l' hstart hl' => ?_⟩
  cases rest with
  | nil => simpa using hstart.length_le
  | cons c rest =>
    obtain rfl : c = ' ' := hrest c rfl
    rw [← Nat.not_lt]
    intro hlonger
    -- a longer text would have the space in it
    have hthrough : l ++ [' '] <+: l' := by
      refine List.prefix_of_prefix_length_le ⟨rest, List.append_assoc _ _ _⟩ hstart ?_
      rw [List.length_append, List.length_singleton]
      exact hlonger
    exact hl'.space_not_mem (hthrough.subset (by simp))

theorem spells_spelling (k : Keyword) : Form.name.Spells k.spelling.toList := by
  have hletters : ∀ k ∈ Keyword.all, k.spelling.toList.head?.any Text.isAlphabetic = true ∧
      ∀ c ∈ k.spelling.toList.tail, Text.isAlphanumeric c = true := by decide
  obtain ⟨hhead, htail⟩ := hletters k k.mem_all
  cases hl : k.spelling.toList with
  | nil => simp [hl] at hhead
  | cons c cs =>
    rw [hl] at hhead htail
    exact ⟨c, cs, rfl, .inl hhead, fun d hd => .inl (htail d hd)⟩

/-! Reading a draft back. -/

theorem quoted_escape {quote : Char} (hquote : quote = '"' ∨ quote = '\'') (text : List Char) :
    Quoted quote (Draft.escape quote text) text := by
  have hself {c : Char} (h : c = quote ∨ c = '\\') : Escape c c := by
    refine .inr ⟨?_, rfl⟩
    rcases h with rfl | rfl
    · rcases hquote with rfl | rfl <;> decide
    · decide
  induction text with
  | nil => exact .nil
  | cons c text ih =>
    have hcons : Draft.escape quote (c :: text) =
        (if c = quote ∨ c = '\\' then ['\\', c] else [c]) ++ Draft.escape quote text := rfl
    rw [hcons]
    split
    · next hc => exact .escaped (hself hc) ih
    · next hc => exact .plain (fun h => hc (.inl h)) (fun h => hc (.inr h)) ih

theorem Draft.reads (x : Draft) {rest : List Char} (hrest : Spaced rest) :
    Reads rest x.source x.kind x.text.toList := by
  obtain ⟨kind, text, quote, hwritable, hquote⟩ := x
  have hplain (form : Form) (h : form.Spells text.toList) (hk : form.Yields text.toList kind) :
      Reads rest text.toList kind text.toList := .plain (h.longestAt hrest) hk
  cases kind with
  | string => exact .string hquote (quoted_escape hquote text.toList)
  | identifier => exact hplain .name hwritable.1 hwritable.2
  | keyword k =>
    have htext : text.toList = k.spelling.toList := hwritable
    exact hplain .name (htext ▸ spells_spelling k) htext
  | number => exact hplain .number hwritable trivial
  | operator => exact hplain .operator hwritable trivial
  | delimiter d => exact hplain (.delimiter d) hwritable rfl
  | endOfLine => exact hplain .lineEnd hwritable trivial
  | endOfInput => exact hwritable.elim

namespace Draft

def piece (gap : List Char) (x : Draft) : Piece := ⟨gap, x.source, x.kind, x.text.toList⟩

def others (drafts : List Draft) : List Char := drafts.flatMap fun x => ' ' :: x.source

theorem spaced_others (drafts : List Draft) : Spaced (others drafts) := by
  cases drafts with
  | nil => exact fun c hc => by cases hc
  | cons x drafts => exact fun c hc => (Option.some.inj hc).symm

theorem toList_written_cons (x : Draft) (drafts : List Draft) :
    (written (x :: drafts)).toList = x.source ++ others drafts := by
  rw [written, String.toList_ofList]
  induction drafts generalizing x with
  | nil => simp [others]
  | cons y drafts ih =>
    have hothers : others (y :: drafts) = ' ' :: (y.source ++ others drafts) := rfl
    rw [hothers, ← ih y]
    simp [List.intercalate]

theorem splits_others (drafts : List Draft) :
    Splits (others drafts) (drafts.map (piece [' '])) [] := by
  induction drafts with
  | nil => exact .stop (.nil [])
  | cons x drafts ih =>
    have hgap : Gap [' '] (x.source ++ others drafts) := .blank (by decide) (by decide) (.nil _)
    exact .piece (x := x.piece [' ']) hgap (x.reads (spaced_others drafts)) ih

theorem exists_splits_written (drafts : List Draft) :
    ∃ xs, Splits (written drafts).toList xs [] ∧ xs.map Piece.content = drafts.map content := by
  cases drafts with
  | nil => exact ⟨[], .stop (.nil []), rfl⟩
  | cons x drafts =>
    refine ⟨x.piece [] :: drafts.map (piece [' ']), ?_, ?_⟩
    · rw [toList_written_cons]
      exact .piece (x := x.piece []) (.nil _) (x.reads (spaced_others drafts)) (splits_others drafts)
    · simp [piece, Piece.content, content]

end Draft

/-- Whatever tokens are written down, the same tokens are read, and after them the end of the input. -/
theorem tokens_written (drafts : List Draft) : ∃ ts, Source.tokens (Draft.written drafts) = .ok ts ∧
    ts.map content = drafts.map Draft.content ++ [ending] := by
  obtain ⟨xs, hsplit, hcontent⟩ := Draft.exists_splits_written drafts
  refine ⟨_, hsplit.tokens_eq_ok, ?_⟩
  rw [List.map_append, Piece.map_content_tokens, hcontent]
  rfl

/-- The quote that is around a string is escaped in it, and the other one is not. -/
example : Draft.written [⟨.string, "it's", '\'', trivial, .inr rfl⟩,
    ⟨.string, "it's", '"', trivial, .inl rfl⟩] = "'it\\'s' \"it's\"" := by decide

end Parlance.Token
