import Parlance.Proofs.Phrase.Calm
import Parlance.Proofs.Phrase.Spacing
import Parlance.Source

/-! Canonical text. A rule of the English book acts only where its first word stands, and a word is left
out only if it is one of two. A source without these words in its code is reworded into one that
differs from it in the lengths of its gaps, and therefore has the same tokens. -/

namespace Parlance

namespace Text

/-- The words of a text, which are its longest runs of word characters. A word begins at each such
character that does not come after another; `inside` says that the text does. -/
def wordsFrom (inside : Bool) : List Char → List (List Char)
  | [] => []
  | c :: cs =>
    if isWordChar c then
      if inside then wordsFrom true cs else (c :: cs.takeWhile isWordChar) :: wordsFrom true cs
    else wordsFrom false cs

def words (cs : List Char) : List (List Char) := wordsFrom false cs

theorem wordsFrom_true (cs : List Char) : wordsFrom true cs = words (cs.dropWhile isWordChar) := by
  induction cs with
  | nil => rfl
  | cons c cs ih =>
    by_cases hc : isWordChar c = true
    · rw [wordsFrom, if_pos hc, if_pos rfl, ih, List.dropWhile_cons_of_pos hc]
    · rw [List.dropWhile_cons_of_neg hc, words, wordsFrom, wordsFrom, if_neg hc, if_neg hc]

theorem words_of_isWordChar {c : Char} (h : isWordChar c = true) (cs : List Char) :
    words (c :: cs) = (c :: cs.takeWhile isWordChar) :: words (cs.dropWhile isWordChar) := by
  rw [words, wordsFrom, if_pos h, wordsFrom_true]
  rfl

theorem words_marks {cs : List Char} (h : ∀ c ∈ cs, isWordChar c = false) (rest : List Char) :
    words (cs ++ rest) = words rest := by
  induction cs with
  | nil => rfl
  | cons c cs ih =>
    obtain ⟨hc, hcs⟩ := List.forall_mem_cons.1 h
    rw [List.cons_append, words, wordsFrom, if_neg (Bool.eq_false_iff.1 hc)]
    exact ih hcs

end Text

open Text Pattern Phrasebook

/-! Rules and pieces. -/

theorem Pattern.Rewrites.of_words {w : String} {p : Pattern} {f : Spot → Spot → List Char}
    (hp : Leads w p) {previous : Option Char} {cs : List Char}
    (h : ∀ run ∈ wordsFrom (previous.any isWordChar) cs, run.map fold ≠ w.toList) :
    Rewrites p f previous cs cs := by
  induction cs generalizing previous with
  | nil => exact .nil hp previous
  | cons c cs ih =>
    by_cases hc : isWordChar c = true
    · have hsome : (some c).any isWordChar = true := hc
      cases hprevious : previous.any isWordChar with
      | true =>
        rw [hprevious, wordsFrom, if_pos hc, if_pos rfl, ← hsome] at h
        exact .copy (fun _ => hp.ends_eq_nil (.inl hprevious)) (ih h)
      | false =>
        rw [hprevious, wordsFrom, if_pos hc, if_neg Bool.false_ne_true, ← hsome] at h
        obtain ⟨hfirst, hrest⟩ := List.forall_mem_cons.1 h
        refine .copy (fun _ => hp.ends_eq_nil (.inr ?_)) (ih hrest)
        rw [List.takeWhile_cons_of_pos hc]
        exact hfirst
    · have hsome : (some c).any isWordChar = false := Bool.eq_false_iff.2 hc
      rw [wordsFrom, if_neg hc, ← hsome] at h
      refine .copy (fun _ => hp.ends_eq_nil (.inr ?_)) (ih h)
      rw [List.takeWhile_cons_of_neg hc]
      exact Ne.symm hp.isWord.1

theorem foldl_apply_eq {phrases : List Phrase} {text : List Char}
    (h : ∀ phrase ∈ phrases, phrase.apply text = text) :
    phrases.foldl (fun text phrase => phrase.apply text) text = text := by
  induction phrases with
  | nil => rfl
  | cons phrase phrases ih =>
    obtain ⟨hfirst, hrest⟩ := List.forall_mem_cons.1 h
    rw [List.foldl_cons, hfirst, ih hrest]

theorem exists_first_piece (c : Char) (cs : List Char) :
    ∃ piece rest, pieces (c :: cs) = piece :: pieces rest ∧ rest.length ≤ cs.length ∧
      (IsGap piece ∧ words (c :: cs) = words rest ∨
        piece.all isBlank = false ∧
          (words (c :: cs) = piece :: words rest ∨ piece = [c] ∧ words (c :: cs) = words rest)) := by
  have hrun {p : Char → Bool} (hjoin : ∀ c d, p c = true → joins c d = p d) (hc : p c = true) :
      pieces (c :: cs) = (c :: cs.takeWhile p) :: pieces (cs.dropWhile p) ∧
        (∀ d ∈ c :: cs.takeWhile p, p d = true) := by
    have hall : ∀ d ∈ c :: cs.takeWhile p, p d = true :=
      List.forall_mem_cons.2 ⟨hc, List.all_eq_true.1 List.all_takeWhile⟩
    have hpieces := pieces_run hjoin (List.cons_ne_nil _ _) hall (head_any_dropWhile p cs)
    rw [List.cons_append, List.takeWhile_append_dropWhile] at hpieces
    exact ⟨hpieces, hall⟩
  by_cases hb : isBlank c = true
  · obtain ⟨hpieces, hall⟩ := hrun joins_of_isBlank hb
    refine ⟨_, _, hpieces, Token.Lexeme.length_dropWhile_le cs, .inl ⟨⟨List.cons_ne_nil _ _, hall⟩, ?_⟩⟩
    have hmarks := words_marks (fun d hd => isWordChar_of_isBlank (hall d hd)) (cs.dropWhile isBlank)
    rwa [List.cons_append, List.takeWhile_append_dropWhile] at hmarks
  · have hnot (tail : List Char) : (c :: tail).all isBlank = false := by simp [hb]
    by_cases hw : isWordChar c = true
    · obtain ⟨hpieces, -⟩ := hrun joins_of_isWordChar hw
      exact ⟨_, _, hpieces, Token.Lexeme.length_dropWhile_le cs,
        .inr ⟨hnot _, .inl (words_of_isWordChar hw cs)⟩⟩
    · have hjoin : ∀ d ∈ cs.head?, joins c d = false := by simp [joins, hb, hw]
      have hmarks := words_marks (List.forall_mem_singleton.2 (Bool.eq_false_iff.2 hw)) cs
      exact ⟨[c], cs, pieces_cons_of_not_joins hjoin, Nat.le_refl _, .inr ⟨hnot [], .inr ⟨rfl, hmarks⟩⟩⟩

theorem isGap_or_mem_words {cs piece : List Char} (h : piece ∈ pieces cs) :
    IsGap piece ∨ piece.all isBlank = false ∧ (piece ∈ words cs ∨ ∃ c, piece = [c]) := by
  induction hn : cs.length using Nat.strongRecOn generalizing cs with
  | ind n ih =>
    subst hn
    cases cs with
    | nil => cases h
    | cons c cs =>
      obtain ⟨first, rest, hpieces, hle, hfirst⟩ := exists_first_piece c cs
      have hwords : ∀ run ∈ words rest, run ∈ words (c :: cs) := by
        intro run hrun
        rcases hfirst with ⟨-, hw⟩ | ⟨-, hw | ⟨-, hw⟩⟩
        · exact hw ▸ hrun
        · exact hw ▸ List.mem_cons_of_mem _ hrun
        · exact hw ▸ hrun
      rw [hpieces] at h
      rcases List.mem_cons.1 h with rfl | h
      · rcases hfirst with ⟨hgap, -⟩ | ⟨hb, hw | ⟨hc, -⟩⟩
        · exact .inl hgap
        · exact .inr ⟨hb, .inl (hw ▸ List.mem_cons_self)⟩
        · exact .inr ⟨hb, .inr ⟨c, hc⟩⟩
      · rcases ih _ (Nat.lt_succ_of_le hle) h rfl with hgap | ⟨hb, hw | hc⟩
        · exact .inl hgap
        · exact .inr ⟨hb, .inl (hwords piece hw)⟩
        · exact .inr ⟨hb, .inr hc⟩

/-! The English book. -/

/-- The words that the English book looks for: those that its rules begin with, and those that it
leaves out. -/
def cues : List String :=
  ["set", "is", "equals", "plus", "minus", "multiplied", "times", "divided", "modulo", "mod", "end",
    "then"]

theorem exists_leads : ∀ phrase ∈ english.phrases, ∃ w ∈ cues, Leads w phrase.pattern := by
  have hcues : ∀ r ∈ wordings, ∀ w ∈ r.1.head?, w ∈ cues := by decide
  intro phrase hp
  rw [english_phrases, List.cons_append, List.mem_cons, List.mem_append, List.mem_singleton] at hp
  rcases hp with rfl | hp | rfl
  · exact ⟨"set", by decide, leads_setPhrase⟩
  · obtain ⟨r, hr, rfl⟩ := List.mem_map.1 hp
    obtain ⟨hne, hwords⟩ := isWord_of_mem_wordings r hr
    obtain ⟨w, ws, he⟩ := List.exists_cons_of_ne_nil hne
    have hw : w ∈ cues := hcues r hr w (by rw [he]; rfl)
    rw [he] at hwords ⊢
    exact ⟨w, hw, leads_ofWords hwords r.2⟩
  · exact ⟨"end", by decide, leads_endPhrase⟩

def Unheeded (run : List Char) : Prop := ∀ w ∈ cues, run.map fold ≠ w.toList

instance : DecidablePred Unheeded :=
  fun run => inferInstanceAs (Decidable (∀ w ∈ cues, run.map fold ≠ w.toList))

theorem english_apply {text : List Char} (h : ∀ run ∈ words text, Unheeded run) {phrase : Phrase}
    (hp : phrase ∈ english.phrases) : phrase.apply text = text := by
  obtain ⟨w, hw, hleads⟩ := exists_leads phrase hp
  have hcopy : Rewrites phrase.pattern (expand phrase.names phrase.replacement) none text text :=
    .of_words hleads fun run hrun => h run hrun w hw
  exact hcopy.replaceAll_eq

theorem english_keeps_of_unheeded {run : List Char} (h : Unheeded run) : english.Keeps run := by
  have hremovable : ∀ w ∈ english.removables, w ∈ cues ∧ IsWord w := by decide
  refine english_keeps fun hm => ?_
  obtain ⟨hcue, -, hlower⟩ := hremovable _ hm
  rw [String.toList_ofList] at hlower
  refine h _ hcue ?_
  rw [String.toList_ofList]
  exact map_fold_of_lowerFrom hlower

/-! Rewording. -/

namespace Source

theorem Recast.space {bs cs ds : List Char} (hbs : IsSpacing bs) (h : Recast Respaced .code cs ds) :
    Recast Respaced .code (bs ++ cs) (' ' :: ds) := by
  have hspace : IsSpacing [' '] := ⟨List.cons_ne_nil _ _, by decide⟩
  have hcode : Recast Respaced .code (bs ++ cs) ([' '] ++ ds) := .code ⟨hbs, hspace⟩ h
  exact hcode

theorem recast_merge {book : Phrasebook} {ps : List (List Char)} (hin : ∀ c ∈ ps.flatten, InLine c)
    (h : ∀ piece ∈ ps, IsGap piece ∨ piece.all isBlank = false ∧ book.Keeps piece) :
    Recast Respaced .code ps.flatten (merge book false ps) ∧
      ∀ bs, IsSpacing bs → Recast Respaced .code (bs ++ ps.flatten) (' ' :: merge book true ps) := by
  induction ps with
  | nil => exact ⟨.nil .code, fun bs hbs => .space hbs (.nil .code)⟩
  | cons piece ps ih =>
    rw [List.flatten_cons] at hin ⊢
    obtain ⟨hpiece, hps⟩ := List.forall_mem_append.1 hin
    obtain ⟨hfirst, hrest⟩ := List.forall_mem_cons.1 h
    obtain ⟨hfalse, htrue⟩ := ih hps hrest
    rcases hfirst with hgap | ⟨hb, hkeeps⟩
    · have hall : piece.all isBlank = true := List.all_eq_true.2 hgap.2
      have hspacing : IsSpacing piece := ⟨hgap.1, fun c hc => ⟨hgap.2 c hc, (hpiece c hc).2⟩⟩
      refine ⟨?_, fun bs hbs => ?_⟩
      · rw [merge, if_pos hall, if_neg Bool.false_ne_true]
        exact htrue piece hspacing
      · have hboth : IsSpacing (bs ++ piece) :=
          ⟨by simp [hbs.1], List.forall_mem_append.2 ⟨hbs.2, hspacing.2⟩⟩
        rw [merge, if_pos hall, if_pos rfl, ← List.append_assoc]
        exact htrue _ hboth
    · rw [merge_of_keeps hb hkeeps, merge_of_keeps hb hkeeps]
      have hcopy : Recast Respaced .code (piece ++ ps.flatten) (piece ++ merge book false ps) := by
        refine (Recast.refl Respaced .code piece).append withinLines_respaced ?_
        rwa [Region.after_inLine hpiece]
      exact ⟨hcopy, fun bs hbs => .space hbs hcopy⟩

theorem recast_reword {book : Phrasebook} {text : List Char} (hin : ∀ c ∈ text, InLine c)
    (hphrases : ∀ phrase ∈ book.phrases, phrase.apply text = text)
    (hkeeps : ∀ piece, piece ∈ words text ∨ (∃ c, piece = [c]) → book.Keeps piece) :
    Recast Respaced .code text (book.reword text) := by
  have hpieces : ∀ piece ∈ pieces text, IsGap piece ∨ piece.all isBlank = false ∧ book.Keeps piece :=
    fun piece hp => (isGap_or_mem_words hp).imp_right fun h => ⟨h.1, hkeeps piece h.2⟩
  rw [← flatten_pieces text] at hin
  have hmerge := (recast_merge hin hpieces).1
  rw [flatten_pieces] at hmerge
  cases text with
  | nil => exact .nil .code
  | cons c cs =>
    rw [reword, if_neg (by simp), foldl_apply_eq hphrases]
    exact hmerge

/-- Both texts have tokens, which are the same but for their columns, or both have none, for the same
reason and in the same line. -/
def SameLines (text text' : String) : Prop :=
  (∃ ts us, tokens text = .ok ts ∧ tokens text' = .ok us ∧ us.map lined = ts.map lined) ∨
    ∃ refusal p q, tokens text = .error (.lexical refusal p) ∧
      tokens text' = .error (.lexical refusal q) ∧ q.line = p.line

theorem sameLines_of_outline {text text' : String}
    (h : outline (Token.scan text) = outline (Token.scan text')) : SameLines text text' := by
  unfold SameLines tokens
  cases hs : Token.scan text with
  | ok ts =>
    rw [hs] at h
    cases hs' : Token.scan text' with
    | ok us =>
      rw [hs'] at h
      exact .inl ⟨ts, us, rfl, rfl, (Except.ok.inj h).symm⟩
    | error e =>
      rw [hs'] at h
      cases h
  | error e =>
    rw [hs] at h
    cases hs' : Token.scan text' with
    | ok us =>
      rw [hs'] at h
      cases h
    | error e' =>
      rw [hs'] at h
      obtain ⟨hrefusal, hline⟩ := Prod.mk.inj (Except.error.inj h)
      exact .inr ⟨e.1, e.2, e'.2, rfl, by rw [hrefusal], hline.symm⟩

theorem sameLines_process {book : Phrasebook} {source : String}
    (hphrases : ∀ text, .code text ∈ parts source.toList → ∀ phrase ∈ book.phrases,
      phrase.apply text = text)
    (hkeeps : ∀ text, .code text ∈ parts source.toList → ∀ piece,
      piece ∈ words text ∨ (∃ c, piece = [c]) → book.Keeps piece) :
    SameLines source (book.process source) := by
  have hreword (text : List Char) (ht : .code text ∈ parts source.toList) :
      Recast Respaced .code text (book.reword text) :=
    recast_reword ((laid_parts _).inLine_of_code ht) (hphrases text ht) (hkeeps text ht)
  have hrecast : Recast Respaced .code source.toList (book.process source).toList := by
    rw [Phrasebook.process, String.toList_ofList]
    exact .process withinLines_respaced rfl hreword
  exact sameLines_of_outline (hrecast.outline_scanFrom rfl)

def Part.words : Part → List (List Char)
  | .code text => Text.words text
  | _ => []

/-- No word of the code is one that the English book looks for. -/
def Canonical (source : String) : Prop :=
  ∀ run ∈ (parts source.toList).flatMap Part.words, Unheeded run

instance : DecidablePred Canonical := fun source =>
  inferInstanceAs (Decidable (∀ run ∈ (parts source.toList).flatMap Part.words, Unheeded run))

/-- Rewording a canonical source changes nothing about its tokens, and the empty book changes nothing
about those of any source. -/
theorem sameLines_of_canonical (source : String) :
    SameLines source (Phrasebook.empty.process source) ∧
      (Canonical source → SameLines source (Phrasebook.english.process source)) := by
  refine ⟨sameLines_process nofun fun _ _ _ _ => ⟨nofun, rfl⟩, fun h => ?_⟩
  have hcode {text : List Char} (ht : .code text ∈ parts source.toList) :
      ∀ run ∈ words text, Unheeded run :=
    fun run hrun => h run (List.mem_flatMap.2 ⟨.code text, ht, hrun⟩)
  refine sameLines_process (fun text ht _ hp => english_apply (hcode ht) hp) ?_
  rintro text ht piece (hrun | ⟨c, rfl⟩)
  · exact english_keeps_of_unheeded (hcode ht piece hrun)
  · exact english_keeps_singleton c

theorem sameLines_of_canonical_gaps :
    Canonical "thing  (\t'is  set' )  # then\n  ends" ∧
      Phrasebook.english.process "thing  (\t'is  set' )  # then\n  ends" =
        "thing ( 'is  set' ) # then\n ends" ∧
      SameLines "thing  (\t'is  set' )  # then\n  ends" "thing ( 'is  set' ) # then\n ends" := by
  have hcanonical : Canonical "thing  (\t'is  set' )  # then\n  ends" := by decide +kernel
  have hprocess : Phrasebook.english.process "thing  (\t'is  set' )  # then\n  ends" =
      "thing ( 'is  set' ) # then\n ends" := by decide +kernel
  have hsame := (sameLines_of_canonical _).2 hcanonical
  rw [hprocess] at hsame
  exact ⟨hcanonical, hprocess, hsame⟩

end Source
end Parlance
