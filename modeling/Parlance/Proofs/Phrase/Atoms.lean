import Parlance.Proofs.Phrase.Calm
import Parlance.Proofs.Phrase.Region

/-! The tokens of an expression as they may be written: names, numbers, text, fixed tokens, and
phrases that stand for an operator. Apart from text and phrases, the English book leaves them
alone. -/

namespace Parlance.Wording
open Text Pattern Phrasebook
open Token (Kind)

def reserved : List String :=
  Keyword.all.map Keyword.spelling ++ wordings.flatMap (·.1) ++
    ["set", "to", "end", "if", "while", "for", "function", "then"]

structure Segment where
  text : List Char
  nonempty : text ≠ []
  chars : ∀ c ∈ text, isNameChar c = true
  start : ∀ c ∈ text.head?, c.isDigit = false
  free : String.ofList (text.map Char.toLower) ∉ reserved

structure Name where
  first : Segment
  others : List Segment

def Name.text (x : Name) : List Char := x.first.text ++ x.others.flatMap fun s => '.' :: s.text

/-- Digits, and a fraction unless it is empty. -/
structure Numeral where
  whole : List Char
  fraction : List Char
  nonempty : whole ≠ []
  digits : ∀ c ∈ whole ++ fraction, c.isDigit = true

def Numeral.text (n : Numeral) : List Char :=
  n.whole ++ if n.fraction = [] then [] else '.' :: n.fraction

/-- A character of a text literal, as it stands or after a backslash. -/
inductive Letter where
  | plain (c : Char)
  | escaped (c : Char)

namespace Letter

def text : Letter → List Char
  | plain c => [c]
  | escaped c => ['\\', c]

def value : Letter → Char
  | plain c => c
  | escaped c => Token.unescape c

def Fits (quote : Char) : Letter → Prop
  | plain c => c ≠ quote ∧ c ≠ '\\'
  | escaped _ => True

end Letter

structure Literal where
  quote : Char
  letters : List Letter
  isQuote : Source.isQuote quote = true
  fits : ∀ l ∈ letters, l.Fits quote

namespace Literal

def body (l : Literal) : List Char := l.letters.flatMap Letter.text

def text (l : Literal) : List Char := l.quote :: (l.body ++ [l.quote])

def value (l : Literal) : String := String.ofList (l.letters.map Letter.value)

end Literal

def fixedTokens : List (Kind × String) :=
  Keyword.all.map (fun k => (.keyword k, k.spelling)) ++
    ["||", "&&", "==", "!=", "<", ">", "<=", ">=", "+", "-", "*", "/", "%", "!", "="].map
      (fun s => (.operator, s)) ++
    Delimiter.all.map fun d => (.delimiter d, String.singleton d.char)

def isDelimiter : Kind → Bool
  | .delimiter _ => true
  | _ => false

inductive Atom where
  | name (x : Name)
  | numeral (n : Numeral)
  | literal (l : Literal)
  | fixed (t : Kind × String) (h : t ∈ fixedTokens)
  | phrase (r : List String × String) (h : r ∈ wordings) (text : List Char) (hs : Spells r.1 text)

namespace Atom

def textAfter (done : List (List String × String)) : Atom → List Char
  | name x => x.text
  | numeral n => n.text
  | literal l => l.text
  | fixed t _ => t.2.toList
  | phrase r _ text _ => if r ∈ done then r.2.toList else text

def content : Atom → Kind × String
  | name x => (.identifier, String.ofList x.text)
  | numeral n => (.number, String.ofList n.text)
  | literal l => (.string, l.value)
  | fixed t _ => t
  | phrase r _ _ _ => (.operator, r.2)

def isLiteral : Atom → Bool
  | literal _ => true
  | _ => false

def isPhrase : Atom → Bool
  | phrase .. => true
  | _ => false

/-- No character can join the token on either side. -/
def tight : Atom → Bool
  | literal _ => true
  | fixed t _ => isDelimiter t.1
  | _ => false

end Atom

/-! Words of the language that the book does not know. -/

theorem free_of_not_mem {cs : List Char} (hc : ∀ c ∈ cs, isNameChar c = true)
    (h : String.ofList (cs.map Char.toLower) ∉ leaders ++ english.removables) : Free cs := by
  rw [List.mem_append, not_or] at h
  constructor
  · intro w hw he
    rw [map_fold_of_isNameChar hc] at he
    exact h.1 (by rwa [he, String.ofList_toList])
  · rw [lower, lowerFrom_of_isNameChar hc]
    exact h.2

theorem Segment.isWordChar (s : Segment) : ∀ c ∈ s.text, isWordChar c = true :=
  fun c hc => isWordChar_of_isNameChar (s.chars c hc)

theorem Segment.isFree (s : Segment) : Free s.text := by
  have hsub : ∀ w ∈ leaders ++ english.removables, w ∈ reserved := by decide
  exact free_of_not_mem s.chars fun hm => s.free (hsub _ hm)

theorem isNameChar_of_isDigit {c : Char} (h : c.isDigit = true) : isNameChar c = true :=
  isNameChar_iff.2 (.inl (.inr h))

theorem not_mem_of_isDigit {cs : List Char} (h : cs.head?.any Char.isDigit = true)
    {words : List String} (hw : ∀ w ∈ words, ∀ c ∈ w.toList, c.isDigit = false) :
    String.ofList (cs.map Char.toLower) ∉ words := by
  intro hm
  obtain ⟨c, hhead, hc⟩ := (Option.any_eq_true _ _).1 h
  obtain ⟨ds, rfl⟩ := List.head?_eq_some_iff.1 hhead
  have hlower : c.toLower.isDigit = true := by
    simpa [hc] using forall_isNameChar (p := fun c => !c.isDigit || c.toLower.isDigit) (by decide)
      (isNameChar_of_isDigit hc)
  have hd := hw _ hm c.toLower (by simp)
  rw [hlower] at hd
  cases hd

theorem head_any_isDigit {cs : List Char} (hne : cs ≠ []) (h : ∀ c ∈ cs, c.isDigit = true)
    (rest : List Char) : (cs ++ rest).head?.any Char.isDigit = true := by
  obtain ⟨c, ds, rfl⟩ := List.exists_cons_of_ne_nil hne
  exact h c (by simp)

theorem free_of_isDigit {cs : List Char} (hne : cs ≠ []) (h : ∀ c ∈ cs, c.isDigit = true) :
    Free cs := by
  have hhead := head_any_isDigit hne h []
  rw [List.append_nil] at hhead
  exact free_of_not_mem (fun c hc => isNameChar_of_isDigit (h c hc))
    (not_mem_of_isDigit hhead (by decide))

theorem fixedTokens_cases : ∀ t ∈ fixedTokens, t.2.toList ≠ [] ∧
    ((∀ c ∈ t.2.toList, isNameChar c = true) ∧
        String.ofList (t.2.toList.map Char.toLower) ∉ leaders ++ english.removables ∨
      ∀ c ∈ t.2.toList, isWordChar c = false ∧ isBlank c = false) := by
  decide

theorem calm_marks {cs : List Char} (h : ∀ c ∈ cs, isWordChar c = false ∧ isBlank c = false) :
    Calm cs := by
  induction cs with
  | nil => exact .nil
  | cons c cs ih =>
    have h' := List.forall_mem_cons.1 h
    exact .mark h'.1.1 h'.1.2 (ih h'.2)

theorem calm_word {cs : List Char} (hne : cs ≠ []) (hc : ∀ c ∈ cs, isWordChar c = true)
    (hf : Free cs) : Calm cs := by
  have h : Calm (cs ++ []) := .word hne hc hf rfl .nil
  rwa [List.append_nil] at h

theorem isWordChar_dot : isWordChar '.' = false := by decide

theorem calm_dot {cs : List Char} (h : Calm cs) : Calm ('.' :: cs) :=
  .mark isWordChar_dot (by decide) h

theorem Name.head_others (others : List Segment) :
    (others.flatMap fun s => '.' :: s.text).head?.any Text.isWordChar = false := by
  cases others with
  | nil => rfl
  | cons s others => exact isWordChar_dot

theorem Name.calm_others (others : List Segment) :
    Calm (others.flatMap fun s => '.' :: s.text) := by
  induction others with
  | nil => exact .nil
  | cons s others ih =>
    exact calm_dot (.word s.nonempty s.isWordChar s.isFree (head_others others) ih)

theorem Name.calm (x : Name) : Calm x.text :=
  .word x.first.nonempty x.first.isWordChar x.first.isFree (head_others _) (calm_others _)

theorem Numeral.isWordChar (n : Numeral) : ∀ c ∈ n.whole ++ n.fraction, isWordChar c = true :=
  fun c hc => isWordChar_of_isNameChar (isNameChar_of_isDigit (n.digits c hc))

theorem Numeral.calm (n : Numeral) : Calm n.text := by
  have hwhole : ∀ c ∈ n.whole, c.isDigit = true :=
    fun c hc => n.digits c (List.mem_append_left _ hc)
  have hfraction : ∀ c ∈ n.fraction, c.isDigit = true :=
    fun c hc => n.digits c (List.mem_append_right _ hc)
  have hw : ∀ c ∈ n.whole, Text.isWordChar c = true :=
    fun c hc => n.isWordChar c (List.mem_append_left _ hc)
  rw [Numeral.text]
  split
  · exact .word n.nonempty hw (free_of_isDigit n.nonempty hwhole) rfl .nil
  · next hne =>
    refine .word n.nonempty hw (free_of_isDigit n.nonempty hwhole) isWordChar_dot (calm_dot ?_)
    exact calm_word hne (fun c hc => n.isWordChar c (List.mem_append_right _ hc))
      (free_of_isDigit hne hfraction)

theorem calm_fixed {t : Kind × String} (h : t ∈ fixedTokens) : Calm t.2.toList := by
  obtain ⟨hne, ⟨hc, hf⟩ | hm⟩ := fixedTokens_cases t h
  · exact calm_word hne (fun c hm => isWordChar_of_isNameChar (hc c hm)) (free_of_not_mem hc hf)
  · exact calm_marks hm

theorem wordings_marks : ∀ r ∈ wordings, r.2.toList ≠ [] ∧
    ∀ c ∈ r.2.toList, isWordChar c = false ∧ isBlank c = false := by
  decide

theorem Atom.calm {x : Atom} (hl : x.isLiteral = false) {done : List (List String × String)}
    (hd : ∀ r h text hs, x = .phrase r h text hs → r ∈ done) : Calm (x.textAfter done) := by
  cases x with
  | name x => exact x.calm
  | numeral n => exact n.calm
  | literal l => cases hl
  | fixed t h => exact calm_fixed h
  | phrase r h text hs =>
    rw [textAfter, if_pos (hd r h text hs rfl)]
    exact calm_marks (wordings_marks r h).2

end Parlance.Wording
