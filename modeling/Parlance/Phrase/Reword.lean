import Parlance.Phrase.Book
import Parlance.Text.Split

/-! Rewording a source into canonical wording. String literals and comments are copied as they
stand; each stretch of code between them goes through the phrasebook. A literal may go on over
several lines, so a line begins with the quote that is still open, if there is one. -/

namespace Parlance

namespace Phrasebook

def joins (c d : Char) : Bool :=
  Text.isBlank c && Text.isBlank d || Text.isWordChar c && Text.isWordChar d

/-- Cuts a text into runs of blanks, words and single characters. -/
def pieces : List Char → List (List Char)
  | [] => []
  | c :: cs =>
    match pieces cs with
    | (d :: piece) :: rest =>
      if joins c d then (c :: d :: piece) :: rest else [c] :: (d :: piece) :: rest
    | rest => [c] :: rest

theorem flatten_pieces (cs : List Char) : (pieces cs).flatten = cs := by
  induction cs with
  | nil => rfl
  | cons c cs ih =>
    rw [pieces]
    split
    · next d piece rest h =>
      rw [h] at ih
      split <;> simp [← ih]
    · simp [ih]

/-- Puts pieces together again: one space for blanks, nothing for a removable word, and the
replacement of a word that has one. `spaced` says that the last thing written was a space. -/
def merge (book : Phrasebook) : Bool → List (List Char) → List Char
  | _, [] => []
  | spaced, piece :: rest =>
    if piece.all Text.isBlank then
      if spaced then merge book spaced rest else ' ' :: merge book true rest
    else
      let word := String.ofList (Text.lower piece)
      if book.removables.contains word then merge book spaced rest
      else
        match book.replacements.get? word with
        | some replacement => replacement.toList ++ merge book false rest
        | none => piece ++ merge book false rest

def reword (book : Phrasebook) (code : List Char) : List Char :=
  if code.isEmpty then []
  else merge book false (pieces (book.phrases.foldl (fun text phrase => phrase.apply text) code))

end Phrasebook

namespace Source

inductive Mode where
  /-- In code, of which this stretch was read, the latest character first. -/
  | code (stretch : List Char)
  | literal (quote : Char) (escaped : Bool)

def isQuote (c : Char) : Bool := c == '"' || c == '\''

/-- Rewords what is left of a line. The second result is the quote that is open at its end. -/
def rewordFrom (reword : List Char → List Char) : Mode → List Char → List Char × Option Char
  | .code stretch, [] => (reword stretch.reverse, none)
  | .code stretch, c :: cs =>
    if isQuote c then
      let (out, quote?) := rewordFrom reword (.literal c false) cs
      (reword stretch.reverse ++ c :: out, quote?)
    else if c = '#' then (reword stretch.reverse ++ c :: cs, none)
    else rewordFrom reword (.code (c :: stretch)) cs
  | .literal quote _, [] => ([], some quote)
  | .literal quote escaped, c :: cs =>
    let mode :=
      if escaped then .literal quote false
      else if c = quote then .code []
      else .literal quote (c == '\\')
    let (out, quote?) := rewordFrom reword mode cs
    (c :: out, quote?)

/-- Rewords a line. A line that holds only a comment is copied with the blanks before it. -/
def rewordLine (reword : List Char → List Char) (quote? : Option Char) (line : List Char) :
    List Char × Option Char :=
  match quote? with
  | some quote => rewordFrom reword (.literal quote false) line
  | none =>
    if (Text.trimStart line).head? = some '#' then (line, none)
    else rewordFrom reword (.code []) line

def rewordLines (reword : List Char → List Char) : Option Char → List (List Char) → List (List Char)
  | _, [] => []
  | quote?, line :: rest =>
    let (out, quote?) := rewordLine reword quote? line
    out :: rewordLines reword quote? rest

def process (reword : List Char → List Char) (cs : List Char) : List Char :=
  ['\n'].intercalate (rewordLines reword none (Text.split '\n' cs))

end Source

def Phrasebook.process (book : Phrasebook) (source : String) : String :=
  String.ofList (Source.process book.reword source.toList)

end Parlance
