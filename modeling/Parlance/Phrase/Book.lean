import Parlance.Pattern.Reader
import Parlance.Pattern.Template
import Parlance.Table

/-! A phrasebook: the wording that scripts may use besides the canonical one. -/

namespace Parlance

structure Phrase where
  pattern : Pattern
  names : List (String × Nat) := []
  replacement : List Pattern.TemplatePart

namespace Phrase

def ofText? (pattern replacement : String) : Option Phrase := do
  let (pattern, names) ← Pattern.ofText? pattern
  return { pattern, names, replacement := Pattern.template replacement }

def apply (phrase : Phrase) (cs : List Char) : List Char :=
  phrase.pattern.replaceAll (Pattern.expand phrase.names phrase.replacement) cs

/-- Words with blanks between them, which stand apart from other words. -/
def ofWords (words : List String) (replacement : String) : Phrase where
  pattern := Pattern.concat
    (Pattern.edge :: (words.map Pattern.literal).intersperse Pattern.blanks ++ [Pattern.edge])
  replacement := Pattern.template replacement

end Phrase

structure Phrasebook where
  phrases : List Phrase := []
  /-- Single words in lower case, and what to write for them. -/
  replacements : Table String := {}
  /-- Single words in lower case that are left out. -/
  removables : List String := []

namespace Phrasebook

def lowerCase (s : String) : String := String.ofList (Text.lower s.toList)

def empty : Phrasebook := {}

def addPhrase (book : Phrasebook) (phrase : Phrase) : Phrasebook :=
  { book with phrases := book.phrases ++ [phrase] }

def addReplacement (book : Phrasebook) (word replacement : String) : Phrasebook :=
  { book with replacements := book.replacements.insert (lowerCase word) replacement }

def addRemovable (book : Phrasebook) (word : String) : Phrasebook :=
  { book with removables := book.removables.insert (lowerCase word) }

def variableName : Pattern := .concat
  [.char (.oneOf false [.range 'A' 'Z', .range 'a' 'z', .range '_' '_']),
    .star (.char (.oneOf false [.word false, .range '.' '.'])) true]

def setPhrase : Phrase where
  pattern := .concat
    [.edge, .literal "set", .blanks, .group 1 variableName, .blanks, .literal "to", .edge]
  replacement := Pattern.template "var $1 ="

def endPhrase : Phrase where
  pattern := .concat
    [.edge, .literal "end", .blanks,
      .alt (.literal "if") (.alt (.literal "while") (.alt (.literal "for") (.literal "function"))),
      .edge]
  replacement := []

/-- The built-in English wording. Longer phrases come before the phrases that they contain. -/
def english : Phrasebook where
  phrases :=
    [setPhrase,
      .ofWords ["is", "greater", "than", "or", "equal", "to"] ">=",
      .ofWords ["is", "less", "than", "or", "equal", "to"] "<=",
      .ofWords ["is", "greater", "than"] ">",
      .ofWords ["is", "less", "than"] "<",
      .ofWords ["is", "not", "equal", "to"] "!=",
      .ofWords ["is", "equal", "to"] "==",
      .ofWords ["equals"] "==",
      .ofWords ["plus"] "+",
      .ofWords ["minus"] "-",
      .ofWords ["multiplied", "by"] "*",
      .ofWords ["times"] "*",
      .ofWords ["divided", "by"] "/",
      .ofWords ["modulo"] "%",
      .ofWords ["mod"] "%",
      endPhrase]
  removables := ["then", "end"]

end Phrasebook
end Parlance
