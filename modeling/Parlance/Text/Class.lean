import Parlance.Text.Alphabetic
import Parlance.Text.Blank
import Parlance.Text.Cased
import Parlance.Text.Extender
import Parlance.Text.Hidden
import Parlance.Text.Mark
import Parlance.Text.Numeric
import Parlance.Text.Recent

/-! Character classes. A class is given by the sorted points at which it switches on and off. Word
characters are built from the same tables as letters and digits, so that every letter but the most
recent ones is one. -/

namespace Parlance.Text

/-- Whether `n` lies in the class with the given switching points. -/
def inClass : List Nat → Nat → Bool
  | on :: off :: rest, n => if n < on then false else if n < off then true else inClass rest n
  | _, _ => false

def isAlphabetic (c : Char) : Bool := inClass alphabetic c.toNat

def isDecimalDigit (c : Char) : Bool := inClass decimalDigit c.toNat

def isNumeric (c : Char) : Bool := isDecimalDigit c || inClass otherNumber c.toNat

def isAlphanumeric (c : Char) : Bool := isAlphabetic c || isNumeric c

def isBlank (c : Char) : Bool := inClass whiteSpace c.toNat

/-- Whether `c` is too new for words and patterns to know its class. -/
def isRecent (c : Char) : Bool := inClass recent c.toNat

def isWordDigit (c : Char) : Bool := isDecimalDigit c && !isRecent c

def isWordChar (c : Char) : Bool :=
  (isAlphabetic c || isDecimalDigit c || inClass mark c.toNat || inClass connector c.toNat ||
    inClass joinControl c.toNat) && !isRecent c

def isExtender (c : Char) : Bool := inClass graphemeExtend c.toNat && inClass mark c.toNat

def isPrintable (c : Char) : Bool := !(inClass unprintable c.toNat || inClass filler c.toNat)

def isCased (c : Char) : Bool := inClass cased c.toNat

def isCaseIgnorable (c : Char) : Bool := inClass caseIgnorable c.toNat

/-- What holds throughout a text is decided along the text, and not by trying every character. -/
instance (priority := high) decidableForallMem {p : Char → Prop} [DecidablePred p] (cs : List Char) :
    Decidable (∀ c ∈ cs, p c) := List.decidableBAll p cs

instance (priority := high) decidableForallMemOption {p : Char → Prop} [DecidablePred p]
    (c? : Option Char) : Decidable (∀ c ∈ c?, p c) := Option.decidableForallMem c?

def trimStart (cs : List Char) : List Char := cs.dropWhile isBlank

def trim (cs : List Char) : List Char := (trimStart (trimStart cs).reverse).reverse

end Parlance.Text
