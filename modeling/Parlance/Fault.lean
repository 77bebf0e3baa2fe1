import Parlance.Script.Grammar
import Parlance.Token.Lexer

/-! What can go wrong, and how it is told. -/

namespace Parlance

inductive FileFault where
  | missing
  | notDirectory
  | isDirectory
  | notText
  deriving Repr, DecidableEq

def FileFault.message : FileFault → String
  | .missing => "No such file or directory (os error 2)"
  | .notDirectory => "Not a directory (os error 20)"
  | .isDirectory => "Is a directory (os error 21)"
  | .notText => "stream did not contain valid UTF-8"

inductive Fault where
  | lexical (refusal : Token.Refusal) (position : Position)
  | grammar (refusal : Grammar.Refusal) (position : Option Position)
  | undefinedVariable (name : String)
  | noSuchMember (member typeName : String)
  | nullMemberAccess (member : String)
  | unknownOperator (operator : String)
  | unsupportedOperator (operator left right : String)
  | unknownFunction (name : String)
  | unknownType (typeName parameter : String)
  | unknownEvent (name : String)
  | tooFewArguments (function : String) (required received : Nat)
  | tooManyArguments (function : String) (accepted received : Nat)
  | typeCoercion (parameter value typeName cause : String)
  | argumentCountMismatch (event : String) (expected received : Nat)
  | native (function message : String)
  | file (fault : FileFault)
  | settings
  deriving Repr, DecidableEq

namespace Fault

def message : Fault → String
  | lexical refusal position => s!"lexical error at {position.message}: {refusal.message}"
  | grammar refusal (some position) => s!"syntax error at {position.message}: {refusal.message}"
  | grammar refusal none => s!"syntax error: {refusal.message}"
  | undefinedVariable name => s!"variable `{name}` is not defined"
  | noSuchMember member typeName => s!"no member `{member}` on {typeName}"
  | nullMemberAccess member => s!"cannot access `{member}` on null"
  | unknownOperator operator => s!"unknown operator `{operator}`"
  | unsupportedOperator operator left right =>
    s!"operator `{operator}` is not supported between {left} and {right}"
  | unknownFunction name => s!"function `{name}` is not defined"
  | unknownType typeName parameter => s!"unknown type `{typeName}` for parameter `{parameter}`"
  | unknownEvent name => s!"event `{name}` is not defined"
  | tooFewArguments function required received =>
    s!"function `{function}` requires at least {required} arguments, but got {received}"
  | tooManyArguments function accepted received =>
    s!"function `{function}` accepts at most {accepted} arguments, but got {received}"
  | typeCoercion parameter value typeName cause =>
    s!"cannot convert argument `{parameter}` ({value}) to `{typeName}`: {cause}"
  | argumentCountMismatch event expected received =>
    s!"event `{event}` requires {expected} arguments, but got {received}"
  | native function message => s!"`{function}` failed: {message}"
  | file fault => s!"I/O error: {fault.message}"
  | settings => "invalid configuration:"

def position? : Fault → Option Position
  | lexical _ position => some position
  | grammar _ position => position
  | _ => none

end Fault
end Parlance
