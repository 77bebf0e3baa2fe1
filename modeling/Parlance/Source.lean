import Parlance.Fault
import Parlance.Phrase.Reword

/-! From a source to its tree: canonical wording, tokens, grammar. -/

namespace Parlance.Source

def tokens (text : String) : Except Fault (List Token) :=
  match Token.scan text with
  | .ok ts => .ok ts
  | .error (refusal, position) => .error (.lexical refusal position)

def placed (r : Except (Grammar.Refusal × Option Position) Node) : Except Fault Node :=
  match r with
  | .ok node => .ok node
  | .error (refusal, position) => .error (.grammar refusal position)

def script (ts : List Token) : Except Fault Node := placed (Grammar.readScript ts)

def expression (ts : List Token) : Except Fault Node := placed (Grammar.readExpression ts)

def parse (book : Phrasebook) (text : String) : Except Fault Node := do
  script (← tokens (book.process text))

end Parlance.Source
