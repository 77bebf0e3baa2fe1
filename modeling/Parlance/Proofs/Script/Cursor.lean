import Parlance.Script.Grammar

/-! Reading with a cursor. The tokens stay where they are and a cursor moves over them: a reader looks
at the token under the cursor, and what it took is the token before it. Readers call each other and
repeat as long as they like, and only a clock that has nothing to do with the tokens cuts them short.
So a reader that takes nothing might go on forever, and before the first token of an empty list there
is nothing to take. `Progress` shows that neither happens. -/

namespace Parlance
open Token (Kind)
open Grammar (Refusal isOperator levels unaryOf)

/-- A place in a list of tokens, and the places where the cursor stood before it. -/
structure Cursor where
  tokens : List Token
  place : Nat := 0
  trail : List Nat := []

namespace Cursor
variable {α : Type}

def token? (c : Cursor) : Option Token := c.tokens[c.place]?

def nextIs (c : Cursor) (kind : Kind) : Bool := c.token?.any (·.kind == kind)

def atEnd (c : Cursor) : Bool := c.token?.all (·.kind == .endOfInput)

def blockEnds (c : Cursor) : Bool := c.nextIs (.delimiter .rightBrace) || c.atEnd

def moveTo (c : Cursor) (place : Nat) : Cursor := { c with place, trail := c.place :: c.trail }

/-- A refusal at the end of the input is placed at the last token. -/
def positionOf (c : Cursor) (refusal : Refusal) : Option Position :=
  (refusal.token? <|> c.tokens.getLast?).map (·.position)

/-- Why a reader stops without a result: the tokens form no script, or it wanted a token from a place
that the list does not have. -/
inductive Stop where
  | refused (refusal : Refusal) (position : Option Position)
  | outside
  deriving Repr, DecidableEq

/-- A reader leaves the cursor where it stopped, also when it has no result. One that was cut short
has no answer at all. -/
abbrev Reader := ExceptT Stop (StateT Cursor Option)

def cutShort : Reader α := fun _ => none

def refuse (refusal : Refusal) : Reader α := do
  throw (.refused refusal ((← get).positionOf refusal))

/-- The token before the cursor. At the front this is the first one. -/
def previous : Reader Token := do
  let c ← get
  match c.tokens[c.place - 1]? with
  | some t => return t
  | none => throw .outside

/-- Moves over a token and gives it. At the end the cursor stays and the token before it is given
once more. -/
def advance : Reader Token := do
  let c ← get
  if c.atEnd then previous
  else
    set (c.moveTo (c.place + 1))
    previous

def accept (kind : Kind) : Reader Bool := do
  if (← get).nextIs kind then
    let _ ← advance
    return true
  else return false

def expect (kind : Kind) (what : String) : Reader Token := do
  let c ← get
  if c.nextIs kind then advance
  else
    match c.token? with
    | none => refuse (.wantedAtEnd what)
    | some t => if t.kind = .endOfInput then refuse (.wantedAtEnd what) else refuse (.wanted what t)

def expectName (what : String) : Reader String := do
  let t ← expect .identifier what
  return t.text

def expectDelimiter (d : Delimiter) : Reader Unit := do
  let _ ← expect (.delimiter d) (Kind.delimiter d).describe

def expectKeyword (k : Keyword) : Reader Unit := do
  let _ ← expect (.keyword k) k.spelling

def acceptMeaning {β : Type} (meaning? : Token → Option β) : Reader (Option β) := do
  match (← get).token?.bind meaning? with
  | none => return none
  | some b =>
    let _ ← advance
    return some b

/-! Loops and nested readers. Each round and each call counts the clock down. -/

def skipLineEnds : Nat → Reader Unit
  | 0 => cutShort
  | clock + 1 => do
    if ← accept .endOfLine then skipLineEnds clock else return ()

def pastLineEnds : Nat → Nat → Reader Nat
  | 0, _ => cutShort
  | clock + 1, place => do
    match (← get).tokens[place]? with
    | none => return place
    | some t => if t.kind = .endOfLine then pastLineEnds clock (place + 1) else return place

/-- Goes in one move behind the `else` at a place, or stays if there is none. -/
def takeElse (place : Nat) : Reader Bool := do
  let c ← get
  match c.tokens[place]? with
  | none => return false
  | some t =>
    if t.kind = .keyword .elseWord then
      set (c.moveTo (place + 1))
      return true
    else return false

def acceptElse (clock : Nat) : Reader Bool := do
  let place ← pastLineEnds clock (← get).place
  takeElse place

/-! Expressions. -/

mutual

def expression : Nat → Reader Node
  | 0 => cutShort
  | clock + 1 => do
    let left ← operation clock levels
    if (← get).token?.any (isOperator "=") then
      let equals ← advance
      let value ← expression clock
      match left with
      | .path name => return .assign name value
      | _ => refuse (.invalidTarget equals)
    else return left

def operation : Nat → List (Token → Option BinaryOp) → Reader Node
  | 0, _ => cutShort
  | clock + 1, [] => unary clock
  | clock + 1, op? :: tighter => do
    let left ← operation clock tighter
    operationFrom clock op? tighter left

def operationFrom : Nat → (Token → Option BinaryOp) → List (Token → Option BinaryOp) → Node →
    Reader Node
  | 0, _, _, _ => cutShort
  | clock + 1, op?, tighter, left => do
    match ← acceptMeaning op? with
    | none => return left
    | some op =>
      let right ← operation clock tighter
      operationFrom clock op? tighter (.binary op left right)

def unary : Nat → Reader Node
  | 0 => cutShort
  | clock + 1 => do
    match ← acceptMeaning unaryOf with
    | none => primary clock
    | some op =>
      let operand ← unary clock
      return .unary op operand

def primary : Nat → Reader Node
  | 0 => cutShort
  | clock + 1 => do
    match (← get).token? with
    | none => refuse .expressionAtEnd
    | some t =>
      match t.kind with
      | .number => do
        let _ ← advance
        match Decimal.read t.text.toList with
        | .ok x => return .literal (.number x)
        | .error _ => refuse (.invalidNumber t)
      | .string => do
        let _ ← advance
        return .literal (.text t.text)
      | .keyword .trueWord => do
        let _ ← advance
        return .literal (.bool true)
      | .keyword .falseWord => do
        let _ ← advance
        return .literal (.bool false)
      | .keyword .nullWord => do
        let _ ← advance
        return .null
      | .identifier => do
        let _ ← advance
        if ← accept (.delimiter .leftParen) then
          let args ← arguments clock
          return .call t.text args
        else return .path t.text
      | .delimiter .leftParen => do
        let _ ← advance
        let e ← expression clock
        expectDelimiter .rightParen
        return e
      | .endOfInput => refuse .expressionAtEnd
      | _ => refuse (.wanted "expression" t)

def arguments : Nat → Reader (List Node)
  | 0 => cutShort
  | clock + 1 => do
    if (← get).nextIs (.delimiter .rightParen) then
      expectDelimiter .rightParen
      return []
    else
      let args ← argumentsFrom clock
      expectDelimiter .rightParen
      return args

def argumentsFrom : Nat → Reader (List Node)
  | 0 => cutShort
  | clock + 1 => do
    let first ← expression clock
    if ← accept (.delimiter .comma) then
      let others ← argumentsFrom clock
      return first :: others
    else return [first]

end

/-! Statements. Each form begins with its own word. -/

def condition (clock : Nat) : Reader Node := do
  expectDelimiter .leftParen
  let e ← expression clock
  expectDelimiter .rightParen
  return e

def parametersFrom : Nat → Reader (List String)
  | 0 => cutShort
  | clock + 1 => do
    let first ← expectName "parameter name"
    if ← accept (.delimiter .comma) then
      let others ← parametersFrom clock
      return first :: others
    else return [first]

def parameters (clock : Nat) : Reader (List String) := do
  if (← get).nextIs (.delimiter .rightParen) then
    expectDelimiter .rightParen
    return []
  else
    let names ← parametersFrom clock
    expectDelimiter .rightParen
    return names

def returnWith (clock : Nat) : Reader Node := do
  expectKeyword .returnWord
  let c ← get
  if c.nextIs .endOfLine || c.blockEnds then return .returnWith .null
  else
    let value ← expression clock
    return .returnWith value

def declaration (clock : Nat) : Reader Node := do
  expectKeyword .varWord
  let name ← expectName "variable name"
  if (← get).token?.any (isOperator "=") then
    let _ ← advance
    let value ← expression clock
    return .assign name value
  else return .assign name .null

def initializer (clock : Nat) : Reader Node := do
  if (← get).nextIs (.keyword .varWord) then declaration clock else expression clock

def triggerArguments (clock : Nat) : Reader (List Node) := do
  if ← accept (.delimiter .leftParen) then arguments clock else return []

def trigger (clock : Nat) : Reader Node := do
  expectKeyword .triggerWord
  let event ← expectName "event name"
  let args ← triggerArguments clock
  let _ ← accept .endOfLine
  return .trigger event args

def expressionStatement (clock : Nat) : Reader Node := do
  let e ← expression clock
  let _ ← accept .endOfLine
  return e

mutual

def statement : Nat → Reader Node
  | 0 => cutShort
  | clock + 1 => do
    match (← get).token? with
    | none => refuse .statementAtEnd
    | some t =>
      match t.kind with
      | .keyword .ifWord => branch clock
      | .keyword .whileWord => whileLoop clock
      | .keyword .forWord => forLoop clock
      | .keyword .functionWord => functionDef clock
      | .keyword .returnWord => returnWith clock
      | .keyword .varWord => declaration clock
      | .keyword .onWord => handler clock
      | .keyword .triggerWord => trigger clock
      | .delimiter .leftBrace => block clock
      | .endOfInput => refuse .statementAtEnd
      | _ => expressionStatement clock

def body : Nat → Reader Node
  | 0 => cutShort
  | clock + 1 => do
    skipLineEnds clock
    statement clock

def statements : Nat → (Cursor → Bool) → Reader (List Node)
  | 0, _ => cutShort
  | clock + 1, stop => do
    skipLineEnds clock
    if stop (← get) then return []
    else
      let first ← statement clock
      let others ← statements clock stop
      return first :: others

def block : Nat → Reader Node
  | 0 => cutShort
  | clock + 1 => do
    expectDelimiter .leftBrace
    let inside ← statements clock blockEnds
    expectDelimiter .rightBrace
    return .block inside

def branch : Nat → Reader Node
  | 0 => cutShort
  | clock + 1 => do
    expectKeyword .ifWord
    let test ← condition clock
    let yes ← body clock
    if ← acceptElse clock then
      let no ← body clock
      return .branch test yes (some no)
    else return .branch test yes none

def whileLoop : Nat → Reader Node
  | 0 => cutShort
  | clock + 1 => do
    expectKeyword .whileWord
    let test ← condition clock
    let inside ← body clock
    return .whileLoop test inside

def forLoop : Nat → Reader Node
  | 0 => cutShort
  | clock + 1 => do
    expectKeyword .forWord
    expectDelimiter .leftParen
    let init ← initializer clock
    let _ ← expect .endOfLine "`;`"
    let test ← expression clock
    let _ ← expect .endOfLine "`;`"
    let step ← expression clock
    expectDelimiter .rightParen
    let inside ← body clock
    return .forLoop init test step inside

def functionDef : Nat → Reader Node
  | 0 => cutShort
  | clock + 1 => do
    expectKeyword .functionWord
    let name ← expectName "function name"
    expectDelimiter .leftParen
    let params ← parameters clock
    let inside ← body clock
    return .functionDef name params inside

def handler : Nat → Reader Node
  | 0 => cutShort
  | clock + 1 => do
    expectKeyword .onWord
    let event ← expectName "event name"
    let inside ← body clock
    return .handler event inside

end

def script (clock : Nat) : Reader Node := do
  let inside ← statements clock atEnd
  return .block inside

end Cursor
end Parlance
