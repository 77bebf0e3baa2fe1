import Parlance.Decimal.Reader
import Parlance.Script.Node
import Parlance.Token.Basic

/-! The grammar of scripts, read from the front of a token list. The list ends at its first
end-of-input token or where it has no more tokens. Nested readers are counted: a nested reader runs
only after a token was taken, so one more than the number of tokens is always enough. -/

namespace Parlance.Grammar
open Token (Kind)

/-- Why tokens form no script. A refusal at the end of the input has no token to show. -/
inductive Refusal where
  | wanted (what : String) (found : Token)
  | wantedAtEnd (what : String)
  | statementAtEnd
  | expressionAtEnd
  | invalidTarget (equals : Token)
  | invalidNumber (literal : Token)
  deriving Repr, DecidableEq

def Refusal.message : Refusal → String
  | .wanted what found =>
    if found.kind = .endOfLine then s!"expected {what}, found end of line"
    else s!"expected {what}, found `{found.text}`"
  | .wantedAtEnd what => s!"expected {what}, found end of input"
  | .statementAtEnd => "expected statement"
  | .expressionAtEnd => "unexpected end of input"
  | .invalidTarget _ => "invalid assignment target"
  | .invalidNumber literal => s!"invalid number `{literal.text}`"

def Refusal.token? : Refusal → Option Token
  | .wanted _ found => some found
  | .invalidTarget equals => some equals
  | .invalidNumber literal => some literal
  | _ => none

abbrev Parser := StateT (List Token) (Except Refusal)

def nextIs (kind : Kind) : List Token → Bool
  | [] => false
  | t :: _ => t.kind == kind

def atEnd : List Token → Bool
  | [] => true
  | t :: _ => t.kind == .endOfInput

def accept (kind : Kind) : Parser Bool := fun ts =>
  if nextIs kind ts then .ok (true, ts.tail) else .ok (false, ts)

def expect (kind : Kind) (what : String) : Parser Token
  | [] => .error (.wantedAtEnd what)
  | t :: rest =>
    if t.kind = kind then .ok (t, rest)
    else if t.kind = .endOfInput then .error (.wantedAtEnd what)
    else .error (.wanted what t)

def expectName (what : String) : Parser String := do
  let t ← expect .identifier what
  return t.text

def expectDelimiter (d : Delimiter) : Parser Unit := do
  let _ ← expect (.delimiter d) (Kind.delimiter d).describe

def skipLineEnds : Parser Unit := fun ts => .ok ((), ts.dropWhile (·.kind == .endOfLine))

/-- Takes an `else`, which may stand on a later line; other line ends are left alone. -/
def acceptElse : Parser Bool := fun ts =>
  let ahead := ts.dropWhile (·.kind == .endOfLine)
  if nextIs (.keyword .elseWord) ahead then .ok (true, ahead.tail) else .ok (false, ts)

/-- One or more items with commas between them; `n` bounds the commas. -/
def separated {α : Type} (item : Parser α) : Nat → Parser (List α)
  | 0 => do
    let a ← item
    return [a]
  | n + 1 => do
    let a ← item
    if ← accept (.delimiter .comma) then
      let rest ← separated item n
      return a :: rest
    else return [a]

def listed {α : Type} (item : Parser α) : Parser (List α) := do
  if nextIs (.delimiter .rightParen) (← get) then
    expectDelimiter .rightParen
    return []
  else
    let items ← separated item (← get).length
    expectDelimiter .rightParen
    return items

/-! Expressions. -/

def isOperator (text : String) (t : Token) : Bool := t.kind == .operator && t.text == text

def symbolOf (ops : List BinaryOp) (t : Token) : Option BinaryOp :=
  if t.kind = .operator then ops.find? (·.text == t.text) else none

def connective (word : Keyword) (symbol : String) (op : BinaryOp) (t : Token) : Option BinaryOp :=
  if t.kind = .keyword word || isOperator symbol t then some op else none

def levels : List (Token → Option BinaryOp) :=
  [connective .orWord "||" .or, connective .andWord "&&" .and, symbolOf [.eq, .ne],
    symbolOf [.lt, .gt, .le, .ge], symbolOf [.add, .sub], symbolOf [.mul, .div, .mod]]

/-- Goes on with `left` as long as operators of the level follow; `n` bounds their number. -/
def chainFrom (op? : Token → Option BinaryOp) (operand : Parser Node) : Nat → Node → Parser Node
  | 0, left => pure left
  | n + 1, left => fun ts =>
    match ts with
    | [] => .ok (left, ts)
    | t :: rest =>
      match op? t with
      | none => .ok (left, ts)
      | some op =>
        match operand rest with
        | .error e => .error e
        | .ok (right, rest) => chainFrom op? operand n (.binary op left right) rest

def chain (op? : Token → Option BinaryOp) (operand : Parser Node) : Parser Node := do
  let left ← operand
  chainFrom op? operand (← get).length left

def unaryOf (t : Token) : Option UnaryOp :=
  if isOperator "-" t then some .neg
  else if isOperator "!" t then some .bang
  else if t.kind = .keyword .notWord then some .not
  else none

def unary (operand : Parser Node) : Parser Node
  | [] => operand []
  | t :: rest =>
    match unaryOf t with
    | none => operand (t :: rest)
    | some op =>
      match unary operand rest with
      | .error e => .error e
      | .ok (e, rest) => .ok (.unary op e, rest)

/-- A literal, a name, a call or an expression in parentheses; `inner` reads a nested expression. -/
def primary (inner : Parser Node) : Parser Node
  | [] => .error .expressionAtEnd
  | t :: rest =>
    match t.kind with
    | .number =>
      match Decimal.read t.text.toList with
      | .ok x => .ok (.literal (.number x), rest)
      | .error _ => .error (.invalidNumber t)
    | .string => .ok (.literal (.text t.text), rest)
    | .keyword .trueWord => .ok (.literal (.bool true), rest)
    | .keyword .falseWord => .ok (.literal (.bool false), rest)
    | .keyword .nullWord => .ok (.null, rest)
    | .identifier =>
      if nextIs (.delimiter .leftParen) rest then
        (do return .call t.text (← listed inner) : Parser Node) rest.tail
      else .ok (.path t.text, rest)
    | .delimiter .leftParen =>
      (do
        let e ← inner
        expectDelimiter .rightParen
        return e : Parser Node) rest
    | .endOfInput => .error .expressionAtEnd
    | _ => .error (.wanted "expression" t)

def operation (inner : Parser Node) : Parser Node := levels.foldr chain (unary (primary inner))

/-- An assignment or an operation. Whether the left side can be assigned to is asked only after the
right side was read. -/
def assignment (inner : Parser Node) : Parser Node := fun ts =>
  match operation inner ts with
  | .error e => .error e
  | .ok (left, []) => .ok (left, [])
  | .ok (left, t :: rest) =>
    if isOperator "=" t then
      match inner rest with
      | .error e => .error e
      | .ok (value, rest) =>
        match left with
        | .path name => .ok (.assign name value, rest)
        | _ => .error (.invalidTarget t)
    else .ok (left, t :: rest)

def expression : Nat → Parser Node
  | 0 => fun _ => .error .expressionAtEnd
  | n + 1 => assignment (expression n)

/-! Statements. -/

def condition (expr : Parser Node) : Parser Node := do
  expectDelimiter .leftParen
  let e ← expr
  expectDelimiter .rightParen
  return e

/-- The body of a compound statement, which may begin on a later line. -/
def body (inner : Parser Node) : Parser Node := do
  skipLineEnds
  inner

def sequence (stop : List Token → Bool) (item : Parser Node) : Nat → Parser (List Node)
  | 0 => pure []
  | n + 1 => do
    skipLineEnds
    if stop (← get) then return []
    else
      let first ← item
      let rest ← sequence stop item n
      return first :: rest

def blockEnds (ts : List Token) : Bool := nextIs (.delimiter .rightBrace) ts || atEnd ts

def block (inner : Parser Node) : Parser Node := do
  let statements ← sequence blockEnds inner ((← get).length + 1)
  expectDelimiter .rightBrace
  return .block statements

def branch (expr inner : Parser Node) : Parser Node := do
  let test ← condition expr
  let yes ← body inner
  if ← acceptElse then
    let no ← body inner
    return .branch test yes (some no)
  else return .branch test yes none

def whileLoop (expr inner : Parser Node) : Parser Node := do
  let test ← condition expr
  let inside ← body inner
  return .whileLoop test inside

/-- A declaration, after the word `var`: a local assignment, of null if no value is given. -/
def declaration (expr : Parser Node) : Parser Node := do
  let name ← expectName "variable name"
  match ← get with
  | t :: rest =>
    if isOperator "=" t then
      set rest
      return .assign name (← expr)
    else return .assign name .null
  | [] => return .assign name .null

def forLoop (expr inner : Parser Node) : Parser Node := do
  expectDelimiter .leftParen
  let init ← if ← accept (.keyword .varWord) then declaration expr else expr
  let _ ← expect .endOfLine "`;`"
  let test ← expr
  let _ ← expect .endOfLine "`;`"
  let step ← expr
  expectDelimiter .rightParen
  let inside ← body inner
  return .forLoop init test step inside

def functionDef (inner : Parser Node) : Parser Node := do
  let name ← expectName "function name"
  expectDelimiter .leftParen
  let params ← listed (expectName "parameter name")
  let inside ← body inner
  return .functionDef name params inside

def returnWith (expr : Parser Node) : Parser Node := do
  let ts ← get
  if nextIs .endOfLine ts || blockEnds ts then return .returnWith .null
  else return .returnWith (← expr)

def handler (inner : Parser Node) : Parser Node := do
  let event ← expectName "event name"
  let inside ← body inner
  return .handler event inside

def trigger (expr : Parser Node) : Parser Node := do
  let event ← expectName "event name"
  let args ← if ← accept (.delimiter .leftParen) then listed expr else pure []
  let _ ← accept .endOfLine
  return .trigger event args

def expressionStatement (expr : Parser Node) : Parser Node := do
  let e ← expr
  let _ ← accept .endOfLine
  return e

def statement : Nat → Parser Node
  | 0 => fun _ => .error .statementAtEnd
  | n + 1 => fun ts =>
    let expr := expression (n + 1)
    let inner := statement n
    match ts with
    | [] => .error .statementAtEnd
    | t :: rest =>
      match t.kind with
      | .keyword .ifWord => branch expr inner rest
      | .keyword .whileWord => whileLoop expr inner rest
      | .keyword .forWord => forLoop expr inner rest
      | .keyword .functionWord => functionDef inner rest
      | .keyword .returnWord => returnWith expr rest
      | .keyword .varWord => declaration expr rest
      | .keyword .onWord => handler inner rest
      | .keyword .triggerWord => trigger expr rest
      | .delimiter .leftBrace => block inner rest
      | .endOfInput => .error .statementAtEnd
      | _ => expressionStatement expr ts

/-! Whole token lists. A refusal at the end of the input is placed at the last token. -/

def placed {α : Type} (ts : List Token) (r : Except Refusal (α × List Token)) :
    Except (Refusal × Option Position) α :=
  match r with
  | .ok (a, _) => .ok a
  | .error refusal => .error (refusal, (refusal.token? <|> ts.getLast?).map (·.position))

def readExpression (ts : List Token) : Except (Refusal × Option Position) Node :=
  placed ts (expression (ts.length + 1) ts)

def readScript (ts : List Token) : Except (Refusal × Option Position) Node :=
  (placed ts (sequence atEnd (statement (ts.length + 1)) (ts.length + 1) ts)).map .block

end Parlance.Grammar
