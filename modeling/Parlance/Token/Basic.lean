/-! Tokens and where they stand in the source. -/

namespace Parlance

/-- A line and a column, both counted from one. -/
structure Position where
  line : Nat
  column : Nat
  deriving Repr, DecidableEq, Inhabited

namespace Position

def start : Position := ⟨1, 1⟩

def next (p : Position) (c : Char) : Position :=
  if c = '\n' then ⟨p.line + 1, 1⟩ else ⟨p.line, p.column + 1⟩

def after (p : Position) (cs : List Char) : Position := cs.foldl next p

def message (p : Position) : String := s!"{p.line}:{p.column}"

end Position

inductive Keyword where
  | ifWord | elseWord | whileWord | forWord | functionWord | returnWord | trueWord | falseWord
  | nullWord | andWord | orWord | notWord | varWord | eventWord | onWord | triggerWord
  deriving Repr, DecidableEq

namespace Keyword

def spelling : Keyword → String
  | .ifWord => "if"
  | .elseWord => "else"
  | .whileWord => "while"
  | .forWord => "for"
  | .functionWord => "function"
  | .returnWord => "return"
  | .trueWord => "true"
  | .falseWord => "false"
  | .nullWord => "null"
  | .andWord => "and"
  | .orWord => "or"
  | .notWord => "not"
  | .varWord => "var"
  | .eventWord => "event"
  | .onWord => "on"
  | .triggerWord => "trigger"

def all : List Keyword :=
  [.ifWord, .elseWord, .whileWord, .forWord, .functionWord, .returnWord, .trueWord, .falseWord,
    .nullWord, .andWord, .orWord, .notWord, .varWord, .eventWord, .onWord, .triggerWord]

def ofSpelling? (s : String) : Option Keyword := all.find? (·.spelling == s)

end Keyword

inductive Delimiter where
  | leftParen | rightParen | leftBrace | rightBrace | leftBracket | rightBracket | comma | colon
  deriving Repr, DecidableEq

namespace Delimiter

def char : Delimiter → Char
  | .leftParen => '('
  | .rightParen => ')'
  | .leftBrace => '\x7b'
  | .rightBrace => '\x7d'
  | .leftBracket => '['
  | .rightBracket => ']'
  | .comma => ','
  | .colon => ':'

def all : List Delimiter :=
  [.leftParen, .rightParen, .leftBrace, .rightBrace, .leftBracket, .rightBracket, .comma, .colon]

def ofChar? (c : Char) : Option Delimiter := all.find? (·.char == c)

end Delimiter

namespace Token

inductive Kind where
  | identifier
  | number
  | string
  | operator
  | keyword (k : Keyword)
  | delimiter (d : Delimiter)
  | endOfLine
  | endOfInput
  deriving Repr, DecidableEq

def Kind.describe : Kind → String
  | .identifier => "identifier"
  | .number => "number"
  | .string => "string"
  | .operator => "operator"
  | .keyword k => k.spelling
  | .delimiter d => "`" ++ String.singleton d.char ++ "`"
  | .endOfLine => "end of line"
  | .endOfInput => "end of input"

end Token

/-- A lexeme. The text of a string is its contents, without quotes and escapes. -/
structure Token where
  kind : Token.Kind
  text : String
  position : Position
  deriving Repr, DecidableEq

end Parlance
