import Parlance.Text.Class
import Parlance.Token.Basic

/-! Cutting a source into tokens. One step takes the longest lexeme, or the gap, at the start of the
text; the positions follow from the characters that the steps have taken. -/

namespace Parlance.Token

inductive Refusal where
  | unterminated
  | unexpected (c : Char)
  deriving Repr, DecidableEq

def Refusal.message : Refusal → String
  | .unterminated => "unterminated string literal"
  | .unexpected c => s!"unexpected character `{c}`"

def isOperatorChar (c : Char) : Bool := "+-*/=<>!&|%^".toList.contains c

def startsName (c : Char) : Bool := Text.isAlphabetic c || c == '_'

def continuesName (c : Char) : Bool := Text.isAlphanumeric c || c == '_' || c == '.'

def nameKind (text : String) : Kind :=
  match Keyword.ofSpelling? text with
  | some k => .keyword k
  | none => .identifier

def unescape (c : Char) : Char :=
  if c = 'n' then '\n' else if c = 'r' then '\r' else if c = 't' then '\t'
  else if c = '0' then '\x00' else c

/-- A stretch of source at the front of a text: a token or, with no kind, a gap between tokens. -/
structure Lexeme where
  kind? : Option Kind
  text : List Char
  /-- The characters of the source that the lexeme covers. -/
  taken : List Char
  rest : List Char

namespace Lexeme

def gap (taken rest : List Char) : Lexeme := ⟨none, [], taken, rest⟩

def plain (kind : Kind) (taken rest : List Char) : Lexeme := ⟨some kind, taken, taken, rest⟩

def number (cs : List Char) : Lexeme :=
  let whole := cs.takeWhile Char.isDigit
  match cs.dropWhile Char.isDigit with
  | '.' :: rest =>
    plain .number (whole ++ '.' :: rest.takeWhile Char.isDigit) (rest.dropWhile Char.isDigit)
  | rest => plain .number whole rest

/-- The contents of a string up to its closing quote, the source they cover with that quote, and
what comes after it. -/
def contents (quote : Char) : List Char → Option (List Char × List Char × List Char)
  | [] => none
  | '\\' :: c :: rest =>
    (contents quote rest).map fun (text, taken, left) =>
      (unescape c :: text, '\\' :: c :: taken, left)
  | c :: rest =>
    if c = quote then some ([], [c], rest)
    else (contents quote rest).map fun (text, taken, left) => (c :: text, c :: taken, left)

def first (c : Char) (cs : List Char) : Except Refusal Lexeme :=
  if c = '\n' then .ok (plain .endOfLine [c] cs)
  else if Text.isBlank c then .ok (gap [c] cs)
  else if c = '#' then .ok (gap (c :: cs.takeWhile (· != '\n')) (cs.dropWhile (· != '\n')))
  else if startsName c then
    let name := c :: cs.takeWhile continuesName
    .ok (plain (nameKind (String.ofList name)) name (cs.dropWhile continuesName))
  else if c.isDigit then .ok (number (c :: cs))
  else if c = '"' || c = '\'' then
    match contents c cs with
    | some (text, taken, rest) => .ok ⟨some .string, text, c :: taken, rest⟩
    | none => .error .unterminated
  else if c = ';' then .ok (plain .endOfLine [c] cs)
  else if isOperatorChar c then
    .ok (plain .operator (c :: cs.takeWhile isOperatorChar) (cs.dropWhile isOperatorChar))
  else
    match Delimiter.ofChar? c with
    | some d => .ok (plain (.delimiter d) [c] cs)
    | none => .error (.unexpected c)

theorem length_dropWhile_le {p : Char → Bool} (cs : List Char) :
    (cs.dropWhile p).length ≤ cs.length := (List.dropWhile_suffix p).length_le

theorem contents_rest_le {quote : Char} {cs text taken rest : List Char}
    (h : contents quote cs = some (text, taken, rest)) : rest.length ≤ cs.length := by
  fun_induction contents quote cs generalizing text taken rest with
  | case1 => simp at h
  | case2 c cs ih =>
    obtain ⟨⟨a, b, r⟩, hr, he⟩ := Option.map_eq_some_iff.1 h
    simp only [Prod.mk.injEq] at he
    have := ih hr
    simp only [List.length_cons, ← he.2.2]
    omega
  | case3 cs =>
    simp only [Option.some.injEq, Prod.mk.injEq] at h
    simp [← h.2.2]
  | case4 c cs _ _ ih =>
    obtain ⟨⟨a, b, r⟩, hr, he⟩ := Option.map_eq_some_iff.1 h
    simp only [Prod.mk.injEq] at he
    have := ih hr
    simp only [List.length_cons, ← he.2.2]
    omega

theorem number_rest_lt {c : Char} {cs : List Char} (h : c.isDigit = true) :
    (number (c :: cs)).rest.length ≤ cs.length := by
  have hd : (c :: cs).dropWhile Char.isDigit = cs.dropWhile Char.isDigit := by simp [h]
  have hl := length_dropWhile_le (p := Char.isDigit) cs
  simp only [number, hd]
  split
  · next rest hr =>
    have := length_dropWhile_le (p := Char.isDigit) rest
    rw [hr, List.length_cons] at hl
    simp only [plain]
    omega
  · simpa [plain] using hl

theorem first_rest_le {c : Char} {cs : List Char} {l : Lexeme} (h : first c cs = .ok l) :
    l.rest.length ≤ cs.length := by
  unfold first at h
  repeat' split at h
  all_goals first | contradiction | cases h
  all_goals first
    | exact Nat.le_refl _
    | exact length_dropWhile_le cs
    | exact number_rest_lt ‹_›
    | exact contents_rest_le ‹_›

end Lexeme

def scanFrom (p : Position) : List Char → Except (Refusal × Position) (List Token)
  | [] => .ok [⟨.endOfInput, "", p⟩]
  | c :: cs =>
    match _h : Lexeme.first c cs with
    | .error refusal => .error (refusal, p)
    | .ok l =>
      match scanFrom (p.after l.taken) l.rest with
      | .error e => .error e
      | .ok tokens =>
        .ok (match l.kind? with
          | some kind => ⟨kind, String.ofList l.text, p⟩ :: tokens
          | none => tokens)
termination_by cs => cs.length
decreasing_by exact Nat.lt_succ_of_le (Lexeme.first_rest_le _h)

def scan (source : String) : Except (Refusal × Position) (List Token) :=
  scanFrom .start source.toList

end Parlance.Token
