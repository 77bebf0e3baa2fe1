import Parlance.Pattern.Basic

/-! Reading a pattern from its written form: literals, `.`, `^`, `$`, classes in brackets, escapes,
groups, alternatives, and the repetitions `?`, `*`, `+` and counts in braces, each of which a
further `?` makes reluctant. -/

namespace Parlance.Pattern

structure Writing where
  rest : List Char
  groups : Nat := 0
  names : List (String × Nat) := []

abbrev Reader := StateT Writing Option

def peek : Reader (Option Char) := return (← get).rest.head?

def skip (n : Nat) : Reader Unit := modify fun w => { w with rest := w.rest.drop n }

def accept (s : String) : Reader Bool := do
  if s.toList.isPrefixOf (← get).rest then
    skip s.length
    return true
  else return false

def expect (s : String) : Reader Unit := do
  guard (← accept s)

def next : Reader Char := do
  match (← get).rest with
  | [] => failure
  | c :: _ =>
    skip 1
    return c

def takeWhile (p : Char → Bool) : Reader (List Char) := do
  let cs := (← get).rest.takeWhile p
  skip cs.length
  return cs

def classOf (c : Char) : Option ClassItem :=
  if c = 'w' then some (.word false) else if c = 'W' then some (.word true)
  else if c = 's' then some (.blank false) else if c = 'S' then some (.blank true)
  else if c = 'd' then some (.digit false) else if c = 'D' then some (.digit true)
  else none

def escaped (c : Char) : Option Char :=
  if c = 'n' then some '\n' else if c = 't' then some '\t' else if c = 'r' then some '\r'
  else if c = 'a' then some '\x07' else if c = 'f' then some '\x0c' else if c = 'v' then some '\x0b'
  else if c.toNat < 128 && !c.isAlphanum && c != '<' && c != '>' then some c
  else none

def escape : Reader Pattern := do
  let c ← next
  if let some item := classOf c then return .char (.oneOf false [item])
  if c = 'b' then return .place (.wordEdge false)
  if c = 'B' then return .place (.wordEdge true)
  if c = 'A' then return .place .textStart
  if c = 'z' then return .place .textEnd
  let l ← (escaped c : Option Char)
  return .char (.literal l)

def classAtom : Reader ClassItem := do
  let c ← next
  if c = '[' then failure
  if c = '\\' then
    let c ← next
    if let some item := classOf c then return item
    let l ← (escaped c : Option Char)
    return .range l l
  return .range c c

/-- Items of a class up to its closing bracket; `n` bounds their number. -/
def classItems : Nat → Reader (List ClassItem)
  | 0 => failure
  | n + 1 => do
    if ← accept "]" then return []
    let low ← classAtom
    let ahead := (← get).rest
    let item ← match ahead with
      | '-' :: c :: _ =>
        if c = ']' then pure low
        else do
          skip 1
          match low, ← classAtom with
          | .range l _, .range h _ => if l ≤ h then pure (ClassItem.range l h) else failure
          | _, _ => failure
      | _ => pure low
    let items ← classItems n
    return item :: items

/-- A class, after its opening bracket. Hyphens, or else a bracket, at the front are characters. -/
def charClass : Reader Pattern := do
  let negated ← accept "^"
  let hyphens ← takeWhile (· == '-')
  let bracket ← if hyphens.isEmpty then accept "]" else pure false
  let items ← classItems ((← get).rest.length + 1)
  let front :=
    hyphens.map (fun c => ClassItem.range c c) ++ if bracket then [.range ']' ']'] else []
  return .char (.oneOf negated (front ++ items))

def number : Reader Nat := do
  let _ ← takeWhile Text.isBlank
  let digits ← takeWhile Char.isDigit
  let _ ← takeWhile Text.isBlank
  guard !digits.isEmpty
  let n := digits.foldl (fun n c => 10 * n + (c.toNat - '0'.toNat)) 0
  guard (n < Nat.pow 2 32)
  return n

def bounds : Reader (Nat × Option Nat) := do
  let low ← number
  if ← accept "\x7d" then return (low, some low)
  expect ","
  if ← accept "\x7d" then return (low, none)
  let high ← number
  expect "\x7d"
  guard (low ≤ high)
  return (low, some high)

/-- A repetition sign that may follow an item, as a change of that item. -/
def repetition? : Reader (Option (Pattern → Pattern)) := do
  match ← peek with
  | some '?' =>
    skip 1
    let greedy := !(← accept "?")
    return some (.opt · greedy)
  | some '*' =>
    skip 1
    let greedy := !(← accept "?")
    return some (.star · greedy)
  | some '+' =>
    skip 1
    let greedy := !(← accept "?")
    return some (.plus · greedy)
  | some '\x7b' =>
    skip 1
    let (low, high) ← bounds
    let greedy := !(← accept "?")
    return some (.counted · low high greedy)
  | _ => return none

def startsGroupName (c : Char) : Bool := c == '_' || Text.isAlphabetic c

def continuesGroupName (c : Char) : Bool :=
  c == '_' || c == '.' || c == '[' || c == ']' || Text.isAlphanumeric c

def groupName : Reader String := do
  let name ← takeWhile continuesGroupName
  expect ">"
  guard (name.head?.any startsGroupName)
  let name := String.ofList name
  guard !((← get).names.any (·.1 == name))
  return name

/-- Opens a group, after its parenthesis: its number, unless it captures nothing. -/
def openGroup : Reader (Option Nat) := do
  if ← accept "?:" then return none
  let named ← if ← accept "?P<" then pure true else accept "?<"
  if named then
    let name ← groupName
    modify fun w => { w with groups := w.groups + 1, names := w.names ++ [(name, w.groups + 1)] }
    return some (← get).groups
  if ← accept "?" then failure
  modify fun w => { w with groups := w.groups + 1 }
  return some (← get).groups

def atom (c : Char) : Reader Pattern :=
  if c = '.' then pure (.char .any)
  else if c = '^' then pure (.place .textStart)
  else if c = '$' then pure (.place .textEnd)
  else if c = '\\' then escape
  else if c = '[' then charClass
  else pure (.char (.literal c))

def repeated : Nat → Pattern → Reader Pattern
  | 0, p => pure p
  | n + 1, p => do
    match ← repetition? with
    | some f => repeated n (f p)
    | none => return p

mutual
def items : Nat → Reader (List Pattern)
  | 0 => failure
  | n + 1 => do
    match ← peek with
    | none | some '|' | some ')' => return []
    | some '?' | some '*' | some '+' | some '\x7b' => failure
    | some '(' =>
      skip 1
      let index? ← openGroup
      let inside ← alternatives n
      expect ")"
      let item ← repeated (← get).rest.length <| match index? with
        | some index => .group index inside
        | none => inside
      let rest ← items n
      return item :: rest
    | some c =>
      skip 1
      let item ← repeated (← get).rest.length (← atom c)
      let rest ← items n
      return item :: rest
def alternatives : Nat → Reader Pattern
  | 0 => failure
  | n + 1 => do
    let first := concat (← items n)
    if ← accept "|" then
      let other ← alternatives n
      return .alt first other
    else return first
end

def ofText? (s : String) : Option (Pattern × List (String × Nat)) := do
  let (p, w) ← (alternatives (2 * s.length + 2)).run { rest := s.toList }
  guard w.rest.isEmpty
  return (p, w.names)

end Parlance.Pattern
