/-! Reading JSON text, byte by byte. A value is either wanted, a string or a truth value, or skipped;
a value that is skipped has to be well formed but what its strings mean is not looked at. -/

namespace Parlance.Json

/-- Reads from the front of a byte string; there are no messages, only failure. -/
abbrev Reader := StateT (List UInt8) Option

def byte (c : Char) : UInt8 := c.toUInt8

def isSpace (b : UInt8) : Bool :=
  b == byte ' ' || b == byte '\t' || b == byte '\n' || b == byte '\r'

def isDigit (b : UInt8) : Bool := byte '0' ≤ b && b ≤ byte '9'

def peek : Reader (Option UInt8) := return (← get).head?

def next : Reader UInt8 := do
  match ← get with
  | [] => failure
  | b :: rest =>
    set rest
    return b

def skipSpaces : Reader Unit := modify fun bs => bs.dropWhile isSpace

def accept (b : UInt8) : Reader Bool := do
  match ← get with
  | c :: rest =>
    if c = b then
      set rest
      return true
    else return false
  | [] => return false

def expect (b : UInt8) : Reader Unit := do
  guard (← accept b)

def word (s : String) : Reader Unit := s.toList.forM fun c => expect (byte c)

def hexDigit (b : UInt8) : Option Nat :=
  if isDigit b then some (b.toNat - (byte '0').toNat)
  else if byte 'a' ≤ b && b ≤ byte 'f' then some (b.toNat - (byte 'a').toNat + 10)
  else if byte 'A' ≤ b && b ≤ byte 'F' then some (b.toNat - (byte 'A').toNat + 10)
  else none

def hexCode : Reader Nat := do
  let mut n := 0
  for _ in [0, 1, 2, 3] do
    let d ← (hexDigit (← next) : Option Nat)
    n := 16 * n + d
  return n

/-- The character of an escape that begins with the code `n`. The two halves of a pair have to come
together. -/
def codePoint (n : Nat) : Reader Char := do
  if 0xDC00 ≤ n && n ≤ 0xDFFF then failure
  else if 0xD800 ≤ n && n ≤ 0xDBFF then
    expect (byte '\\')
    expect (byte 'u')
    let low ← hexCode
    guard (0xDC00 ≤ low && low ≤ 0xDFFF)
    return Char.ofNat (0x10000 + (n - 0xD800) * 0x400 + (low - 0xDC00))
  else return Char.ofNat n

def shortEscape (b : UInt8) : Option Char :=
  if b = byte '"' then some '"' else if b = byte '\\' then some '\\'
  else if b = byte '/' then some '/' else if b = byte 'b' then some '\x08'
  else if b = byte 'f' then some '\x0c' else if b = byte 'n' then some '\n'
  else if b = byte 'r' then some '\r' else if b = byte 't' then some '\t'
  else none

def stringBytes : Nat → List UInt8 → Reader (List UInt8)
  | 0, _ => failure
  | n + 1, done => do
    let b ← next
    if b = byte '"' then return done
    else if b = byte '\\' then
      let e ← next
      let c ← if e = byte 'u' then codePoint (← hexCode) else (shortEscape e : Option Char)
      stringBytes n (done ++ (String.singleton c).toUTF8.toList)
    else
      guard (0x20 ≤ b)
      stringBytes n (done ++ [b])

def string : Reader String := do
  expect (byte '"')
  let bytes ← stringBytes ((← get).length + 1) []
  (String.fromUTF8? ⟨bytes.toArray⟩ : Option String)

def bool : Reader Bool := do
  if (← peek) = some (byte 't') then
    word "true"
    return true
  else
    word "false"
    return false

def skipString : Nat → Reader Unit
  | 0 => failure
  | n + 1 => do
    let b ← next
    if b = byte '"' then return ()
    else if b = byte '\\' then
      let e ← next
      if e = byte 'u' then
        let _ ← hexCode
      else guard (shortEscape e).isSome
      skipString n
    else
      guard (0x20 ≤ b)
      skipString n

def skipDigits : Reader Unit := do
  let bs ← get
  guard (bs.head?.any isDigit)
  set (bs.dropWhile isDigit)

/-- Skips a number: no idle zeros in front, and digits on both sides of a point. -/
def skipNumber : Reader Unit := do
  let _ ← accept (byte '-')
  if ← accept (byte '0') then guard !((← get).head?.any isDigit)
  else skipDigits
  if ← accept (byte '.') then skipDigits
  if (← peek) = some (byte 'e') || (← peek) = some (byte 'E') then
    let _ ← next
    if !(← accept (byte '+')) then
      let _ ← accept (byte '-')
    skipDigits

def skipItems (item : Reader Unit) (close : UInt8) : Nat → Reader Unit
  | 0 => failure
  | n + 1 => do
    item
    skipSpaces
    if ← accept (byte ',') then skipItems item close n
    else expect close

def skipValue : Nat → Reader Unit
  | 0 => failure
  | n + 1 => do
    skipSpaces
    let length := (← get).length + 1
    match ← peek with
    | none => failure
    | some b =>
      if b = byte '"' then
        let _ ← next
        skipString length
      else if b = byte 'n' then word "null"
      else if b = byte 't' then word "true"
      else if b = byte 'f' then word "false"
      else if b = byte '[' then
        let _ ← next
        skipSpaces
        if ← accept (byte ']') then return ()
        else skipItems (skipValue n) (byte ']') length
      else if b = byte '\x7b' then
        let _ ← next
        skipSpaces
        if ← accept (byte '\x7d') then return ()
        else
          let pair : Reader Unit := do
            skipSpaces
            expect (byte '"')
            skipString length
            skipSpaces
            expect (byte ':')
            skipValue n
          skipItems pair (byte '\x7d') length
      else skipNumber

end Parlance.Json
