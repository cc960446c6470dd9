import AnalysisJobs.Json.Numeral
/-!
# Tokens of JSON texts

A text is cut into tokens by a machine that takes one character at a time.  A
quoted text may be well formed and still spell no text, when it names one half
of a surrogate pair without the other; such a token is kept, without a text.
-/

namespace AnalysisJobs.Json

inductive Token
  | openBrace
  | closeBrace
  | openBracket
  | closeBracket
  | colon
  | comma
  | null
  | bool (b : Bool)
  | number (n : Numeral)
  | text (s : Option String)
  deriving DecidableEq, Repr

/-- A quoted text as far as it was read. -/
structure TextSoFar where
  /-- The characters, the latest first. -/
  chars : List Char
  /-- Whether every surrogate so far found its other half. -/
  sound : Bool
  /-- A leading surrogate that still waits for its other half. -/
  high : Option Nat

namespace TextSoFar

def start : TextSoFar := ⟨[], true, none⟩

def push (t : TextSoFar) (c : Char) : TextSoFar :=
  ⟨c :: t.chars, t.sound && t.high.isNone, none⟩

/-- The text with one more unit of 16 bits. -/
def pushUnit (t : TextSoFar) (unit : Nat) : TextSoFar :=
  if 0xD800 ≤ unit && unit < 0xDC00 then ⟨t.chars, t.sound && t.high.isNone, some unit⟩
  else if 0xDC00 ≤ unit && unit < 0xE000 then
    match t.high with
    | some high =>
      ⟨Char.ofNat (0x10000 + (high - 0xD800) * 0x400 + (unit - 0xDC00)) :: t.chars, t.sound, none⟩
    | none => ⟨t.chars, false, none⟩
  else t.push (Char.ofNat unit)

def finish (t : TextSoFar) : Option String :=
  if t.sound && t.high.isNone then some (String.ofList t.chars.reverse) else none

end TextSoFar

inductive Reading
  | between
  /-- In a word, its letters so far with the latest first. -/
  | word (chars : List Char)
  | number (chars : List Char)
  | text (t : TextSoFar)
  | escape (t : TextSoFar)
  /-- In the digits of a unit, so many of which are still to come. -/
  | unit (t : TextSoFar) (left : Nat) (value : Nat)

/-- The machine: the tokens so far with the latest first, and where it stands. -/
structure Scan where
  tokens : List Token
  reading : Reading

namespace Scan

def start : Scan := ⟨[], .between⟩

def wordToken? (word : List Char) : Option Token :=
  if word = ['n', 'u', 'l', 'l'] then some .null
  else if word = ['t', 'r', 'u', 'e'] then some (.bool true)
  else if word = ['f', 'a', 'l', 's', 'e'] then some (.bool false)
  else none

def mark? : Char → Option Token
  | '\x7b' => some .openBrace
  | '\x7d' => some .closeBrace
  | '[' => some .openBracket
  | ']' => some .closeBracket
  | ':' => some .colon
  | ',' => some .comma
  | _ => none

def isSeparator (c : Char) : Bool := c = ' ' || c = '\n' || c = '\r' || c = '\t'

def isNumberChar (c : Char) : Bool :=
  c.isDigit || c = '-' || c = '+' || c = '.' || c = 'e' || c = 'E'

def escapedChar? : Char → Option Char
  | '"' => some '"'
  | '\\' => some '\\'
  | '/' => some '/'
  | 'b' => some '\x08'
  | 'f' => some '\x0c'
  | 'n' => some '\n'
  | 'r' => some '\r'
  | 't' => some '\t'
  | _ => none

def hexDigit? (c : Char) : Option Nat :=
  if '0' ≤ c && c ≤ '9' then some (c.toNat - '0'.toNat)
  else if 'a' ≤ c && c ≤ 'f' then some (c.toNat - 'a'.toNat + 10)
  else if 'A' ≤ c && c ≤ 'F' then some (c.toNat - 'A'.toNat + 10)
  else none

def begin? (tokens : List Token) (c : Char) : Option Scan :=
  if isSeparator c then some ⟨tokens, .between⟩
  else if c = '"' then some ⟨tokens, .text .start⟩
  else if c.isDigit || c = '-' then some ⟨tokens, .number [c]⟩
  else if c.isLower then some ⟨tokens, .word [c]⟩
  else (mark? c).map fun token => ⟨token :: tokens, .between⟩

/-- End a word or a number that nothing follows. -/
def settle? (s : Scan) : Option (List Token) :=
  match s.reading with
  | .between => some s.tokens
  | .word chars => (wordToken? chars.reverse).map (· :: s.tokens)
  | .number chars => (Numeral.ofChars? chars.reverse).map (.number · :: s.tokens)
  | .text _ | .escape _ | .unit .. => none

def step? (s : Scan) (c : Char) : Option Scan :=
  match s.reading with
  | .between => begin? s.tokens c
  | .word chars =>
    if c.isLower then some { s with reading := .word (c :: chars) }
    else s.settle?.bind (begin? · c)
  | .number chars =>
    if isNumberChar c then some { s with reading := .number (c :: chars) }
    else s.settle?.bind (begin? · c)
  | .text t =>
    if c = '"' then some ⟨.text t.finish :: s.tokens, .between⟩
    else if c = '\\' then some { s with reading := .escape t }
    else if c.toNat < 0x20 then none
    else some { s with reading := .text (t.push c) }
  | .escape t =>
    if c = 'u' then some { s with reading := .unit t 4 0 }
    else (escapedChar? c).map fun d => { s with reading := .text (t.push d) }
  | .unit t left value =>
    (hexDigit? c).map fun d =>
      if left ≤ 1 then { s with reading := .text (t.pushUnit (value * 16 + d)) }
      else { s with reading := .unit t (left - 1) (value * 16 + d) }

end Scan

def Token.scan? (cs : List Char) : Option (List Token) := do
  let s ← cs.foldlM Scan.step? Scan.start
  let tokens ← s.settle?
  return tokens.reverse

end AnalysisJobs.Json
