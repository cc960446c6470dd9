import AnalysisJobs.Json.Basic
import AnalysisJobs.Json.Token
/-!
# JSON texts as they are written

A text is first read as it stands: fields may repeat, a quoted text may spell no
text and a number may denote none.  A value asks for more: every text spelled
out, every number finite, a limited depth, and of a repeated field the last
writing counts.
-/

namespace AnalysisJobs.Json

/-- A JSON text as it is written. -/
inductive Written
  | null
  | bool (b : Bool)
  | number (n : Numeral)
  | text (s : Option String)
  | array (items : List Written)
  | object (fields : List (Option String × Written))

/-- A bracket that is still to be closed, with what it holds so far, the latest first. -/
inductive Frame
  | array (items : List Written)
  | object (fields : List (Option String × Written))
  /-- An object that waits for the value of a field. -/
  | field (fields : List (Option String × Written)) (name : Option String)

/-- What may come next. -/
inductive Stage
  | value
  /-- A value, or the end of the array that was just opened. -/
  | firstItem
  /-- The name of a field, or the end of the object that was just opened. -/
  | firstField
  | name
  | colon
  /-- A comma or the end of what is open. -/
  | more
  | complete (w : Written)

/-- A text in the making: the open brackets, the innermost first, and what may
come next. -/
structure Build where
  stack : List Frame
  stage : Stage

namespace Build

def start : Build := ⟨[], .value⟩

def place : List Frame → Written → Option Build
  | [], w => some ⟨[], .complete w⟩
  | .array items :: stack, w => some ⟨.array (w :: items) :: stack, .more⟩
  | .field fields name :: stack, w => some ⟨.object ((name, w) :: fields) :: stack, .more⟩
  | .object _ :: _, _ => none

def value? (stack : List Frame) : Token → Option Build
  | .null => place stack .null
  | .bool b => place stack (.bool b)
  | .number n => place stack (.number n)
  | .text s => place stack (.text s)
  | .openBracket => some ⟨.array [] :: stack, .firstItem⟩
  | .openBrace => some ⟨.object [] :: stack, .firstField⟩
  | _ => none

def name? : List Frame → Token → Option Build
  | .object fields :: stack, .text s => some ⟨.field fields s :: stack, .colon⟩
  | _, _ => none

def close? : List Frame → Token → Option Build
  | .array items :: stack, .closeBracket => place stack (.array items.reverse)
  | .object fields :: stack, .closeBrace => place stack (.object fields.reverse)
  | _, _ => none

def comma? : List Frame → Option Build
  | .array items :: stack => some ⟨.array items :: stack, .value⟩
  | .object fields :: stack => some ⟨.object fields :: stack, .name⟩
  | _ => none

def step? (b : Build) (token : Token) : Option Build :=
  match b.stage with
  | .value => value? b.stack token
  | .firstItem => if token = .closeBracket then close? b.stack token else value? b.stack token
  | .firstField => if token = .closeBrace then close? b.stack token else name? b.stack token
  | .name => name? b.stack token
  | .colon => if token = .colon then some { b with stage := .value } else none
  | .more => if token = .comma then comma? b.stack else close? b.stack token
  | .complete _ => none

end Build

namespace Written

def ofTokens? (tokens : List Token) : Option Written := do
  let b ← tokens.foldlM Build.step? Build.start
  match b.stage with
  | .complete w => some w
  | _ => none

def read? (s : String) : Option Written := do
  let tokens ← Token.scan? s.toList
  ofTokens? tokens

mutual
/-- The value of a text whose brackets are nested at most so deep. -/
def value? : Nat → Written → Option Json
  | _, null => some .null
  | _, bool b => some (.bool b)
  | _, number n => if n.isFinite then some (.number n) else none
  | _, text s => s.map .text
  | 0, array _ => none
  | depth + 1, array items => (values? depth items).map .array
  | 0, object _ => none
  | depth + 1, object fields => (fields? depth [] fields).map .object
def values? : Nat → List Written → Option (List Json)
  | _, [] => some []
  | depth, w :: rest =>
    match w.value? depth, values? depth rest with
    | some v, some vs => some (v :: vs)
    | _, _ => none
def fields? : Nat → List (String × Json) → List (Option String × Written) →
    Option (List (String × Json))
  | _, done, [] => some done
  | depth, done, (name, w) :: rest =>
    match name, w.value? depth with
    | some name, some v => fields? depth (putField done name v) rest
    | _, _ => none
end

end Written

def maxDepth : Nat := 127

def read? (s : String) : Option Json := (Written.read? s).bind (·.value? maxDepth)

end AnalysisJobs.Json
