import AnalysisJobs.Json.Numeral
/-!
# JSON values

Values with the fields of an object in the order in which their names first
appeared.
-/

namespace AnalysisJobs

inductive Json
  | null
  | bool (b : Bool)
  | number (n : Numeral)
  | text (s : String)
  | array (items : List Json)
  | object (fields : List (String × Json))
  deriving Repr

namespace Json

def field? : Json → String → Option Json
  | object fields, name => fields.lookup name
  | _, _ => none

def count? : Json → Option Nat
  | number n => n.count?
  | _ => none

def bool? : Json → Option Bool
  | bool b => some b
  | _ => none

def text? : Json → Option String
  | text s => some s
  | _ => none

def items? : Json → Option (List Json)
  | array items => some items
  | _ => none

/-- Add a field to an object's fields; a name that is there already keeps its
place and takes the new value. -/
def putField (fields : List (String × Json)) (name : String) (value : Json) :
    List (String × Json) :=
  if fields.any (·.1 = name) then
    fields.map fun f => if f.1 = name then (name, value) else f
  else fields ++ [(name, value)]

def HasField (v : Json) (name : String) : Prop :=
  ∃ fields, v = object fields ∧ name ∈ fields.map Prod.fst

theorem isSome_field?_iff {v : Json} {name : String} :
    (v.field? name).isSome ↔ v.HasField name := by
  cases v with
  | object fields => simp [field?, HasField, List.lookup_isSome_iff]
  | null | bool | number | text | array => simp [field?, HasField]

theorem count?_eq_some_iff {v : Json} {k : Nat} :
    v.count? = some k ↔ v = number (.ofNat k) ∧ k < UInt64.size := by
  cases v with
  | number n => simp [count?, Numeral.count?_eq_some_iff]
  | null | bool | text | array | object => simp [count?]

theorem bool?_eq_some_iff {v : Json} {b : Bool} : v.bool? = some b ↔ v = bool b := by
  cases v <;> simp [bool?]

end Json

end AnalysisJobs
