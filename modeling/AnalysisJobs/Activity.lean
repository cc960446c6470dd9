import AnalysisJobs.Path
import AnalysisJobs.Json.Written
/-!
# Editor activity

A notification of what the user is looking at: the file in the focused editor and
the files shown in any editor.  It is read from an object with these two fields or
from an array that lists them; fields that it does not know do not matter, but in
a text a field that it knows may be written only once.
-/

namespace AnalysisJobs

/-- What the user is looking at. -/
structure Activity where
  active : Option Path
  visible : List Path
  deriving DecidableEq, Repr

namespace Activity

def activeField : String := "activePath"

def visibleField : String := "visiblePaths"

def readActive? : Json → Option (Option Path)
  | .null => some none
  | .text s => some (some ⟨s⟩)
  | _ => none

def readVisible? (v : Json) : Option (List Path) :=
  v.items?.bind fun items => items.mapM fun item => item.text?.map Path.mk

/-- Read both fields; one that is absent stands for no file. -/
def ofFields? (active visible : Option Json) : Option Activity := do
  let active ← (active.map readActive?).getD (some none)
  let visible ← (visible.map readVisible?).getD (some [])
  return ⟨active, visible⟩

def ofJson? : Json → Option Activity
  | .object fields => ofFields? (fields.lookup activeField) (fields.lookup visibleField)
  | .array [active] => ofFields? (some active) none
  | .array [active, visible] => ofFields? (some active) (some visible)
  | _ => none

def isKnown (name : String) : Bool := name = activeField || name = visibleField

def ofWritten? : Json.Written → Option Activity
  | .object fields => do
    let fields ← fields.mapM fun f => f.1.map fun name => (name, f.2)
    let known := fields.filter fun f => isKnown f.1
    if (known.map Prod.fst).Nodup then
      ofJson? (.object (← known.mapM fun f => (f.2.value? Json.maxDepth).map fun v => (f.1, v)))
    else none
  | w => (w.value? Json.maxDepth).bind ofJson?

def read? (s : String) : Option Activity := (Json.Written.read? s).bind ofWritten?

end Activity

end AnalysisJobs
