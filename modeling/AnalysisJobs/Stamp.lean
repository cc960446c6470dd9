/-!
# Stamps and the clock they come from

Every change of the registry takes a fresh stamp.  "Changed since" is then a
comparison of two stamps, whatever happened in between.  Stamps are words of 64
bits; the clock itself counts without bound, so that a statement can say how
many stamps were taken before the words run out.
-/

namespace AnalysisJobs

structure Stamp where
  tick : UInt64
  deriving DecidableEq, Repr

namespace Stamp

/-- The stamp before every stamp that a clock hands out. -/
def origin : Stamp := ⟨0⟩

def isAfter (s t : Stamp) : Bool := t.tick < s.tick

def text (s : Stamp) : String := "t" ++ toString s.tick.toNat

end Stamp

/-- A change clock, known by how many stamps it has handed out. -/
structure Clock where
  taken : Nat
  deriving DecidableEq, Repr

namespace Clock

def start : Clock := ⟨0⟩

def next (c : Clock) : Stamp := ⟨UInt64.ofNat (c.taken + 1)⟩

def advance (c : Clock) : Clock := ⟨c.taken + 1⟩

@[simp] theorem taken_advance (c : Clock) : c.advance.taken = c.taken + 1 := rfl

theorem toNat_next {c : Clock} (h : c.taken < UInt64.size - 1) :
    c.next.tick.toNat = c.taken + 1 := by
  apply UInt64.toNat_ofNat_of_lt'
  omega

end Clock

end AnalysisJobs
