import AnalysisJobs.Document.Key
import AnalysisJobs.Stamp
/-!
# Project configurations

A project is created and reconfigured by one operation, which takes a fresh
stamp each time.  A project that was removed and created again therefore never
passes for its earlier self.
-/

namespace AnalysisJobs

structure Project where
  id : ProjectId
  arguments : List String
  changedAt : Stamp
  deriving DecidableEq, Repr

/-- The known projects, one for each name. -/
structure Projects where
  entries : List Project
  deriving DecidableEq, Repr

namespace Projects

def empty : Projects := ⟨[]⟩

def find? (ps : Projects) (id : ProjectId) : Option Project :=
  ps.entries.find? fun p => p.id = id

def isKnown (ps : Projects) (id : ProjectId) : Bool := (ps.find? id).isSome

def put (ps : Projects) (id : ProjectId) (arguments : List String) (stamp : Stamp) : Projects :=
  if ps.isKnown id then
    ⟨ps.entries.map fun p => if p.id = id then ⟨id, arguments, stamp⟩ else p⟩
  else ⟨ps.entries ++ [⟨id, arguments, stamp⟩]⟩

def remove (ps : Projects) (id : ProjectId) : Projects :=
  ⟨ps.entries.filter fun p => p.id ≠ id⟩

def size (ps : Projects) : Nat := ps.entries.length

def sorted (ps : Projects) : List Project :=
  ps.entries.mergeSort fun p q => p.id ≤ q.id

theorem find?_remove_self (ps : Projects) (id : ProjectId) :
    (ps.remove id).find? id = none := by
  simp [find?, remove]

theorem find?_remove_of_ne (ps : Projects) {id other : ProjectId} (h : other ≠ id) :
    (ps.remove id).find? other = ps.find? other := by
  simp only [find?, remove, List.find?_filter]
  congr 1
  funext p
  by_cases hp : p.id = other <;> simp [hp, h]

theorem find?_put_self (ps : Projects) (id : ProjectId) (arguments : List String)
    (stamp : Stamp) : (ps.put id arguments stamp).find? id = some ⟨id, arguments, stamp⟩ := by
  unfold put
  split
  · rename_i h
    simp only [isKnown, find?, Option.isSome_iff_exists] at h ⊢
    obtain ⟨p, hp⟩ := h
    generalize ps.entries = entries at hp
    induction entries with
    | nil => simp at hp
    | cons q rest ih =>
      by_cases hq : q.id = id
      · simp [hq]
      · simp only [List.find?_cons, hq, decide_false] at hp
        simp [hq, ih hp]
  · rename_i h
    simp only [isKnown, find?, Option.isSome_iff_ne_none, ne_eq, Decidable.not_not] at h
    simp [find?, List.find?_append, h]

theorem find?_put_of_ne (ps : Projects) {id other : ProjectId} (h : other ≠ id)
    (arguments : List String) (stamp : Stamp) :
    (ps.put id arguments stamp).find? other = ps.find? other := by
  unfold put
  split
  · simp only [find?]
    induction ps.entries with
    | nil => rfl
    | cons q rest ih =>
      by_cases hq : q.id = id
      · simp [hq, Ne.symm h, ih]
      · by_cases ho : q.id = other
        · simp [ho, h]
        · simp [hq, ho, ih]
  · simp [find?, List.find?_append, Ne.symm h]

end Projects

end AnalysisJobs
