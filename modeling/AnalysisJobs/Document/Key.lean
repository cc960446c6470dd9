import AnalysisJobs.Path
/-!
# Document keys

One file may be open under several project configurations, and each pairing is
a document of its own.  Two keys name the same document when their paths agree
by components and their projects are the same text.
-/

namespace AnalysisJobs

abbrev ProjectId := String

structure DocumentKey where
  path : Path
  project : ProjectId
  deriving DecidableEq, Repr

namespace DocumentKey

/-- What a key names, free of the spelling of its path. -/
def identity (k : DocumentKey) : List Component × ProjectId :=
  (k.path.components, k.project)

def Same (k l : DocumentKey) : Prop := k.identity = l.identity

instance (k l : DocumentKey) : Decidable (k.Same l) :=
  inferInstanceAs (Decidable (k.identity = l.identity))

def order (k l : DocumentKey) : Ordering :=
  (k.path.order l.path).then (compare k.project l.project)

def text (k : DocumentKey) : String := k.path.text ++ " [" ++ k.project ++ "]"

theorem same_refl (k : DocumentKey) : k.Same k := rfl

theorem Same.symm {k l : DocumentKey} (h : k.Same l) : l.Same k := Eq.symm h

theorem Same.trans {k l m : DocumentKey} (hkl : k.Same l) (hlm : l.Same m) : k.Same m :=
  Eq.trans hkl hlm

theorem same_iff {k l : DocumentKey} :
    k.Same l ↔ k.path.Same l.path ∧ k.project = l.project := by
  simp only [Same, identity, Path.Same, Prod.mk.injEq]

end DocumentKey

end AnalysisJobs
