import AnalysisJobs.Path
import AnalysisJobs.Stamp
/-!
# Unsaved buffers

Editor buffers whose content differs from the disk.  All buffers share one
change stamp: any change counts against requests for every document, in
exchange for a comparison that does not depend on what a document includes.
-/

namespace AnalysisJobs

structure Buffer where
  path : Path
  content : String
  deriving DecidableEq, Repr

/-- The unsaved buffers, one for each path. -/
structure Buffers where
  entries : List Buffer
  changedAt : Stamp
  deriving DecidableEq, Repr

namespace Buffers

def empty (stamp : Stamp) : Buffers := ⟨[], stamp⟩

def find? (bs : Buffers) (path : Path) : Option Buffer :=
  bs.entries.find? fun b => b.path.Same path

def isUnsaved (bs : Buffers) (path : Path) : Bool := (bs.find? path).isSome

def put (bs : Buffers) (path : Path) (content : String) (stamp : Stamp) : Buffers where
  changedAt := stamp
  entries :=
    if bs.isUnsaved path then
      bs.entries.map fun b => if b.path.Same path then { b with content := content } else b
    else bs.entries ++ [⟨path, content⟩]

/-- Forget a buffer that was saved or reverted.  The change stamp moves only if
there was one. -/
def remove (bs : Buffers) (path : Path) (stamp : Stamp) : Buffers :=
  if bs.isUnsaved path then
    ⟨bs.entries.filter fun b => ¬ b.path.Same path, stamp⟩
  else bs

def size (bs : Buffers) : Nat := bs.entries.length

theorem changedAt_remove (bs : Buffers) (path : Path) (stamp : Stamp) :
    (bs.remove path stamp).changedAt = if bs.isUnsaved path then stamp else bs.changedAt := by
  unfold remove
  split <;> rfl

end Buffers

end AnalysisJobs
