import AnalysisJobs.Document.Key
import AnalysisJobs.Stamp
/-!
# Open documents

What a scheduler has to know about one open copy of a document: when the copy
was opened, how often it was edited, where the editor shows it and what the
last parse said.  Revisions are words of 32 bits and wrap.
-/

namespace AnalysisJobs

structure Document where
  key : DocumentKey
  openedAt : Stamp
  /-- Edits of this copy. -/
  revision : UInt32
  visible : Bool
  /-- Shown in the focused editor. -/
  current : Bool
  failed : Bool
  /-- Edited or reconfigured since the last parse that succeeded. -/
  needsReparse : Bool
  lastParse : Option Stamp
  deriving DecidableEq, Repr

namespace Document

def fresh (key : DocumentKey) (openedAt : Stamp) : Document where
  key := key
  openedAt := openedAt
  revision := 0
  visible := false
  current := false
  failed := false
  needsReparse := true
  lastParse := none

def intact (d : Document) : Bool := !d.failed

/-- The copy that replaces `d` when its document is opened again: it starts
over, but the editor still shows it where it showed `d`. -/
def reopened (d : Document) (key : DocumentKey) (openedAt : Stamp) : Document :=
  { fresh key openedAt with visible := d.visible, current := d.current }

def edited (d : Document) : Document :=
  { d with revision := d.revision + 1, needsReparse := true }

/-- A parse of revision `parsed` succeeded; later edits keep the copy dirty. -/
def parsed (d : Document) (revision : UInt32) (stamp : Stamp) : Document :=
  { d with
    failed := false
    needsReparse := d.revision != revision
    lastParse := some stamp }

end Document

end AnalysisJobs
