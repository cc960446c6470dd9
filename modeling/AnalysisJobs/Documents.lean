import AnalysisJobs.Document.Basic
/-!
# The store of open documents

Documents stand in the order in which they were opened.  A slot keeps the key
it was made with; opening a document that is open already replaces the copy in
its slot and leaves the slot in place.  Editor flags go by path: every project's
copy of a shown file is shown.  What happens is counted without bound, as nobody
opens or edits `2 ^ 64` documents.
-/

namespace AnalysisJobs

structure DocumentCounts where
  opened : Nat
  closed : Nat
  edited : Nat
  failures : Nat
  deriving DecidableEq, Repr

structure Slot where
  key : DocumentKey
  document : Document
  deriving DecidableEq, Repr

structure Documents where
  slots : List Slot
  counts : DocumentCounts
  deriving DecidableEq, Repr

namespace Documents

def empty : Documents := ⟨[], ⟨0, 0, 0, 0⟩⟩

def find? (ds : Documents) (k : DocumentKey) : Option Document :=
  (ds.slots.find? fun s => s.key.Same k).map Slot.document

def isOpen (ds : Documents) (k : DocumentKey) : Bool := (ds.find? k).isSome

/-- Whether a document is open and still the copy that was opened at `stamp`. -/
def isOpenSince (ds : Documents) (k : DocumentKey) (stamp : Stamp) : Bool :=
  (ds.find? k).any fun d => d.openedAt == stamp

def modify (ds : Documents) (k : DocumentKey) (f : Document → Document) : Documents :=
  { ds with
    slots := ds.slots.map fun s =>
      if s.key.Same k then { s with document := f s.document } else s }

def modifyAll (ds : Documents) (f : Document → Document) : Documents :=
  { ds with slots := ds.slots.map fun s => { s with document := f s.document } }

/-! ## Operations -/

/-- Open a document, or start it over in its place. -/
def openAt (ds : Documents) (k : DocumentKey) (stamp : Stamp) : Documents :=
  if ds.isOpen k then
    { ds.modify k (·.reopened k stamp) with counts.opened := ds.counts.opened + 1 }
  else
    { ds with
      slots := ds.slots ++ [⟨k, .fresh k stamp⟩]
      counts.opened := ds.counts.opened + 1 }

def edit (ds : Documents) (k : DocumentKey) : Documents :=
  if ds.isOpen k then
    { ds.modify k Document.edited with counts.edited := ds.counts.edited + 1 }
  else ds

def close (ds : Documents) (k : DocumentKey) : Documents :=
  if ds.isOpen k then
    { ds with
      slots := ds.slots.filter fun s => ¬ s.key.Same k
      counts.closed := ds.counts.closed + 1 }
  else ds

def showPaths (ds : Documents) (paths : List Path) : Documents :=
  ds.modifyAll fun d => { d with visible := paths.any fun p => d.key.path.Same p }

def focus (ds : Documents) (path : Option Path) : Documents :=
  ds.modifyAll fun d => { d with current := path.any fun p => d.key.path.Same p }

/-- Set or clear the parse-failed flag of an open document.  Only a document
that was intact counts as one more failure. -/
def setFailed (ds : Documents) (k : DocumentKey) (failed : Bool) : Documents :=
  match ds.find? k with
  | none => ds
  | some d =>
    { ds.modify k ({ · with failed := failed }) with
      counts.failures := ds.counts.failures + if failed && d.intact then 1 else 0 }

def markParsed (ds : Documents) (k : DocumentKey) (revision : UInt32) (stamp : Stamp) : Documents :=
  ds.modify k (·.parsed revision stamp)

def flagProject (ds : Documents) (project : ProjectId) : Documents :=
  ds.modifyAll fun d => if d.key.project = project then { d with needsReparse := true } else d

def countOf (ds : Documents) (project : ProjectId) : Nat :=
  ds.slots.countP fun s => s.document.key.project = project

/-! ## Views -/

/-- The keys that documents are found by, in the order of opening. -/
def keys (ds : Documents) : List DocumentKey := ds.slots.map Slot.key

def toList (ds : Documents) : List Document := ds.slots.map Slot.document

def dirty (ds : Documents) : List DocumentKey :=
  (ds.toList.filter Document.needsReparse).map Document.key

def size (ds : Documents) : Nat := ds.slots.length

/-! ## Operations as data -/

inductive Op
  | openDocument (key : DocumentKey)
  | edit (key : DocumentKey)
  | close (key : DocumentKey)
  | showPaths (paths : List Path)
  | focus (path : Option Path)
  | setFailed (key : DocumentKey) (failed : Bool)
  | markParsed (key : DocumentKey) (revision : UInt32)
  | flagProject (project : ProjectId)
  deriving DecidableEq, Repr

/-- The store after a change; `stamp` is the stamp that the change takes if it
takes one. -/
def apply (ds : Documents) (stamp : Stamp) : Op → Documents
  | .openDocument k => ds.openAt k stamp
  | .edit k => ds.edit k
  | .close k => ds.close k
  | .showPaths paths => ds.showPaths paths
  | .focus path => ds.focus path
  | .setFailed k failed => ds.setFailed k failed
  | .markParsed k revision => ds.markParsed k revision stamp
  | .flagProject project => ds.flagProject project

/-- Whether a change takes a stamp: an open always, a parse when its document
is there to be parsed. -/
def takesStamp (ds : Documents) : Op → Bool
  | .openDocument _ => true
  | .markParsed k _ => ds.isOpen k
  | _ => false

/-- The store after changes in order, each with the stamp that it takes if it
takes one. -/
def run (ds : Documents) (changes : List (Stamp × Op)) : Documents :=
  changes.foldl (fun ds change => ds.apply change.1 change.2) ds

@[simp] theorem run_cons (ds : Documents) (change : Stamp × Op)
    (rest : List (Stamp × Op)) :
    ds.run (change :: rest) = (ds.apply change.1 change.2).run rest := rfl

end Documents

end AnalysisJobs
