import AnalysisJobs.Registry.View
import AnalysisJobs.Request.Kind
/-!
# Requests

A request is a unit of work together with a snapshot of the registry at the
time it was made.  The snapshot never changes afterwards; whether the request
is still worth running is judged by comparing the snapshot with a live view.
-/

namespace AnalysisJobs

structure Request where
  kind : Kind
  key : DocumentKey
  revision : UInt32
  /-- When the copy that the request was made for had been opened. -/
  openedAt : Stamp
  buffersAt : Stamp
  projectAt : Stamp
  requirements : Requirements
  line : UInt32
  column : UInt32
  /-- Ticket that a completion's result carries back. -/
  ticket : UInt64
  deriving DecidableEq, Repr

namespace Request

/-- A request made against a view.  A document or project that is missing
leaves the origin in the snapshot. -/
def make (kind : Kind) (key : DocumentKey) (view : View) : Request :=
  let document := view.document key
  { kind := kind
    key := key
    revision := (document.map Document.revision).getD 0
    openedAt := (document.map Document.openedAt).getD .origin
    buffersAt := view.buffersChange
    projectAt := (view.projectChange key.project).getD .origin
    requirements := kind.requirements
    line := 0
    column := 0
    ticket := 0 }

def withPosition (r : Request) (line column : UInt32) (ticket : UInt64) : Request :=
  { r with line := line, column := column, ticket := ticket }

def isFor (r : Request) (key : DocumentKey) : Bool := r.key.Same key

/-- Two requests that differ at most in how their paths are spelled. -/
def Same (r s : Request) : Prop := r.key.Same s.key ∧ { r with key := s.key } = s

instance (r s : Request) : Decidable (r.Same s) :=
  inferInstanceAs (Decidable (r.key.Same s.key ∧ { r with key := s.key } = s))

def text (r : Request) : String :=
  r.kind.name ++ " for " ++ r.key.text ++ " at revision " ++ toString r.revision.toNat

@[simp] theorem kind_make (kind : Kind) (key : DocumentKey) (view : View) :
    (make kind key view).kind = kind := rfl

@[simp] theorem key_make (kind : Kind) (key : DocumentKey) (view : View) :
    (make kind key view).key = key := rfl

@[simp] theorem requirements_make (kind : Kind) (key : DocumentKey) (view : View) :
    (make kind key view).requirements = kind.requirements := rfl

@[simp] theorem buffersAt_make (kind : Kind) (key : DocumentKey) (view : View) :
    (make kind key view).buffersAt = view.buffersChange := rfl

end Request

end AnalysisJobs
