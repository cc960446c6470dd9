import AnalysisJobs.Request.Basic
/-!
# Staleness

A request is checked against a live view in three stages: its document, the
unsaved buffers and its project.  A stage reads its part of the registry only
if the request requires something of it, and the first requirement that fails
is the reason reported.  A missing document ends the check at its stage even
for a request that does not require the document to be open.
-/

namespace AnalysisJobs

inductive Staleness
  | documentClosed
  | projectMissing
  | projectChanged
  | revisionChanged
  | buffersChanged
  | documentNotIntact
  deriving DecidableEq, Repr

namespace Staleness

def name : Staleness → String
  | documentClosed => "DocumentClosed"
  | projectMissing => "ProjectDoesNotExist"
  | projectChanged => "CurrentProjectPartChanged"
  | revisionChanged => "CurrentDocumentRevisionChanged"
  | buffersChanged => "CurrentUnsavedFilesChanged"
  | documentNotIntact => "DocumentNotIntact"

/-- The requirement that a reason says was not met. -/
def requirement : Staleness → Requirement
  | documentClosed => .documentOpen
  | projectMissing => .projectExists
  | projectChanged => .currentProject
  | revisionChanged => .currentRevision
  | buffersChanged => .currentBuffers
  | documentNotIntact => .documentIntact

end Staleness

/-- A part of the registry that a check can read. -/
inductive Part
  | document
  | buffers
  | project
  deriving DecidableEq, Repr

/-- What one stage of a check comes to. -/
inductive Verdict
  | pass
  | settled (reason : Option Staleness)
  deriving DecidableEq, Repr

namespace Request

def aboutDocument : Requirements :=
  .ofTest fun
    | .documentOpen | .documentIntact | .currentRevision => true
    | _ => false

def aboutProject : Requirements :=
  .ofTest fun
    | .projectExists | .currentProject => true
    | _ => false

/-- The parts of the registry that the request's requirements are about, in the
order of the stages. -/
def readsPart (r : Request) : Part → Bool
  | .document => r.requirements.touches aboutDocument
  | .buffers => r.requirements.has .currentBuffers
  | .project => r.requirements.touches aboutProject

def checkDocument (r : Request) : Option Document → Verdict
  | none => .settled (if r.requirements.has .documentOpen then some .documentClosed else none)
  | some d =>
    if r.requirements.has .documentIntact && d.failed then .settled (some .documentNotIntact)
    else if r.requirements.has .currentRevision && d.revision != r.revision then
      .settled (some .revisionChanged)
    else .pass

def checkBuffers (r : Request) (live : Stamp) : Verdict :=
  if live.isAfter r.buffersAt then .settled (some .buffersChanged) else .pass

def checkProject (r : Request) : Option Stamp → Verdict
  | none => if r.requirements.has .projectExists then .settled (some .projectMissing) else .pass
  | some live =>
    if r.requirements.has .currentProject && live.isAfter r.projectAt then
      .settled (some .projectChanged)
    else .pass

def check (r : Request) (view : View) : Part → Verdict
  | .document => r.checkDocument (view.document r.key)
  | .buffers => r.checkBuffers view.buffersChange
  | .project => r.checkProject (view.projectChange r.key.project)

/-- Go through stages, reporting which parts were read and the first reason. -/
def examine (r : Request) (view : View) : List Part → List Part × Option Staleness
  | [] => ([], none)
  | part :: rest =>
    if r.readsPart part then
      match r.check view part with
      | .settled reason => ([part], reason)
      | .pass =>
        let (parts, reason) := r.examine view rest
        (part :: parts, reason)
    else r.examine view rest

def stages : List Part := [.document, .buffers, .project]

/-- The first requirement of the request that fails, if one does. -/
def staleness (r : Request) (view : View) : Option Staleness := (r.examine view stages).2

def partsRead (r : Request) (view : View) : List Part := (r.examine view stages).1

def isStale (r : Request) (view : View) : Bool := (r.staleness view).isSome

theorem staleness_eq (r : Request) (view : View) :
    r.staleness view =
      match (if r.readsPart .document then r.check view .document else .pass) with
      | .settled reason => reason
      | .pass =>
        match (if r.readsPart .buffers then r.check view .buffers else .pass) with
        | .settled reason => reason
        | .pass =>
          match (if r.readsPart .project then r.check view .project else .pass) with
          | .settled reason => reason
          | .pass => none := by
  unfold staleness stages
  cases hd : r.readsPart .document <;> cases hb : r.readsPart .buffers <;>
    cases hp : r.readsPart .project <;> simp only [examine, hd, hb, hp, if_true] <;>
    cases r.check view .document <;> cases r.check view .buffers <;>
    cases r.check view .project <;> simp

end Request

end AnalysisJobs
