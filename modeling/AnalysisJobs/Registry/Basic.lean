import AnalysisJobs.Activity
import AnalysisJobs.Buffers
import AnalysisJobs.Documents
import AnalysisJobs.Projects
import AnalysisJobs.Registry.View
/-!
# The registry

Open documents, project configurations and unsaved buffers under one clock.
-/

namespace AnalysisJobs

/-- Everything that a scheduler judges requests by. -/
structure Registry where
  clock : Clock
  documents : Documents
  projects : Projects
  buffers : Buffers
  deriving DecidableEq, Repr

namespace Registry

/-- A registry that holds nothing.  Its buffers have taken the first stamp. -/
def new : Registry where
  clock := Clock.start.advance
  documents := .empty
  projects := .empty
  buffers := .empty Clock.start.next

def view (reg : Registry) : View where
  document := reg.documents.find?
  projectChange id := (reg.projects.find? id).map Project.changedAt
  buffersChange := reg.buffers.changedAt

/-- Change the documents, and take a stamp if the change takes one. -/
def onDocuments (reg : Registry) (op : Documents.Op) : Registry :=
  { reg with
    documents := reg.documents.apply reg.clock.next op
    clock := if reg.documents.takesStamp op then reg.clock.advance else reg.clock }

/-- Create a project or replace its configuration, and leave its documents. -/
def putProject (reg : Registry) (id : ProjectId) (arguments : List String) : Registry :=
  { reg with
    projects := reg.projects.put id arguments reg.clock.next
    clock := reg.clock.advance }

/-- Create a project or replace its configuration, and flag its documents. -/
def configureProject (reg : Registry) (id : ProjectId) (arguments : List String) : Registry :=
  (reg.putProject id arguments).onDocuments (.flagProject id)

def removeProject (reg : Registry) (id : ProjectId) : Registry :=
  { reg with projects := reg.projects.remove id }

def putBuffer (reg : Registry) (path : Path) (content : String) : Registry :=
  { reg with
    buffers := reg.buffers.put path content reg.clock.next
    clock := reg.clock.advance }

def removeBuffer (reg : Registry) (path : Path) : Registry :=
  { reg with
    buffers := reg.buffers.remove path reg.clock.next
    clock := if reg.buffers.isUnsaved path then reg.clock.advance else reg.clock }

def showActivity (reg : Registry) (activity : Activity) : Registry :=
  (reg.onDocuments (.focus activity.active)).onDocuments (.showPaths activity.visible)

def takeStamp (reg : Registry) : Registry := { reg with clock := reg.clock.advance }

@[simp] theorem document_view (reg : Registry) : reg.view.document = reg.documents.find? := rfl

@[simp] theorem buffersChange_view (reg : Registry) :
    reg.view.buffersChange = reg.buffers.changedAt := rfl

end Registry

end AnalysisJobs
