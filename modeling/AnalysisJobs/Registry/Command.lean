import AnalysisJobs.Journal
import AnalysisJobs.Registry.Basic
/-!
# Commands to a registry

The operations on a registry as data, so that a history of a registry is a list
of commands.  Performing a command gives the next registry and a reply; what the
command tells the journal depends only on the registry before it.
-/

namespace AnalysisJobs.Registry

inductive Command
  /-- Open a document, noting when its project is not known yet. -/
  | openDocument (key : DocumentKey)
  | onDocuments (op : Documents.Op)
  /-- Create or reconfigure a project and flag its documents. -/
  | configureProject (id : ProjectId) (arguments : List String)
  /-- Create or reconfigure a project and leave its documents. -/
  | putProject (id : ProjectId) (arguments : List String)
  | removeProject (id : ProjectId)
  | putBuffer (path : Path) (content : String)
  | removeBuffer (path : Path)
  | showActivity (activity : Activity)
  | takeStamp
  deriving DecidableEq, Repr

inductive Reply
  | done
  /-- Whether there was something to change. -/
  | flag (b : Bool)
  | revision (r : Option UInt32)
  | count (n : Nat)
  | stamp (s : Stamp)
  deriving DecidableEq, Repr

def after (reg : Registry) : Command → Registry
  | .openDocument key => reg.onDocuments (.openDocument key)
  | .onDocuments op => reg.onDocuments op
  | .configureProject id arguments => reg.configureProject id arguments
  | .putProject id arguments => reg.putProject id arguments
  | .removeProject id => reg.removeProject id
  | .putBuffer path content => reg.putBuffer path content
  | .removeBuffer path => reg.removeBuffer path
  | .showActivity activity => reg.showActivity activity
  | .takeStamp => reg.takeStamp

def documentsReply (reg : Registry) : Documents.Op → Reply
  | .openDocument _ | .showPaths _ | .focus _ => .done
  | .edit key => .revision ((reg.documents.find? key).map fun d => d.edited.revision)
  | .close key | .setFailed key _ | .markParsed key _ => .flag (reg.documents.isOpen key)
  | .flagProject id => .count (reg.documents.countOf id)

def reply (reg : Registry) : Command → Reply
  | .openDocument _ | .putBuffer .. | .showActivity _ => .done
  | .onDocuments op => reg.documentsReply op
  | .configureProject .. | .putProject .. | .takeStamp => .stamp reg.clock.next
  | .removeProject id => .flag (reg.projects.isKnown id)
  | .removeBuffer path => .flag (reg.buffers.isUnsaved path)

def documentsEvents (reg : Registry) : Documents.Op → List Event
  | .openDocument key => [.opened key (reg.documents.isOpen key)]
  | .edit key =>
    match reg.documents.find? key with
    | none => [.editIgnored key]
    | some d => [.edited key d.edited.revision]
  | .close key => if reg.documents.isOpen key then [.closed key] else []
  | .showPaths _ | .focus _ | .setFailed .. | .markParsed .. | .flagProject _ => []

def events (reg : Registry) : Command → List Event
  | .openDocument key =>
    (if reg.projects.isKnown key.project then [] else [.projectUnknown key]) ++
      reg.documentsEvents (.openDocument key)
  | .onDocuments op => reg.documentsEvents op
  | .configureProject id _ =>
    .projectPut id (reg.projects.isKnown id) reg.clock.next ::
      match reg.documents.countOf id with
      | 0 => []
      | n => [.documentsFlagged id n]
  | .putProject id _ => [.projectPut id (reg.projects.isKnown id) reg.clock.next]
  | .removeProject id => if reg.projects.isKnown id then [.projectRemoved id] else []
  | .putBuffer path content => [.bufferPut path content.utf8ByteSize]
  | .removeBuffer _ | .takeStamp => []
  | .showActivity activity => [.activity activity.active activity.visible.length]

def run (reg : Registry) (commands : List Command) : Registry := commands.foldl after reg

@[simp] theorem run_nil (reg : Registry) : reg.run [] = reg := rfl

@[simp] theorem run_cons (reg : Registry) (c : Command) (cs : List Command) :
    reg.run (c :: cs) = (reg.after c).run cs := rfl

theorem run_append (reg : Registry) (cs ds : List Command) :
    reg.run (cs ++ ds) = (reg.run cs).run ds := List.foldl_append

end AnalysisJobs.Registry
