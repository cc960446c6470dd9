import AnalysisJobs.Outcome
import AnalysisJobs.Request.Staleness
import AnalysisJobs.Settings
import AnalysisJobs.Timings
import AnalysisJobs.Verbosity
/-!
# The journal

Everything that happens is an event.  Events are what runs are described by; the
lines of the log are derived from them, so that no line can say what did not
happen.  Some events write no line, and what performance reports write depends
on the verbosity.
-/

namespace AnalysisJobs

inductive Level
  | trace
  | debug
  | info
  | warn
  deriving DecidableEq, Repr

namespace Level

def name : Level → String
  | trace => "TRACE"
  | debug => "DEBUG"
  | info => "INFO"
  | warn => "WARN"

end Level

structure Line where
  level : Level
  text : String
  deriving DecidableEq, Repr

inductive Event
  | projectUnknown (key : DocumentKey)
  | opened (key : DocumentKey) (again : Bool)
  | editIgnored (key : DocumentKey)
  | edited (key : DocumentKey) (revision : UInt32)
  | closed (key : DocumentKey)
  | projectPut (id : ProjectId) (known : Bool) (stamp : Stamp)
  | projectRemoved (id : ProjectId)
  /-- So many documents of a project need a reparse. -/
  | documentsFlagged (id : ProjectId) (count : Nat)
  | bufferPut (path : Path) (size : Nat)
  | activity (active : Option Path) (visible : Nat)
  | added (request : Request)
  | dropped (request : Request) (reason : Staleness)
  /-- A pass left a request because its document has a job. -/
  | held (request : Request)
  /-- A pass handed out so many requests and left so many. -/
  | passed (taken left : Nat)
  | settingsRead (settings : Settings)
  /-- A setting that allows no job was not heeded. -/
  | noJobsIgnored
  | created (settings : Settings)
  | dispatcherStarted
  | dispatcherStopped
  | shutDown
  /-- A piece of work took so long, with perhaps a budget for it. -/
  | timed (label : String) (budget : Option Duration) (elapsed : Duration)
  /-- A request was handed to a job. -/
  | started (request : Request)
  /-- The backend was called for a request. -/
  | began (request : Request)
  /-- The copy that a job ran for is no longer open. -/
  | copyClosed (key : DocumentKey)
  | ended (request : Request) (elapsed : Duration) (result : Result)
  | published (request : Request) (result : Result)
  /-- Nobody receives the outcome of a job. -/
  | unheard (request : Request) (result : Result)
  deriving DecidableEq, Repr

namespace Event

/-- The line that the end of a job writes; `shown` writes the duration. -/
def endLine (shown : Duration → String) (request : Request) (elapsed : Duration) :
    Result → Line
  | .ok output =>
    ⟨.trace, "Finished " ++ request.text ++ " in " ++ shown elapsed ++ ": " ++ output.text⟩
  | .failed .cancelled => ⟨.debug, "Cancelled " ++ request.text⟩
  | .failed failure => ⟨.warn, request.text ++ " failed: " ++ failure.message⟩

/-- The lines that a measured duration writes. -/
def timedLines (verbosity : Verbosity) (shown : Duration → String) (label : String)
    (budget : Option Duration) (elapsed : Duration) : List Line :=
  match verbosity with
  | .off => []
  | .on => [⟨.info, "[PERF] " ++ label ++ " took " ++ shown elapsed⟩]
  | .verbose =>
    let excess := (budget.filter elapsed.exceeds).map fun budget =>
      ⟨.warn, "[PERF] " ++ label ++ " over budget (" ++ shown elapsed ++ " > " ++
        budget.text ++ ")"⟩
    ⟨.info, "[PERF] " ++ label ++ " took " ++ shown elapsed⟩ :: excess.toList

def pathText : Option Path → String
  | none => "None"
  | some path => "Some(" ++ Text.quoted path.text ++ ")"

/-- The lines that an event writes; `shown` writes measured durations. -/
def lines (verbosity : Verbosity) (shown : Duration → String) : Event → List Line
  | projectUnknown key =>
    [⟨.debug, "Opening " ++ key.text ++
      " before its project part is known; requests stay stale until it is"⟩]
  | opened key again =>
    [⟨.trace, (if again then "Re-opening" else "Opening") ++ " document " ++ key.text⟩]
  | editIgnored key => [⟨.trace, "Ignoring update for document that is not open: " ++ key.text⟩]
  | edited key revision =>
    [⟨.trace, "Document " ++ key.text ++ " now at revision " ++ toString revision.toNat⟩]
  | closed key => [⟨.trace, "Closed document " ++ key.text⟩]
  | projectPut id known stamp =>
    [⟨.trace, (if known then "Updated" else "Created") ++ " project part " ++ id ++ " at " ++
      stamp.text⟩]
  | projectRemoved id => [⟨.trace, "Removed project part " ++ id⟩]
  | documentsFlagged id count =>
    [⟨.debug, "Project part " ++ id ++ " changed; " ++ toString count ++
      " documents need reparse"⟩]
  | bufferPut path size =>
    [⟨.trace, "Unsaved content for " ++ path.text ++ " (" ++ toString size ++ " bytes)"⟩]
  | activity active visible =>
    [⟨.trace, "Editor activity: active=" ++ pathText active ++ ", visible=" ++ toString visible⟩]
  | added request => [⟨.trace, "Queueing " ++ request.text⟩]
  | dropped request reason =>
    [⟨.trace, "Dropping outdated request " ++ request.text ++ " (" ++ reason.name ++ ")"⟩]
  | held request =>
    [⟨.trace, "Job already running for " ++ request.key.text ++ ", keeping " ++ request.text ++
      " queued"⟩]
  | passed taken left =>
    [⟨.debug, "Processed job queue: " ++ toString taken ++ " to run, " ++ toString left ++
      " still queued"⟩]
  | settingsRead settings =>
    [⟨.info, "Job scheduler configuration loaded from settings:"⟩,
      ⟨.info, "  max_concurrent_jobs: " ++ toString settings.maxConcurrent⟩,
      ⟨.info, "  max_batch_size: " ++ Settings.boundText settings.maxBatch⟩,
      ⟨.info, "  defer_hidden_documents: " ++ Settings.flagText settings.deferHidden⟩]
  | noJobsIgnored => [⟨.warn, "Ignoring jobs.maxConcurrentJobs = 0"⟩]
  | created settings =>
    [⟨.info, "Job runner created (max_concurrent_jobs=" ++ toString settings.maxConcurrent ++
      ", max_batch_size=" ++ Settings.boundText settings.maxBatch ++
      ", defer_hidden_documents=" ++ Settings.flagText settings.deferHidden ++ ")"⟩]
  | dispatcherStarted => [⟨.info, "Job dispatcher started"⟩]
  | dispatcherStopped => [⟨.info, "Job dispatcher stopped"⟩]
  | shutDown => [⟨.info, "Shutting down job runner"⟩]
  | timed label budget elapsed => timedLines verbosity shown label budget elapsed
  | started request => [⟨.trace, "Starting " ++ request.text⟩]
  | began _ => []
  | copyClosed key => [⟨.trace, "Document " ++ key.text ++ " was closed while its job ran"⟩]
  | ended request elapsed result => [endLine shown request elapsed result]
  | published _ _ => []
  | unheard _ _ => [⟨.trace, "Job outcome receiver dropped"⟩]

end Event

namespace Settings

def readEvents (processors : Nat) (settings : Json) : List Event :=
  match read? processors settings with
  | none => []
  | some result =>
    (if asksForNone settings then [.noJobsIgnored] else []) ++ [.settingsRead result]

end Settings

end AnalysisJobs
