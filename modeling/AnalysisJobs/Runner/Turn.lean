import AnalysisJobs.Runner.State
/-!
# Turns of tasks

What a task does in one turn.  A job that has its permit back to give does so
before anything else; then it applies what it learned to the registry, frees its
document, publishes its outcome and wakes the dispatcher, in this order.  A job
whose backend crashed only gives its permit back.  No turn waits for the registry:
one that needs it comes when nobody else holds it.
-/

namespace AnalysisJobs

/-- What the surroundings decide about one turn. -/
structure Turn where
  elapsed : Duration
  /-- Whether a job looks for a shutdown before it looks at its call. -/
  cancelFirst : Bool
  deriving DecidableEq, Repr

/-- How a backend ends a call at once; a call that it does not end at once goes on
until it is answered. -/
abbrev Backend := Request → Option Ending

namespace Runner

def slowJob : Duration := ⟨500000000, by decide⟩

def passLabel : String := "process_queue"

/-! ## Passes -/

/-- A pass over the queue, which starts a job for every request handed out.  It does not
look for a shutdown. -/
def passOver (m : Runner) (turn : Turn) : Runner × List Request × List Event :=
  let p := m.queue.pass m.registry.view m.isRunning
  let entered := p.batch.foldl (fun m r => m.enterRunning r.key)
    { m with queue := m.queue.afterPass p }
  (p.batch.foldl spawn entered, p.batch,
    p.events m.isRunning ++ [.timed passLabel none turn.elapsed] ++ p.batch.map .started)

/-- The look for a shutdown and the pass in one move, as they follow each other where nobody
holds the registry in between. -/
def dispatch (m : Runner) (turn : Turn) : Runner × List Request × List Event :=
  if m.isShutDown then (m, [], []) else m.passOver turn

/-! ## Ends of jobs -/

/-- What a result changes in the registry, if the copy that the job ran for is
still open. -/
def lesson (request : Request) : Result → Option Documents.Op
  | .ok _ =>
    if request.kind.producesParse then some (.markParsed request.key request.revision) else none
  | .failed (.parseFailed ..) => some (.setFailed request.key true)
  | .failed _ => none

/-- Apply what a job learned, unless its copy of the document is gone. -/
def learn (registry : Registry) (request : Request) (result : Result) :
    Registry × List Event :=
  match lesson request result with
  | none => (registry, [])
  | some op =>
    if registry.documents.isOpenSince request.key request.openedAt then
      (registry.onDocuments op, [])
    else (registry, [.copyClosed request.key])

/-- The end of a job whose permit has been given back. -/
def conclude (m : Runner) (job : Job) (turn : Turn) (result : Result) :
    Runner × List Event :=
  let request := job.request
  let (registry, learned) := learn m.registry request result
  let ended := { m with
    registry := registry
    finished := m.finished ++ [(request.kind, turn.elapsed)] }
  (((ended.leaveRunning request.key).forget job.id).notify,
    .timed request.kind.name (some slowJob) turn.elapsed :: learned ++
      [.ended request turn.elapsed result,
        if m.hasReceiver then .published request result else .unheard request result])

def endCall (m : Runner) (job : Job) (turn : Turn) (ending : Ending) : Runner × List Event :=
  match ending with
  | .crashed => (m.releasePermit.forget job.id, [])
  | .returned result => m.releasePermit.conclude job turn result

def cancel (m : Runner) (job : Job) (turn : Turn) : Runner × List Event :=
  let freed := if job.phase.holdsPermit then m.releasePermit
    else { m with waiters := m.waiters.filter (· ≠ job.id) }
  freed.conclude job turn (.failed .cancelled)

/-! ## Turns -/

def call (m : Runner) (backend : Backend) (job : Job) (turn : Turn) : Runner × List Event :=
  match backend job.request with
  | none => (m.setPhase job.id .executing, [.began job.request])
  | some ending =>
    let (m, events) := m.endCall job turn ending
    (m, .began job.request :: events)

def advance (m : Runner) (backend : Backend) (job : Job) (turn : Turn) :
    Runner × List Event :=
  match job.phase with
  | .spawned =>
    if 0 < m.permits then { m with permits := m.permits - 1 }.call backend job turn
    else ({ m with waiters := m.waiters ++ [job.id] }.setPhase job.id .waiting, [])
  | .granted => m.call backend job turn
  | .answered ending => m.endCall job turn ending
  | .waiting | .executing => (m, [])

/-- The turn of a job.  After a shutdown it may still go on first, and is then
cancelled if that did not end it. -/
def jobTurn (m : Runner) (backend : Backend) (id : Nat) (turn : Turn) : Runner × List Event :=
  match m.job? id with
  | none => (m, [])
  | some job =>
    if m.isShutDown && turn.cancelFirst then m.cancel job turn
    else
      let (next, events) := m.advance backend job turn
      match next.isShutDown, next.job? id with
      | true, some job =>
        let (last, more) := next.cancel job turn
        (last, events ++ more)
      | _, _ => (next, events)

def dispatchRemembered (m : Runner) (turn : Turn) : Runner × List Event :=
  if m.wakeup then
    let (m, _, events) := { m with wakeup := false }.dispatch turn
    (m, events)
  else (m, [])

def dispatcherRound (m : Runner) (turn : Turn) : Runner × List Event :=
  if m.isShutDown then ({ m with dispatcher := .stopped }, [.dispatcherStopped])
  else
    let (m, events) := m.dispatchRemembered turn
    ({ m with dispatcher := .idle }, events)

def dispatcherTurn (m : Runner) (turn : Turn) : Runner × List Event :=
  match m.dispatcher with
  | .starting =>
    let (m, events) := m.dispatcherRound turn
    (m, .dispatcherStarted :: events)
  | .woken =>
    let (m, _, first) := m.dispatch turn
    let (m, second) := m.dispatcherRound turn
    (m, first ++ second)
  | .absent | .idle | .stopped => (m, [])

def taskTurn (m : Runner) (backend : Backend) (task : Task) (turn : Turn) :
    Runner × List Event :=
  if task ∈ m.ready then
    let m := { m with ready := m.ready.erase task }
    match task with
    | .job id => m.jobTurn backend id turn
    | .dispatcher => m.dispatcherTurn turn
  else (m, [])

end Runner

end AnalysisJobs
