import AnalysisJobs.Queue
import AnalysisJobs.Registry.Command
/-!
# The runner's state

A runner executes requests of a queue against a backend.  Every request that a
pass hands out becomes a job, which waits for one of a fixed number of permits,
calls the backend and then applies what it learned.  Jobs and the dispatcher are
tasks: a task that something happened to is put on the list of ready tasks and
has its turn later.  Permits go to waiting jobs in the order in which they began
to wait, and a wake-up that finds the dispatcher busy is remembered, once.
-/

namespace AnalysisJobs

/-- How far a job has come: one that was just spawned, granted a permit or answered by the
backend has not had a turn since. -/
inductive Phase
  | spawned
  | waiting
  | granted
  | executing
  | answered (ending : Ending)
  deriving DecidableEq, Repr

namespace Phase

def holdsPermit : Phase → Bool
  | granted | executing | answered _ => true
  | spawned | waiting => false

def inCall : Phase → Bool
  | executing | answered _ => true
  | spawned | waiting | granted => false

end Phase

structure Job where
  id : Nat
  request : Request
  phase : Phase
  deriving DecidableEq, Repr

inductive Task
  | job (id : Nat)
  | dispatcher
  deriving DecidableEq, Repr

/-- The dispatcher, which passes over the queue whenever it is woken.  It is `stopped` once it
saw a shutdown itself; a shutdown that comes while it waits takes it away. -/
inductive Dispatcher
  | absent
  | starting
  | idle
  | woken
  | stopped
  deriving DecidableEq, Repr

structure Runner where
  registry : Registry
  queue : Queue
  /-- The documents that have a job, as their requests spelled them. -/
  running : List DocumentKey
  jobs : List Job
  spawned : Nat
  /-- Permits that no job has. -/
  permits : Nat
  waiters : List Nat
  ready : List Task
  wakeup : Bool
  dispatcher : Dispatcher
  /-- The caller's passes that found no shutdown and wait for the registry. -/
  begun : Nat
  isShutDown : Bool
  hasReceiver : Bool
  finished : List (Kind × Duration)
  deriving DecidableEq, Repr

namespace Runner

def maxPermits : Nat := (UInt64.size - 1) / 8

/-- The permits that settings ask for; there is always one. -/
def permitsFor (settings : Settings) : Nat := max settings.maxConcurrent 1

def tooManyPermits : String :=
  "a semaphore may not have more than MAX_PERMITS permits (" ++ toString maxPermits ++ ")"

def create? (settings : Settings) (registry : Registry) : Option Runner :=
  if permitsFor settings ≤ maxPermits then
    some
      { registry := registry
        queue := .empty settings
        running := []
        jobs := []
        spawned := 0
        permits := permitsFor settings
        waiters := []
        ready := []
        wakeup := false
        dispatcher := .absent
        begun := 0
        isShutDown := false
        hasReceiver := true
        finished := [] }
  else none

def createEvents (settings : Settings) : List Event := [.created settings]

def isRunning (m : Runner) (key : DocumentKey) : Bool := m.running.any fun k => k.Same key

def job? (m : Runner) (id : Nat) : Option Job := m.jobs.find? fun j => j.id = id

def timings (m : Runner) : Timings := .ofRecords m.finished

/-! ## Small changes -/

def schedule (m : Runner) (task : Task) : Runner :=
  if task ∈ m.ready then m else { m with ready := m.ready ++ [task] }

/-- Wake the dispatcher, or remember to. -/
def notify (m : Runner) : Runner :=
  match m.dispatcher with
  | .idle => schedule { m with dispatcher := .woken } .dispatcher
  | _ => { m with wakeup := true }

def setPhase (m : Runner) (id : Nat) (phase : Phase) : Runner :=
  { m with jobs := m.jobs.map fun j => if j.id = id then { j with phase := phase } else j }

def forget (m : Runner) (id : Nat) : Runner :=
  { m with jobs := m.jobs.filter fun j => j.id ≠ id }

/-- Give a permit back: the first waiting job gets it, if one waits. -/
def releasePermit (m : Runner) : Runner :=
  match m.waiters with
  | [] => { m with permits := m.permits + 1 }
  | id :: rest => (setPhase { m with waiters := rest } id .granted).schedule (.job id)

def enterRunning (m : Runner) (key : DocumentKey) : Runner :=
  if m.isRunning key then m else { m with running := m.running ++ [key] }

def leaveRunning (m : Runner) (key : DocumentKey) : Runner :=
  { m with running := m.running.filter fun k => ¬ k.Same key }

def spawn (m : Runner) (request : Request) : Runner :=
  schedule
    { m with
      jobs := m.jobs ++ [⟨m.spawned, request, .spawned⟩]
      spawned := m.spawned + 1 }
    (.job m.spawned)

end Runner

end AnalysisJobs
