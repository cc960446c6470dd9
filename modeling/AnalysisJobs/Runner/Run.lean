import AnalysisJobs.Runner.Turn
/-!
# Runs of a runner

What a caller can do to a runner, and what can happen between.  A run is a list of
moves: actions of the caller and turns of ready tasks, in any order.

A caller who asks for a pass looks for a shutdown and then waits for the registry.  Where
somebody holds it these are two moves, and others may come between them; nobody looks again
after the wait.  A dispatcher that waits is taken away by a shutdown, so its turn is one move.
-/

namespace AnalysisJobs

inductive Action
  | command (c : Registry.Command)
  | add (request : Request)
  | enqueue (kind : Kind) (key : DocumentKey)
  /-- Pass over the queue once, with a look for a shutdown just before. -/
  | process (turn : Turn)
  /-- Look for a shutdown and wait for the registry, to pass over the queue then. -/
  | beginProcess
  /-- Pass over the queue after such a wait. -/
  | finishProcess (turn : Turn)
  /-- End the call that goes on for a document. -/
  | answer (key : DocumentKey) (ending : Request → Ending)
  | startDispatcher
  | shutDown
  | dropReceiver

inductive Reply
  | done
  | registry (r : Registry.Reply)
  | queued (request : Request)
  | started (requests : List Request)
  | found (b : Bool)
  deriving DecidableEq, Repr

namespace Runner

def add (m : Runner) (request : Request) : Runner :=
  notify { m with queue := m.queue.add request }

def newRequest (m : Runner) (kind : Kind) (key : DocumentKey) : Request :=
  .make kind key m.registry.view

def executing? (m : Runner) (key : DocumentKey) : Option Job :=
  m.jobs.find? fun j => j.phase = .executing && j.request.key.Same key

def answer (m : Runner) (job : Job) (ending : Ending) : Runner :=
  (m.setPhase job.id (.answered ending)).schedule (.job job.id)

/-- Start the dispatcher, unless it was started before.  It begins with what was
queued before there was one. -/
def startDispatcher (m : Runner) : Runner :=
  match m.dispatcher with
  | .absent => notify (schedule { m with dispatcher := .starting } .dispatcher)
  | _ => m

/-- Shut down: the dispatcher is gone at once, and every job is told.  Passes that wait for the
registry are not. -/
def shutDown (m : Runner) : Runner :=
  if m.isShutDown then m
  else
    m.jobs.foldl (fun m j => m.schedule (.job j.id))
      { m with
        isShutDown := true
        dispatcher := .absent
        ready := m.ready.erase .dispatcher }

/-- Look for a shutdown.  The caller is told nothing as long as the pass waits. -/
def beginProcess (m : Runner) : Runner × Reply :=
  if m.isShutDown then (m, .started []) else ({ m with begun := m.begun + 1 }, .done)

def finishProcess (m : Runner) (turn : Turn) : Runner × List Request × List Event :=
  if 0 < m.begun then { m with begun := m.begun - 1 }.passOver turn else (m, [], [])

def act (m : Runner) : Action → Runner × Reply × List Event
  | .command c =>
    ({ m with registry := m.registry.after c }, .registry (m.registry.reply c),
      m.registry.events c)
  | .add request => (m.add request, .done, [.added request])
  | .enqueue kind key =>
    let request := m.newRequest kind key
    (m.add request, .queued request, [.added request])
  | .process turn =>
    let (m, requests, events) := m.dispatch turn
    (m, .started requests, events)
  | .beginProcess => (m.beginProcess.1, m.beginProcess.2, [])
  | .finishProcess turn =>
    let (m, requests, events) := m.finishProcess turn
    (m, .started requests, events)
  | .answer key ending =>
    match m.executing? key with
    | none => (m, .found false, [])
    | some job => (m.answer job (ending job.request), .found true, [])
  | .startDispatcher => (m.startDispatcher, .done, [])
  | .shutDown => (m.shutDown, .done, if m.isShutDown then [] else [.shutDown])
  | .dropReceiver => ({ m with hasReceiver := false }, .done, [])

inductive Move
  | act (a : Action)
  /-- A task has its turn, if it is ready. -/
  | turn (task : Task) (turn : Turn)

def move (m : Runner) (backend : Backend) : Move → Runner × List Event
  | .act a => ((m.act a).1, (m.act a).2.2)
  | .turn task turn => m.taskTurn backend task turn

def run (m : Runner) (backend : Backend) : List Move → Runner × List Event
  | [] => (m, [])
  | first :: rest =>
    let (next, before) := m.move backend first
    let (last, after) := next.run backend rest
    (last, before ++ after)

/-- Where nobody comes between, a look and the pass after it are a `process`. -/
theorem act_finishProcess_beginProcess {m : Runner} (h : m.isShutDown = false) (turn : Turn) :
    (m.act .beginProcess).1.act (.finishProcess turn) = m.act (.process turn) := by
  have hbegun : (m.act .beginProcess).1 = { m with begun := m.begun + 1 } := by
    simp [act, beginProcess, h]
  rw [hbegun]
  simp only [act, finishProcess, dispatch, if_neg (Bool.eq_false_iff.1 h),
    if_pos (Nat.succ_pos m.begun)]
  rfl

@[simp] theorem run_nil (m : Runner) (backend : Backend) : m.run backend [] = (m, []) := rfl

theorem run_cons (m : Runner) (backend : Backend) (first : Move) (rest : List Move) :
    m.run backend (first :: rest) =
      (((m.move backend first).1.run backend rest).1,
        (m.move backend first).2 ++ ((m.move backend first).1.run backend rest).2) := rfl

theorem run_append (m : Runner) (backend : Backend) (before after : List Move) :
    m.run backend (before ++ after) =
      (((m.run backend before).1.run backend after).1,
        (m.run backend before).2 ++ ((m.run backend before).1.run backend after).2) := by
  induction before generalizing m with
  | nil => rfl
  | cons first rest ih => simp only [List.cons_append, run_cons, ih, List.append_assoc]

end Runner

end AnalysisJobs
