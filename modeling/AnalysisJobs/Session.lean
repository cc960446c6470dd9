import AnalysisJobs.Queue
import AnalysisJobs.Registry.Command
/-!
# Sessions

A registry and a queue that a caller works with directly: it changes the
registry, queues requests and passes over the queue whenever it likes, and says
at each pass which documents have a job.
-/

namespace AnalysisJobs

structure Session where
  registry : Registry
  queue : Queue
  deriving DecidableEq, Repr

namespace Session

inductive Action
  | command (c : Registry.Command)
  | add (request : Request)
  /-- Queue a request made against the present registry. -/
  | enqueue (kind : Kind) (key : DocumentKey)
  | prioritize
  /-- Pass over the queue; `running` says which documents have a job. -/
  | pass (running : DocumentKey → Bool)

inductive Answer
  | registry (r : Registry.Reply)
  | size (n : Nat)
  | order (requests : List Request)
  | passed (p : Pass)
  deriving DecidableEq, Repr

def new (settings : Settings) : Session := ⟨.new, .empty settings⟩

def add (s : Session) (request : Request) : Session × Answer × List Event :=
  ({ s with queue := s.queue.add request }, .size (s.queue.add request).size, [.added request])

def act (s : Session) : Action → Session × Answer × List Event
  | .command c =>
    ({ s with registry := s.registry.after c }, .registry (s.registry.reply c),
      s.registry.events c)
  | .add request => s.add request
  | .enqueue kind key => s.add (.make kind key s.registry.view)
  | .prioritize =>
    let q := s.queue.prioritize s.registry.view
    ({ s with queue := q }, .order q.pending, [])
  | .pass running =>
    let p := s.queue.pass s.registry.view running
    ({ s with queue := s.queue.afterPass p }, .passed p, p.events running)

def run (s : Session) : List Action → Session × List Answer
  | [] => (s, [])
  | first :: rest =>
    let (next, answer, _) := s.act first
    let (last, answers) := next.run rest
    (last, answer :: answers)

theorem run_cons (s : Session) (first : Action) (rest : List Action) :
    s.run (first :: rest) =
      (((s.act first).1.run rest).1, (s.act first).2.1 :: ((s.act first).1.run rest).2) := rfl

end Session

end AnalysisJobs
