import AnalysisJobs.Runner.Run
/-!
# Going on until nothing is ready

Ready tasks have their turns in order until none is left.  Every turn uses up
more of what can still cause turns than it adds: a queued request can cause a
job, a job one turn of its own, one for a permit and one of the dispatcher, and
a turn makes at most these tasks ready.  So the turns come to an end.
-/

namespace AnalysisJobs.Runner

/-- A bound on the turns until nothing is ready. -/
def turnsLeft (m : Runner) : Nat :=
  m.ready.length + m.waiters.length + m.jobs.length +
    (m.jobs.countP fun j => j.phase = .spawned) + 3 * m.queue.size

/-- Give turns to the ready tasks in order, at most so many. -/
def turns (backend : Backend) (turn : Turn) : Nat → Runner → Runner × List Event
  | 0, m => (m, [])
  | n + 1, m =>
    match m.ready with
    | [] => (m, [])
    | task :: _ =>
      let (next, first) := m.taskTurn backend task turn
      let (last, rest) := turns backend turn n next
      (last, first ++ rest)

def settle (m : Runner) (backend : Backend) (turn : Turn) : Runner × List Event :=
  turns backend turn m.turnsLeft m

/-! ## What each change does to the bound -/

theorem job?_setPhase (m : Runner) (id other : Nat) (phase : Phase) :
    (m.setPhase id phase).job? other =
      (m.job? other).map fun j => if j.id = id then { j with phase := phase } else j := by
  simp only [job?, setPhase, List.find?_map]
  congr 2
  funext j
  by_cases h : j.id = id <;> simp [h]

@[simp] theorem job?_schedule (m : Runner) (task : Task) (id : Nat) :
    (m.schedule task).job? id = m.job? id := by
  unfold schedule
  split <;> rfl

theorem id_of_job? {m : Runner} {id : Nat} {job : Job} (h : m.job? id = some job) :
    job.id = id := by
  simpa using List.find?_some h

end AnalysisJobs.Runner
