import AnalysisJobs.Runner.Settle
/-!
# The work of a runner

The registry, the queue, the table of running documents and the list of jobs are
a runner's work; permits, waiters, phases, ready tasks and wake-ups only decide
who does it when.  `SameWork` relates two states with the same work, and
`passOver_eq` and `conclude_eq` say what a pass and the end of a job do to it.

Whether a call may take its job down is a parameter, `crashes`; with `False`
every call returns.
-/

namespace AnalysisJobs

/-- Events that do not tell of the fate of a request. -/
def Event.Quiet : Event → Prop
  | .added _ | .dropped .. | .started _ | .ended .. | .published .. | .unheard .. => False
  | _ => True

namespace Runner

/-- The jobs with their requests, however far they have come. -/
def roster (m : Runner) : List (Nat × Request) := m.jobs.map fun j => (j.id, j.request)

/-- No call took its job down, unless calls may crash. -/
def Calm (crashes : Prop) (m : Runner) : Prop :=
  ∀ j ∈ m.jobs, j.phase = .answered .crashed → crashes

/-- `n` differs from `m` only in how tasks are scheduled. -/
structure SameWork (crashes : Prop) (m n : Runner) : Prop where
  registry : n.registry = m.registry
  queue : n.queue = m.queue
  running : n.running = m.running
  roster : n.roster = m.roster
  spawned : n.spawned = m.spawned
  isShutDown : n.isShutDown = m.isShutDown
  hasReceiver : n.hasReceiver = m.hasReceiver
  finished : n.finished = m.finished
  calm : m.Calm crashes → n.Calm crashes

variable {crashes : Prop} {m n : Runner}

theorem SameWork.refl (m : Runner) : SameWork crashes m m :=
  ⟨rfl, rfl, rfl, rfl, rfl, rfl, rfl, rfl, id⟩

theorem SameWork.trans {l : Runner} (hlm : SameWork crashes l m) (hmn : SameWork crashes m n) :
    SameWork crashes l n where
  registry := hmn.registry.trans hlm.registry
  queue := hmn.queue.trans hlm.queue
  running := hmn.running.trans hlm.running
  roster := hmn.roster.trans hlm.roster
  spawned := hmn.spawned.trans hlm.spawned
  isShutDown := hmn.isShutDown.trans hlm.isShutDown
  hasReceiver := hmn.hasReceiver.trans hlm.hasReceiver
  finished := hmn.finished.trans hlm.finished
  calm := hmn.calm ∘ hlm.calm

theorem isRunning_of_running_eq (h : n.running = m.running) (key : DocumentKey) :
    n.isRunning key = m.isRunning key := by
  rw [isRunning, h, isRunning]

theorem SameWork.isRunning (h : SameWork crashes m n) (key : DocumentKey) :
    n.isRunning key = m.isRunning key := isRunning_of_running_eq h.running key

theorem mem_roster_of_job? {id : Nat} {job : Job} (h : m.job? id = some job) :
    (job.id, job.request) ∈ m.roster :=
  List.mem_map_of_mem (List.mem_of_find?_eq_some h)

/-! ## Small changes -/

theorem sameWork_scheduling (m : Runner) (permits : Nat) (waiters : List Nat)
    (ready : List Task) (wakeup : Bool) (dispatcher : Dispatcher) :
    SameWork crashes m
      { m with
        permits := permits
        waiters := waiters
        ready := ready
        wakeup := wakeup
        dispatcher := dispatcher } :=
  ⟨rfl, rfl, rfl, rfl, rfl, rfl, rfl, rfl, id⟩

theorem sameWork_begun (m : Runner) (begun : Nat) :
    SameWork crashes m { m with begun := begun } :=
  ⟨rfl, rfl, rfl, rfl, rfl, rfl, rfl, rfl, id⟩

theorem schedule_eq (m : Runner) (task : Task) :
    ∃ ready, m.schedule task = { m with ready := ready } := by
  unfold schedule
  split
  · exact ⟨m.ready, rfl⟩
  · exact ⟨_, rfl⟩

theorem mem_ready_schedule (m : Runner) (task : Task) : task ∈ (m.schedule task).ready := by
  unfold schedule
  split
  · assumption
  · simp

theorem mem_ready_schedule_of_mem {task : Task} (other : Task) (h : task ∈ m.ready) :
    task ∈ (m.schedule other).ready := by
  unfold schedule
  split
  · exact h
  · exact List.mem_append_left _ h

theorem sameWork_schedule (m : Runner) (task : Task) : SameWork crashes m (m.schedule task) := by
  obtain ⟨ready, h⟩ := schedule_eq m task
  rw [h]
  exact sameWork_scheduling m _ _ ready _ _

theorem notify_eq (m : Runner) :
    ∃ ready wakeup dispatcher,
      m.notify = { m with ready := ready, wakeup := wakeup, dispatcher := dispatcher } := by
  unfold notify
  split
  · obtain ⟨ready, h⟩ := schedule_eq { m with dispatcher := .woken } .dispatcher
    exact ⟨ready, _, _, h⟩
  · exact ⟨_, true, _, rfl⟩

theorem sameWork_notify (m : Runner) : SameWork crashes m m.notify := by
  obtain ⟨ready, wakeup, dispatcher, h⟩ := notify_eq m
  rw [h]
  exact sameWork_scheduling m _ _ ready wakeup dispatcher

theorem roster_setPhase (m : Runner) (id : Nat) (phase : Phase) :
    (m.setPhase id phase).roster = m.roster := by
  simp only [roster, setPhase, List.map_map]
  congr 1
  funext j
  by_cases h : j.id = id <;> simp [h]

theorem sameWork_setPhase (m : Runner) (id : Nat) {phase : Phase}
    (h : phase = .answered .crashed → crashes) : SameWork crashes m (m.setPhase id phase) := by
  refine ⟨rfl, rfl, rfl, roster_setPhase m id phase, rfl, rfl, rfl, rfl, ?_⟩
  intro hcalm j hj hphase
  obtain ⟨i, hi, rfl⟩ := List.mem_map.1 hj
  by_cases hid : i.id = id
  · rw [if_pos hid] at hphase
    exact h hphase
  · rw [if_neg hid] at hphase
    exact hcalm i hi hphase

theorem sameWork_releasePermit (m : Runner) : SameWork crashes m m.releasePermit := by
  unfold releasePermit
  split
  · exact sameWork_scheduling m _ _ _ _ _
  · rename_i id rest _
    have hrest : SameWork crashes m { m with waiters := rest } := sameWork_scheduling m _ _ _ _ _
    exact (hrest.trans (sameWork_setPhase _ id (by simp))).trans (sameWork_schedule _ _)

theorem sameWork_answer (m : Runner) (job : Job) {ending : Ending}
    (h : ending = .crashed → crashes) : SameWork crashes m (m.answer job ending) := by
  refine (sameWork_setPhase m job.id ?_).trans (sameWork_schedule _ _)
  intro hphase
  exact h (by simpa using hphase)

theorem sameWork_startDispatcher (m : Runner) : SameWork crashes m m.startDispatcher := by
  unfold startDispatcher
  split
  · have hstart : SameWork crashes m { m with dispatcher := .starting } :=
      sameWork_scheduling m _ _ _ _ _
    exact (hstart.trans (sameWork_schedule _ _)).trans (sameWork_notify _)
  · exact .refl m

theorem sameWork_foldl_schedule (jobs : List Job) (m : Runner) :
    SameWork crashes m (jobs.foldl (fun m j => m.schedule (.job j.id)) m) := by
  induction jobs generalizing m with
  | nil => exact .refl m
  | cons j rest ih => exact (sameWork_schedule m (.job j.id)).trans (ih _)

theorem sameWork_shutDown (m : Runner) :
    SameWork crashes { m with isShutDown := true } m.shutDown := by
  unfold shutDown
  split
  · rename_i h
    rw [← h]
    exact .refl m
  · refine SameWork.trans ?_ (sameWork_foldl_schedule m.jobs _)
    exact sameWork_scheduling { m with isShutDown := true } _ _ _ _ _

/-! ## Passes -/

/-- The jobs that a batch is started as, numbered from `first`. -/
def newJobs (first : Nat) : List Request → List Job
  | [] => []
  | r :: rest => ⟨first, r, .spawned⟩ :: newJobs (first + 1) rest

theorem map_request_newJobs (first : Nat) (rs : List Request) :
    (newJobs first rs).map Job.request = rs := by
  induction rs generalizing first with
  | nil => rfl
  | cons r rest ih => rw [newJobs, List.map_cons, ih]

theorem phase_of_mem_newJobs {first : Nat} {rs : List Request} {j : Job}
    (h : j ∈ newJobs first rs) : j.phase = .spawned := by
  induction rs generalizing first with
  | nil => cases h
  | cons r rest ih =>
    rcases List.mem_cons.1 h with rfl | h
    · rfl
    · exact ih h

theorem foldl_spawn_eq (rs : List Request) (m : Runner) :
    ∃ ready, rs.foldl spawn m =
      { m with
        jobs := m.jobs ++ newJobs m.spawned rs
        spawned := m.spawned + rs.length
        ready := ready } := by
  induction rs generalizing m with
  | nil => exact ⟨m.ready, by simp [newJobs]⟩
  | cons r rest ih =>
    obtain ⟨ready, h⟩ := schedule_eq
      { m with
        jobs := m.jobs ++ [⟨m.spawned, r, .spawned⟩]
        spawned := m.spawned + 1 } (.job m.spawned)
    have hspawn : m.spawn r =
        { m with
          jobs := m.jobs ++ [⟨m.spawned, r, .spawned⟩]
          spawned := m.spawned + 1
          ready := ready } := h
    obtain ⟨last, hrest⟩ := ih (m.spawn r)
    refine ⟨last, ?_⟩
    rw [List.foldl_cons, hrest, hspawn]
    simp only [newJobs, List.append_assoc, List.singleton_append, List.length_cons]
    rw [Nat.add_assoc, Nat.add_comm 1]

theorem isRunning_enterRunning (m : Runner) (key other : DocumentKey) :
    (m.enterRunning key).isRunning other = (m.isRunning other || decide (key.Same other)) := by
  unfold enterRunning
  split
  · rename_i h
    by_cases hsame : key.Same other
    · obtain ⟨k, hk, hkey⟩ := List.any_eq_true.1 h
      have : m.isRunning other = true :=
        List.any_eq_true.2 ⟨k, hk, decide_eq_true ((of_decide_eq_true hkey).trans hsame)⟩
      rw [this, Bool.true_or]
    · rw [decide_eq_false hsame, Bool.or_false]
  · simp [isRunning, List.any_append]

theorem foldl_enterRunning_eq (rs : List Request) (m : Runner) :
    ∃ running, rs.foldl (fun m r => m.enterRunning r.key) m = { m with running := running } ∧
      ∀ key, (running.any fun k => k.Same key) =
        (m.isRunning key || rs.any fun r => r.key.Same key) := by
  induction rs generalizing m with
  | nil => exact ⟨m.running, rfl, fun key => by rw [List.any_nil, Bool.or_false]; rfl⟩
  | cons r rest ih =>
    obtain ⟨running, h, hany⟩ := ih (m.enterRunning r.key)
    refine ⟨running, ?_, fun key => ?_⟩
    · rw [List.foldl_cons, h]
      unfold enterRunning
      split <;> rfl
    · rw [hany, isRunning_enterRunning, List.any_cons, Bool.or_assoc]

def nextPass (m : Runner) : Pass := m.queue.pass m.registry.view m.isRunning

theorem dispatch_of_isShutDown (h : m.isShutDown = true) (turn : Turn) :
    m.dispatch turn = (m, [], []) := by
  rw [dispatch, if_pos h]

theorem dispatch_of_not_isShutDown (h : m.isShutDown = false) (turn : Turn) :
    m.dispatch turn = m.passOver turn := by
  rw [dispatch, if_neg (by rw [h]; exact Bool.false_ne_true)]

theorem events_passOver (m : Runner) (turn : Turn) :
    (m.passOver turn).2.2 =
      m.nextPass.events m.isRunning ++ [.timed passLabel none turn.elapsed] ++
        m.nextPass.batch.map .started := rfl

/-- A pass starts a job for every request of its batch, marks their documents and
leaves the rest of the queue. -/
theorem passOver_eq (m : Runner) (turn : Turn) :
    ∃ running ready, (m.passOver turn).1 =
        { m with
          queue := m.queue.afterPass m.nextPass
          running := running
          jobs := m.jobs ++ newJobs m.spawned m.nextPass.batch
          spawned := m.spawned + m.nextPass.batch.length
          ready := ready } ∧
      ∀ key, (running.any fun k => k.Same key) =
        (m.isRunning key || m.nextPass.batch.any fun r => r.key.Same key) := by
  obtain ⟨running, hentered, hany⟩ := foldl_enterRunning_eq m.nextPass.batch
    { m with queue := m.queue.afterPass m.nextPass }
  obtain ⟨ready, hspawned⟩ := foldl_spawn_eq m.nextPass.batch
    { m with queue := m.queue.afterPass m.nextPass, running := running }
  refine ⟨running, ready, ?_, hany⟩
  simp only [passOver, nextPass] at hentered hspawned ⊢
  rw [hentered, hspawned]

/-! ## Ends of jobs -/

/-- A job that ends teaches the registry, is recorded and frees its document. -/
theorem conclude_eq (m : Runner) (job : Job) (turn : Turn) (result : Result) :
    ∃ ready wakeup dispatcher, (m.conclude job turn result).1 =
      { m with
        registry := (learn m.registry job.request result).1
        running := m.running.filter fun k => ¬ k.Same job.request.key
        jobs := m.jobs.filter fun j => j.id ≠ job.id
        finished := m.finished ++ [(job.request.kind, turn.elapsed)]
        ready := ready
        wakeup := wakeup
        dispatcher := dispatcher } := by
  exact notify_eq _

theorem events_conclude (m : Runner) (job : Job) (turn : Turn) (result : Result) :
    (m.conclude job turn result).2 =
      .timed job.request.kind.name (some slowJob) turn.elapsed ::
        (learn m.registry job.request result).2 ++
        [.ended job.request turn.elapsed result,
          if m.hasReceiver then .published job.request result
          else .unheard job.request result] := rfl

end Runner

end AnalysisJobs
