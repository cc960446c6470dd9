import AnalysisJobs.Proofs.Runner.LatePasses
import AnalysisJobs.Proofs.Runner.Permits
/-!
# The end of a runner

Every job that a shutdown finds, or that a late pass starts, is ready, and its next turn ends
it, whatever it was doing: a job whose call goes on is cancelled.  So where nothing is ready any
more no job is left, and the turns that are left come to an end.  Nothing else happens to the
queue and the jobs but by the passes of callers who waited for the registry.
-/

namespace AnalysisJobs.Runner

variable {crashes : Prop} {m n : Runner} {backend : Backend}

/-! ## Turns of jobs -/

theorem JobStep.isShutDown {id : Nat} {events : List Event} (h : JobStep crashes m id events n) :
    n.isShutDown = m.isShutDown := by
  cases h with
  | goesOn hsame | dies _ hsame => exact hsame.isShutDown
  | @ends l job _ turn result hsame =>
    obtain ⟨ready, wakeup, dispatcher, heq⟩ := conclude_eq l job turn result
    rw [heq]
    exact hsame.isShutDown

theorem job?_cancel (m : Runner) (job : Job) (turn : Turn) :
    (m.cancel job turn).1.job? job.id = none := by
  unfold cancel
  exact job?_conclude _ job turn _

/-- After a shutdown the turn of a job is its last. -/
theorem job?_jobTurn_of_isShutDown (hshut : m.isShutDown = true) (backend : Backend) (id : Nat)
    (turn : Turn) : (m.jobTurn backend id turn).1.job? id = none := by
  unfold jobTurn
  split
  · assumption
  · rename_i job hjob
    obtain rfl := id_of_job? hjob
    split
    · exact job?_cancel m job turn
    · have hadvance : JobStep True m job.id _ (m.advance backend job turn).1 :=
        jobStep_advance (fun _ => trivial) hjob turn
      have hshut' := hadvance.isShutDown.trans hshut
      dsimp only
      split
      · rename_i last _ hlast
        rw [← id_of_job? hlast]
        exact job?_cancel _ last turn
      · rename_i hother
        rw [← Option.not_isSome_iff_eq_none, Option.isSome_iff_exists]
        rintro ⟨last, hlast⟩
        exact hother last hshut' hlast

/-- Every job of a runner that was shut down is going to have a turn. -/
def Summoned (m : Runner) : Prop :=
  m.isShutDown = true → ∀ j ∈ m.jobs, Task.job j.id ∈ m.ready

theorem mem_ready_move {move : Move} {id : Nat} (h : Task.job id ∈ m.ready)
    (hother : ∀ turn, move ≠ .turn (.job id) turn) :
    Task.job id ∈ (m.move backend move).1.ready := by
  cases move with
  | act a => exact (keepsPrompt_act m a).ready id h
  | turn task turn =>
    simp only [Runner.move, taskTurn]
    split
    · cases task with
      | job other =>
        have hne : Task.job id ≠ .job other := by
          rintro ⟨⟩
          exact hother turn rfl
        refine (works_jobTurn _ backend other turn).changes.keepsPrompt.ready id ?_
        exact (List.mem_erase_of_ne hne).2 h
      | dispatcher =>
        exact ((keepsPrompt_eraseDispatcher m).trans (keepsPrompt_dispatcherTurn _ turn)).ready id h
    · exact h

theorem jobs_shutDown (m : Runner) : m.shutDown.jobs = m.jobs := by
  unfold shutDown
  split
  · rfl
  · refine List.foldlRecOn (motive := fun n : Runner => n.jobs = m.jobs) _ _ ?_ fun n hn j _ => ?_
    · rfl
    · rw [jobs_schedule, hn]

theorem mem_ready_foldl_schedule {jobs : List Job} {j : Job} (hj : j ∈ jobs) (m : Runner) :
    Task.job j.id ∈ (jobs.foldl (fun m j => m.schedule (.job j.id)) m).ready := by
  induction jobs generalizing m with
  | nil => cases hj
  | cons first rest ih =>
    rw [List.foldl_cons]
    rcases List.mem_cons.1 hj with rfl | hrest
    · refine List.foldlRecOn (motive := fun n : Runner => Task.job j.id ∈ n.ready) _ _ ?_
        fun n hn i _ => mem_ready_schedule_of_mem _ hn
      exact mem_ready_schedule m _
    · exact ih hrest _

theorem mem_ready_shutDown (hopen : m.isShutDown = false) {j : Job} (hj : j ∈ m.jobs) :
    Task.job j.id ∈ m.shutDown.ready := by
  rw [shutDown, if_neg (by rw [hopen]; exact Bool.false_ne_true)]
  exact mem_ready_foldl_schedule hj _

theorem move_turn_of_mem {id : Nat} (h : Task.job id ∈ m.ready) (backend : Backend)
    (turn : Turn) : m.move backend (.turn (.job id) turn) =
      { m with ready := m.ready.erase (.job id) }.jobTurn backend id turn := by
  rw [Runner.move, taskTurn, if_pos h]

theorem job?_move_of_isShutDown (hshut : m.isShutDown = true) {id : Nat}
    (hready : Task.job id ∈ m.ready) (backend : Backend) (turn : Turn) :
    (m.move backend (.turn (.job id) turn)).1.job? id = none := by
  rw [move_turn_of_mem hready]
  exact job?_jobTurn_of_isShutDown (m := { m with ready := m.ready.erase (.job id) }) hshut backend
    id turn

theorem Summoned.finishProcess (h : m.Summoned) (hshut : m.isShutDown = true) (turn : Turn) :
    ∀ j ∈ (m.finishProcess turn).1.jobs, Task.job j.id ∈ (m.finishProcess turn).1.ready := by
  intro j hj
  have hkeeps := keepsPrompt_finishProcess m turn
  obtain ⟨new, hjobs, hspawned⟩ := (hires_finishProcess m turn).jobs
  rw [hjobs] at hj
  rcases List.mem_append.1 hj with hold | hnew
  · exact hkeeps.ready j.id (h hshut j hold)
  · have hgoes : j.phase.canGoOn = true := by rw [hspawned j hnew, Phase.canGoOn]
    rcases hkeeps.jobs j (hjobs ▸ List.mem_append_right _ hnew) hgoes with
      hready | ⟨i, hi, hid, -⟩
    · exact hready
    · rw [← hid]
      exact hkeeps.ready i.id (h hshut i hi)

theorem Summoned.move (h : m.Summoned) (backend : Backend) (move : Move) :
    (m.move backend move).1.Summoned := by
  intro hnext j hj
  have hstep := step_any m backend move
  cases hshut : m.isShutDown with
  | false =>
    have hmove : move = .act .shutDown := by
      by_contra hother
      rw [hstep.isShutDown hother, hshut] at hnext
      cases hnext
    subst hmove
    exact mem_ready_shutDown hshut (jobs_shutDown m ▸ hj)
  | true =>
    by_cases hfinish : ∃ turn, move = .act (.finishProcess turn)
    · obtain ⟨turn, rfl⟩ := hfinish
      exact h.finishProcess hshut turn j hj
    · have hnone := not_isPass_move hshut backend fun turn hmove => hfinish ⟨turn, hmove⟩
      have hroster : (j.id, j.request) ∈ m.roster :=
        hstep.roster_subset_of_no_pass hnone (List.mem_map_of_mem hj)
      obtain ⟨i, hi, heq⟩ := List.mem_map.1 hroster
      obtain ⟨hid, -⟩ := Prod.mk.inj heq
      have hready : Task.job j.id ∈ m.ready := hid ▸ h hshut i hi
      refine mem_ready_move hready ?_
      rintro turn rfl
      have hgone := job?_move_of_isShutDown hshut hready backend turn
      exact List.find?_eq_none.1 hgone j hj (decide_eq_true rfl)

/-! ## Runs -/

/-- What holds of every runner whose calls return. -/
structure Sound (m : Runner) : Prop where
  exclusive : m.Exclusive False
  calm : m.Calm False
  line : m.InLine
  summoned : m.Summoned

theorem Sound.step (h : m.Sound) {move : Move} (hreturns : CallsReturn backend [move]) :
    Step False m move (m.move backend move).2 (m.move backend move).1 :=
  step_move (fun r hr => hreturns.1 r hr) h.calm fun _ => hreturns.2 move List.mem_cons_self

theorem Sound.move (h : m.Sound) {move : Move} (hreturns : CallsReturn backend [move]) :
    (m.move backend move).1.Sound := by
  have hstep := h.step hreturns
  have hexclusive := hstep.exclusive h.exclusive
  have hbalanced : m.Balanced m.accounted := ⟨h.line, rfl⟩
  exact ⟨hexclusive, hstep.calm h.calm, (hbalanced.move hexclusive).line,
    h.summoned.move backend move⟩

theorem Sound.run (h : m.Sound) {moves : List Move} (hreturns : CallsReturn backend moves) :
    (m.run backend moves).1.Sound := by
  induction moves generalizing m with
  | nil => exact h
  | cons move rest ih =>
    obtain ⟨hfirst, hrest⟩ := hreturns.of_cons
    exact ih (h.move hfirst) hrest

theorem Sound.flow_run (h : m.Sound) {moves : List Move} (hreturns : CallsReturn backend moves) :
    Flow m (m.requested backend moves) (m.run backend moves).2 (m.run backend moves).1 := by
  induction moves generalizing m with
  | nil => exact flow_refl m
  | cons move rest ih =>
    obtain ⟨hfirst, hrest⟩ := hreturns.of_cons
    exact ((h.step hfirst).flow h.exclusive).append (ih (h.move hfirst) hrest)

theorem Passes.roster_subset {events : List Event} (h : Passes crashes m events n) :
    m.roster ⊆ n.roster := by
  induction h with
  | none hsame => rw [hsame.roster]; exact List.Subset.refl _
  | @pass _ n _ _ _ turn hsame _ _ ih =>
    refine List.Subset.trans ?_ ih
    rw [roster_passOver, hsame.roster]
    exact List.subset_append_left _ _

theorem Sound.isRunning_iff (h : m.Sound) (key : DocumentKey) :
    m.isRunning key = true ↔ ∃ r ∈ m.inFlight, r.key.Same key := by
  constructor
  · intro hkey
    obtain ⟨e, he, hsame⟩ := (h.exclusive.exists_mem key hkey).resolve_left id
    exact ⟨e.2, map_snd_roster m ▸ List.mem_map_of_mem he, hsame⟩
  · rintro ⟨r, hr, hsame⟩
    rw [← map_snd_roster] at hr
    obtain ⟨e, he, rfl⟩ := List.mem_map.1 hr
    rw [← isRunning_congr m hsame]
    exact h.exclusive.isRunning_of_mem e he

end AnalysisJobs.Runner
