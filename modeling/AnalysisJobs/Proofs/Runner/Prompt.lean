import AnalysisJobs.Proofs.Runner.Changes
import AnalysisJobs.Proofs.Runner.Occupied
import Mathlib.Data.List.Nodup
/-!
# Jobs that can go on

A job that was just started, was given a permit or was answered is on the list of ready tasks
until its turn, and its turn leaves it in a phase in which somebody else has to bring it on.
So where nothing is ready every job waits for a permit or is inside a call that goes on, and
no call that ended is left unattended.
-/

namespace AnalysisJobs.Runner

variable {m n : Runner} {backend : Backend}

/-- Every job that can go on is going to have a turn. -/
def Prompt (m : Runner) : Prop :=
  ∀ j ∈ m.jobs, j.phase.canGoOn = true → Task.job j.id ∈ m.ready

/-- No job is kept from its turn on the way from `m` to `n`, and those that became able to go
on are ready. -/
structure KeepsPrompt (m n : Runner) : Prop where
  ready : ∀ id, Task.job id ∈ m.ready → Task.job id ∈ n.ready
  jobs : ∀ j ∈ n.jobs, j.phase.canGoOn = true →
    Task.job j.id ∈ n.ready ∨ ∃ i ∈ m.jobs, i.id = j.id ∧ i.phase.canGoOn = true

theorem keepsPrompt_of_subset (hready : ∀ id, Task.job id ∈ m.ready → Task.job id ∈ n.ready)
    (hjobs : n.jobs ⊆ m.jobs) : KeepsPrompt m n :=
  ⟨hready, fun j hj hphase => .inr ⟨j, hjobs hj, rfl, hphase⟩⟩

theorem KeepsPrompt.refl (m : Runner) : KeepsPrompt m m :=
  keepsPrompt_of_subset (fun _ => id) (List.Subset.refl _)

theorem KeepsPrompt.trans {l : Runner} (hlm : KeepsPrompt l m) (hmn : KeepsPrompt m n) :
    KeepsPrompt l n where
  ready := fun id h => hmn.ready id (hlm.ready id h)
  jobs := by
    intro j hj hphase
    rcases hmn.jobs j hj hphase with hready | ⟨i, hi, hid, hgoes⟩
    · exact .inl hready
    · rw [← hid]
      exact (hlm.jobs i hi hgoes).imp_left (hmn.ready i.id)

theorem Prompt.of_keeps (h : m.Prompt) (hkeeps : KeepsPrompt m n) : n.Prompt := by
  intro j hj hphase
  rcases hkeeps.jobs j hj hphase with hready | ⟨i, hi, hid, hgoes⟩
  · exact hready
  · rw [← hid]
    exact hkeeps.ready i.id (h i hi hgoes)

/-! ## Small changes -/

@[simp] theorem jobs_schedule (m : Runner) (task : Task) : (m.schedule task).jobs = m.jobs := by
  obtain ⟨ready, h⟩ := schedule_eq m task
  rw [h]

theorem keepsPrompt_schedule (m : Runner) (task : Task) : KeepsPrompt m (m.schedule task) :=
  keepsPrompt_of_subset (fun _ => mem_ready_schedule_of_mem task) (by simp)

theorem keepsPrompt_notify (m : Runner) : KeepsPrompt m m.notify := by
  unfold notify
  split
  · exact keepsPrompt_of_subset (fun _ h => mem_ready_schedule_of_mem _ h) (by simp)
  · exact keepsPrompt_of_subset (fun _ => id) (List.Subset.refl _)

theorem mem_jobs_setPhase {id : Nat} {phase : Phase} {j : Job}
    (hj : j ∈ (m.setPhase id phase).jobs) :
    j.id = id ∧ j.phase = phase ∨ j.id ≠ id ∧ j ∈ m.jobs := by
  obtain ⟨i, hi, rfl⟩ := List.mem_map.1 hj
  by_cases hid : i.id = id
  · rw [if_pos hid]
    exact .inl ⟨hid, rfl⟩
  · rw [if_neg hid]
    exact .inr ⟨hid, hi⟩

theorem keepsPrompt_rest (m : Runner) (id : Nat) {phase : Phase}
    (hphase : phase.canGoOn = false) : KeepsPrompt m (m.setPhase id phase) := by
  refine ⟨fun _ h => h, fun j hj hgoes => .inr ?_⟩
  rcases mem_jobs_setPhase hj with ⟨-, rfl⟩ | ⟨-, hold⟩
  · rw [hphase] at hgoes
    cases hgoes
  · exact ⟨j, hold, rfl, hgoes⟩

theorem keepsPrompt_rouse (m : Runner) (id : Nat) (phase : Phase) :
    KeepsPrompt m ((m.setPhase id phase).schedule (.job id)) := by
  refine ⟨fun _ h => mem_ready_schedule_of_mem _ h, fun j hj hgoes => ?_⟩
  rw [jobs_schedule] at hj
  rcases mem_jobs_setPhase hj with ⟨rfl, -⟩ | ⟨-, hold⟩
  · exact .inl (mem_ready_schedule _ _)
  · exact .inr ⟨j, hold, rfl, hgoes⟩

theorem keepsPrompt_spawn (m : Runner) (request : Request) :
    KeepsPrompt m (m.spawn request) := by
  refine ⟨fun _ h => mem_ready_schedule_of_mem _ h, fun j hj hgoes => ?_⟩
  simp only [spawn, jobs_schedule] at hj
  rcases List.mem_append.1 hj with hold | hnew
  · exact .inr ⟨j, hold, rfl, hgoes⟩
  · obtain rfl := List.mem_singleton.1 hnew
    exact .inl (mem_ready_schedule _ _)

theorem Changes.keepsPrompt (h : Changes m n) : KeepsPrompt m n := by
  induction h with
  | trans _ _ ihlm ihmn => exact ihlm.trans ihmn
  | aside hready _ _ hjobs => exact keepsPrompt_of_subset (fun _ h => hready ▸ h) hjobs
  | schedule m task => exact keepsPrompt_schedule m task
  | notify m => exact keepsPrompt_notify m
  | rest m id hphase => exact keepsPrompt_rest m id hphase
  | rouse m id phase => exact keepsPrompt_rouse m id phase
  | spawn m request => exact keepsPrompt_spawn m request

/-! ## The dispatcher -/

theorem keepsPrompt_dispatcher (m : Runner) (dispatcher : Dispatcher) :
    KeepsPrompt m { m with dispatcher := dispatcher } :=
  keepsPrompt_of_subset (fun _ => id) (List.Subset.refl _)

theorem keepsPrompt_eraseDispatcher (m : Runner) :
    KeepsPrompt m { m with ready := m.ready.erase .dispatcher } :=
  keepsPrompt_of_subset (fun _ => (List.mem_erase_of_ne Task.noConfusion).2) (List.Subset.refl _)

theorem keepsPrompt_dispatcherRound (m : Runner) (turn : Turn) :
    KeepsPrompt m (m.dispatcherRound turn).1 := by
  unfold dispatcherRound
  split
  · exact keepsPrompt_dispatcher m _
  · refine KeepsPrompt.trans ?_ (keepsPrompt_dispatcher _ _)
    unfold dispatchRemembered
    split
    · have hwakeup : KeepsPrompt m { m with wakeup := false } :=
        keepsPrompt_of_subset (fun _ => id) (List.Subset.refl _)
      exact hwakeup.trans (changes_dispatch _ turn).keepsPrompt
    · exact .refl m

theorem keepsPrompt_dispatcherTurn (m : Runner) (turn : Turn) :
    KeepsPrompt m (m.dispatcherTurn turn).1 := by
  unfold dispatcherTurn
  split
  · exact keepsPrompt_dispatcherRound m turn
  · exact (changes_dispatch m turn).keepsPrompt.trans (keepsPrompt_dispatcherRound _ turn)
  all_goals exact .refl m

theorem keepsPrompt_startDispatcher (m : Runner) : KeepsPrompt m m.startDispatcher := by
  unfold startDispatcher
  split
  · exact ((keepsPrompt_dispatcher m .starting).trans (keepsPrompt_schedule _ _)).trans
      (keepsPrompt_notify _)
  · exact .refl m

theorem keepsPrompt_shutDown (m : Runner) : KeepsPrompt m m.shutDown := by
  unfold shutDown
  split
  · exact .refl m
  · have hstopped : KeepsPrompt m
        { m with
          isShutDown := true
          dispatcher := .absent
          ready := m.ready.erase .dispatcher } :=
      ⟨(keepsPrompt_eraseDispatcher m).ready, (keepsPrompt_eraseDispatcher m).jobs⟩
    exact List.foldlRecOn (motive := KeepsPrompt m) _ _ hstopped
      fun n hn j _ => hn.trans (keepsPrompt_schedule n (.job j.id))

theorem keepsPrompt_begun (m : Runner) (begun : Nat) : KeepsPrompt m { m with begun := begun } :=
  keepsPrompt_of_subset (fun _ => id) (List.Subset.refl _)

theorem keepsPrompt_beginProcess (m : Runner) : KeepsPrompt m m.beginProcess.1 := by
  unfold beginProcess
  split
  · exact .refl m
  · exact keepsPrompt_begun m _

theorem keepsPrompt_finishProcess (m : Runner) (turn : Turn) :
    KeepsPrompt m (m.finishProcess turn).1 := by
  unfold finishProcess
  split
  · exact (keepsPrompt_begun m _).trans (changes_passOver _ turn).keepsPrompt
  · exact .refl m

theorem keepsPrompt_act (m : Runner) (a : Action) : KeepsPrompt m (m.act a).1 := by
  cases a with
  | beginProcess => exact keepsPrompt_beginProcess m
  | finishProcess turn => exact keepsPrompt_finishProcess m turn
  | startDispatcher => exact keepsPrompt_startDispatcher m
  | shutDown => exact keepsPrompt_shutDown m
  | _ => exact (changes_act m (by trivial)).keepsPrompt

/-! ## The turn of a job -/

/-- The job `id`, if there is one, cannot go on by itself. -/
def Rests (m : Runner) (id : Nat) : Prop := ∀ j ∈ m.jobs, j.id = id → j.phase.canGoOn = false

theorem rests_forget (m : Runner) (id : Nat) : (m.forget id).Rests id := by
  intro j hj hid
  simp [forget, hid] at hj

theorem rests_conclude (m : Runner) (job : Job) (turn : Turn) (result : Result) :
    (m.conclude job turn result).1.Rests job.id := by
  obtain ⟨ready, wakeup, dispatcher, heq⟩ := conclude_eq m job turn result
  rw [heq]
  exact rests_forget m job.id

theorem rests_endCall (m : Runner) (job : Job) (turn : Turn) (ending : Ending) :
    (m.endCall job turn ending).1.Rests job.id := by
  cases ending with
  | crashed => exact rests_forget _ job.id
  | returned result => exact rests_conclude _ job turn result

theorem rests_cancel (m : Runner) (job : Job) (turn : Turn) :
    (m.cancel job turn).1.Rests job.id := by
  unfold cancel
  exact rests_conclude _ job turn _

theorem rests_setPhase (m : Runner) (id : Nat) {phase : Phase} (h : phase.canGoOn = false) :
    (m.setPhase id phase).Rests id := by
  intro j hj hid
  rcases mem_jobs_setPhase hj with ⟨-, rfl⟩ | ⟨hother, -⟩
  · exact h
  · exact absurd hid hother

theorem rests_call (m : Runner) (backend : Backend) (job : Job) (turn : Turn) :
    (m.call backend job turn).1.Rests job.id := by
  unfold call
  split
  · exact rests_setPhase m job.id rfl
  · exact rests_endCall m job turn _

theorem rests_advance {job : Job} (honly : ∀ j ∈ m.jobs, j.id = job.id → j = job)
    (backend : Backend) (turn : Turn) : (m.advance backend job turn).1.Rests job.id := by
  -- a job that waits already is left as it is, and no other job has its number
  have hphase (hrests : job.phase.canGoOn = false) : m.Rests job.id := by
    intro j hj hid
    rw [honly j hj hid]
    exact hrests
  unfold advance
  split
  · split
    · exact rests_call _ backend job turn
    · exact rests_setPhase _ job.id rfl
  · exact rests_call m backend job turn
  · exact rests_endCall m job turn _
  · rename_i hwaiting
    exact hphase (by rw [hwaiting]; rfl)
  · rename_i hexecuting
    exact hphase (by rw [hexecuting]; rfl)

theorem rests_jobTurn (honly : ∀ i ∈ m.jobs, ∀ j ∈ m.jobs, i.id = j.id → i = j)
    (backend : Backend) (id : Nat) (turn : Turn) :
    (m.jobTurn backend id turn).1.Rests id := by
  unfold jobTurn
  split
  · rename_i hnone
    intro j hj hid
    exact absurd hid (by simpa using List.find?_eq_none.1 hnone j hj)
  · rename_i job hjob
    obtain rfl := id_of_job? hjob
    split
    · exact rests_cancel m job turn
    · have hadvance := rests_advance (fun j hj =>
        honly j hj job (List.mem_of_find?_eq_some hjob)) backend turn
      dsimp only
      split
      · rename_i last _ hlast
        rw [← id_of_job? hlast]
        exact rests_cancel _ last turn
      · exact hadvance

theorem Exclusive.nodup_ids {crashes : Prop} (h : m.Exclusive crashes) :
    (m.jobs.map Job.id).Nodup :=
  List.pairwise_map.2 ((List.pairwise_map.1 h.apart).imp fun hapart => hapart.1)

theorem Exclusive.eq_of_id_eq {crashes : Prop} (h : m.Exclusive crashes) :
    ∀ i ∈ m.jobs, ∀ j ∈ m.jobs, i.id = j.id → i = j := by
  intro i hi j hj hid
  exact List.inj_on_of_nodup_map h.nodup_ids hi hj hid

theorem Prompt.jobTurn {id : Nat} (honly : ∀ i ∈ m.jobs, ∀ j ∈ m.jobs, i.id = j.id → i = j)
    (h : m.Prompt) (backend : Backend) (turn : Turn) :
    ({ m with ready := m.ready.erase (.job id) }.jobTurn backend id turn).1.Prompt := by
  have hkeeps := (works_jobTurn { m with ready := m.ready.erase (.job id) } backend id
    turn).changes.keepsPrompt
  have hrests := rests_jobTurn (m := { m with ready := m.ready.erase (.job id) }) honly backend
    id turn
  intro j hj hgoes
  -- the job that had its turn is off the list and rests; the others keep their places
  by_cases hid : j.id = id
  · rw [hrests j hj hid] at hgoes
    cases hgoes
  · rcases hkeeps.jobs j hj hgoes with hready | ⟨i, hi, hi', hphase⟩
    · exact hready
    · rw [← hi']
      apply hkeeps.ready
      have hother : Task.job i.id ≠ .job id := fun hsame => hid (hi' ▸ Task.job.inj hsame)
      exact (List.mem_erase_of_ne hother).2 (h i hi hphase)

/-! ## Moves and runs -/

theorem Prompt.move (h : m.Prompt) (hexclusive : m.Exclusive True) (backend : Backend)
    (move : Move) : (m.move backend move).1.Prompt := by
  cases move with
  | act a => exact h.of_keeps (keepsPrompt_act m a)
  | turn task turn =>
    simp only [Runner.move, taskTurn]
    cases task with
    | job id =>
      split
      · exact h.jobTurn hexclusive.eq_of_id_eq backend turn
      · exact h
    | dispatcher =>
      split
      · exact h.of_keeps
          ((keepsPrompt_eraseDispatcher m).trans (keepsPrompt_dispatcherTurn _ turn))
      · exact h

theorem Prompt.run (h : m.Prompt) (hexclusive : m.Exclusive True) (backend : Backend)
    (moves : List Move) : (m.run backend moves).1.Prompt := by
  induction moves generalizing m with
  | nil => exact h
  | cons move rest ih =>
    exact ih (h.move hexclusive backend move) ((step_any m backend move).exclusive hexclusive)

/-- Where nothing is ready no call is left that came to an end. -/
theorem waiting_or_executing_of_ready_eq_nil {settings : Settings} {registry : Registry}
    (hm : create? settings registry = some m) {moves : List Move}
    (hready : (m.run backend moves).1.ready = []) :
    ∀ j ∈ (m.run backend moves).1.jobs, j.phase = .waiting ∨ j.phase = .executing := by
  have hnew := isNew_of_create? hm
  have hfirst : m.Prompt := by
    intro j hj
    rw [hnew.jobs] at hj
    cases hj
  have hprompt := hfirst.run (exclusive_of_isNew hnew) backend moves
  intro j hj
  have hrests : j.phase.canGoOn ≠ true := by
    intro hgoes
    have hmem := hprompt j hj hgoes
    rw [hready] at hmem
    cases hmem
  cases hphase : j.phase with
  | waiting => exact .inl rfl
  | executing => exact .inr rfl
  | spawned | granted | answered => simp [hphase, Phase.canGoOn] at hrests

end AnalysisJobs.Runner
