import AnalysisJobs.Proofs.Runner.Annotations
/-!
# What was fresh when it was started

Only a job that has its turn and gets a permit, or was given one before, calls the backend.
Its request was fresh in the pass that started it and is not checked again, however long the
job waits.  In between no other job touches what the request was checked against: its document
is taken, and projects and buffers change by commands alone.  So a call for a stale request is
due to the caller, who changed the registry after the pass.
-/

namespace AnalysisJobs.Runner

open Registry

variable {crashes : Prop} {m n : Runner} {backend : Backend} {request : Request}

/-! ## Who calls the backend -/

/-- The job calls the backend if it goes on now. -/
def Calls (m : Runner) (job : Job) : Prop :=
  job.phase = .granted ∨ job.phase = .spawned ∧ 0 < m.permits

theorem not_began_passOver (m : Runner) (turn : Turn) :
    Event.began request ∉ (m.passOver turn).2.2 := by
  rw [events_passOver]
  simp [Pass.events]

theorem not_began_dispatch (m : Runner) (turn : Turn) :
    Event.began request ∉ (m.dispatch turn).2.2 := by
  unfold dispatch
  split
  · exact List.not_mem_nil
  · exact not_began_passOver m turn

theorem not_began_finishProcess (m : Runner) (turn : Turn) :
    Event.began request ∉ (m.finishProcess turn).2.2 := by
  unfold finishProcess
  split
  · exact not_began_passOver _ turn
  · exact List.not_mem_nil

theorem not_began_learn (registry : Registry) (asked : Request) (result : Result) :
    Event.began request ∉ (learn registry asked result).2 := by
  unfold learn
  split
  · exact List.not_mem_nil
  · split <;> simp

theorem not_began_conclude (m : Runner) (job : Job) (turn : Turn) (result : Result) :
    Event.began request ∉ (m.conclude job turn result).2 := by
  have hlearn : Event.began request ∉ _ := not_began_learn m.registry job.request result
  rw [events_conclude]
  split <;> simp [hlearn]

theorem not_began_endCall (m : Runner) (job : Job) (turn : Turn) (ending : Ending) :
    Event.began request ∉ (m.endCall job turn ending).2 := by
  cases ending with
  | crashed => exact List.not_mem_nil
  | returned result => exact not_began_conclude _ job turn result

theorem not_began_cancel (m : Runner) (job : Job) (turn : Turn) :
    Event.began request ∉ (m.cancel job turn).2 := by
  unfold cancel
  exact not_began_conclude _ job turn _

theorem began_call {job : Job} {turn : Turn}
    (h : Event.began request ∈ (m.call backend job turn).2) : job.request = request := by
  unfold call at h
  split at h
  · exact (Event.began.inj (List.mem_singleton.1 h)).symm
  · rcases List.mem_cons.1 h with h | h
    · exact (Event.began.inj h).symm
    · exact absurd h (not_began_endCall m job turn _)

theorem began_advance {job : Job} {turn : Turn}
    (h : Event.began request ∈ (m.advance backend job turn).2) :
    job.request = request ∧ m.Calls job := by
  unfold advance at h
  split at h
  · rename_i hphase
    split at h
    · rename_i hpermit
      exact ⟨began_call h, .inr ⟨hphase, hpermit⟩⟩
    · cases h
  · rename_i hphase
    exact ⟨began_call h, .inl hphase⟩
  · exact absurd h (not_began_endCall m job turn _)
  · cases h
  · cases h

theorem began_jobTurn {id : Nat} {turn : Turn}
    (h : Event.began request ∈ (m.jobTurn backend id turn).2) :
    ∃ job, m.job? id = some job ∧ job.request = request ∧ m.Calls job := by
  unfold jobTurn at h
  split at h
  · cases h
  · rename_i job hjob
    split at h
    · exact absurd h (not_began_cancel m job turn)
    · refine ⟨job, hjob, ?_⟩
      dsimp only at h
      split at h
      · rcases List.mem_append.1 h with h | h
        · exact began_advance h
        · exact absurd h (not_began_cancel _ _ turn)
      · exact began_advance h

theorem not_began_dispatchRemembered (m : Runner) (turn : Turn) :
    Event.began request ∉ (m.dispatchRemembered turn).2 := by
  unfold dispatchRemembered
  split
  · exact not_began_dispatch { m with wakeup := false } turn
  · exact List.not_mem_nil

theorem not_began_dispatcherRound (m : Runner) (turn : Turn) :
    Event.began request ∉ (m.dispatcherRound turn).2 := by
  unfold dispatcherRound
  split
  · simp
  · exact not_began_dispatchRemembered m turn

theorem not_began_dispatcherTurn (m : Runner) (turn : Turn) :
    Event.began request ∉ (m.dispatcherTurn turn).2 := by
  have hround (n : Runner) : Event.began request ∉ _ := not_began_dispatcherRound n turn
  unfold dispatcherTurn
  split
  · simp [hround]
  · simp [hround, not_began_dispatch]
  all_goals exact List.not_mem_nil

theorem not_began_act (m : Runner) (a : Action) : Event.began request ∉ (m.act a).2.2 := by
  cases a with
  | command c => exact fun h => (m.registry.ofRegistry_events c _ h).elim
  | process turn => exact not_began_dispatch m turn
  | finishProcess turn => exact not_began_finishProcess m turn
  | add | enqueue => simp [act]
  | answer key ending =>
    simp only [act]
    split <;> exact List.not_mem_nil
  | beginProcess | startDispatcher | dropReceiver => exact List.not_mem_nil
  | shutDown =>
    simp only [act]
    split <;> simp

theorem began_move {move : Move} (h : Event.began request ∈ (m.move backend move).2) :
    ∃ job turn, move = .turn (.job job.id) turn ∧ m.job? job.id = some job ∧
      job.request = request ∧ m.Calls job := by
  cases move with
  | act a => exact absurd h (not_began_act m a)
  | turn task turn =>
    simp only [Runner.move, taskTurn] at h
    split at h
    · cases task with
      | dispatcher => exact absurd h (not_began_dispatcherTurn _ turn)
      | job id =>
        obtain ⟨job, hjob, hrequest, hcalls⟩ := began_jobTurn h
        obtain rfl := id_of_job? hjob
        exact ⟨job, turn, rfl, hjob, hrequest, hcalls⟩
    · cases h

/-! ## What a request was checked against -/

theorem staleness_congr {view other : View}
    (hdocument : other.document request.key = view.document request.key)
    (hbuffers : other.buffersChange = view.buffersChange)
    (hproject : other.projectChange request.key.project = view.projectChange request.key.project) :
    request.staleness other = request.staleness view := by
  have hcheck (part : Part) : request.check other part = request.check view part := by
    cases part <;> simp only [Request.check, hdocument, hbuffers, hproject]
  simp only [Request.staleness_eq, hcheck]

/-- While a request has a job, a move without a command leaves it as fresh as it was. -/
theorem Step.staleness_of_mem_roster {move : Move} {events : List Event}
    (hstep : Step crashes m move events n) (hexclusive : m.Exclusive crashes)
    {e : Nat × Request} (hlt : e.1 < m.spawned) (hmem : e ∈ n.roster)
    (hnone : move.commands = []) :
    e.2.staleness n.registry.view = e.2.staleness m.registry.view := by
  have hdocument := hstep.find?_of_mem_roster hexclusive hlt hmem
  rw [hnone, Registry.run_nil] at hdocument
  rcases hstep.registry_cases with hrun | ⟨-, ended, -, -, result, hlearned⟩
  · rw [hrun, hnone, Registry.run_nil]
  · have hchanges := changesOnly_learn m.registry ended.2 result
    rw [← hlearned] at hchanges
    refine staleness_congr hdocument ?_ ?_
    · rw [buffersChange_view, hchanges.buffers, buffersChange_view]
    · rw [Registry.view, hchanges.projects, Registry.view]

theorem staleness_run_of_mem_roster {moves : List Move} (hexclusive : m.Exclusive True)
    {e : Nat × Request} (hlt : e.1 < m.spawned) (hmem : e ∈ (m.run backend moves).1.roster)
    (hnone : ∀ move ∈ moves, move.commands = []) :
    e.2.staleness (m.run backend moves).1.registry.view = e.2.staleness m.registry.view := by
  induction moves generalizing m with
  | nil => rfl
  | cons move rest ih =>
    obtain ⟨hfirst, hrest⟩ := List.forall_mem_cons.1 hnone
    have hstep := step_any m backend move
    have hspawned := Nat.lt_of_lt_of_le hlt hstep.keeps_jobs.1
    have hnext : e ∈ (m.move backend move).1.roster :=
      (run_keeps_jobs _ backend rest).2 e hmem hspawned
    rw [run_cons, ih (hstep.exclusive hexclusive) hspawned hmem hrest,
      hstep.staleness_of_mem_roster hexclusive hlt hnext hfirst]

theorem exists_start {moves : List Move} {e : Nat × Request} (hnew : e ∉ m.roster)
    (hmem : e ∈ (m.run backend moves).1.roster) :
    ∃ before move after, moves = before ++ move :: after ∧
      e ∉ (m.run backend before).1.roster ∧
      e ∈ ((m.run backend before).1.move backend move).1.roster := by
  induction moves generalizing m with
  | nil => exact absurd hmem hnew
  | cons move rest ih =>
    by_cases hfirst : e ∈ (m.move backend move).1.roster
    · exact ⟨[], move, rest, rfl, hnew, hfirst⟩
    · obtain ⟨before, start, after, rfl, hbefore, hstart⟩ := ih hfirst hmem
      exact ⟨move :: before, start, after, rfl, hbefore, hstart⟩

theorem Passes.started_of_mem_roster {events : List Event} (h : Passes crashes m events n)
    {e : Nat × Request} (hmem : e ∈ n.roster) (hnew : e ∉ m.roster) :
    Event.started e.2 ∈ events := by
  induction h with
  | none hsame =>
    rw [hsame.roster] at hmem
    exact absurd hmem hnew
  | @pass m n last before after turn hsame _ _ ih =>
    by_cases hfirst : e ∈ (n.passOver turn).1.roster
    · rcases mem_roster_passOver hfirst with hold | ⟨-, -, hbatch⟩
      · rw [hsame.roster] at hold
        exact absurd hold hnew
      · rw [events_passOver]
        simp [hbatch]
    · exact List.mem_append_right _ (ih hmem hfirst)

/-- The request of a call was fresh in the pass that started its job.  It is as fresh in the
moment of the call as after the caller's last command, and fresh if there was none since. -/
theorem fresh_when_started {settings : Settings} {registry : Registry}
    (hm : create? settings registry = some m) (backend : Backend) (moves : List Move)
    {move : Move} {request : Request} :
    let now := (m.run backend moves).1
    Event.began request ∈ (now.move backend move).2 →
      ∃ id turn before pass between,
        move = .turn (.job id) turn ∧ moves = before ++ pass :: between ∧
        let queued := (m.run backend before).1
        let started := (queued.move backend pass).1
        (id, request) ∉ queued.roster ∧ (id, request) ∈ started.roster ∧
          Event.started request ∈ (queued.move backend pass).2 ∧
          request.staleness queued.registry.view = none ∧
          ((∀ move ∈ between, move.commands = []) →
            request.staleness now.registry.view = none) ∧
          ∀ first rest, between = first ++ rest → (∀ move ∈ rest, move.commands = []) →
            request.staleness now.registry.view =
              request.staleness (started.run backend first).1.registry.view := by
  intro now hbegan
  obtain ⟨job, turn, hmove, hjob, rfl, -⟩ := began_move hbegan
  have hnew := isNew_of_create? hm
  have hstart : (job.id, job.request) ∉ m.roster := by simp [roster, hnew.jobs]
  have hnow : (job.id, job.request) ∈ now.roster := mem_roster_of_job? hjob
  obtain ⟨before, pass, between, rfl, hqueued, hstarted⟩ := exists_start hstart hnow
  have hpasses := (step_any _ backend pass).passes_of_mem_roster hstarted hqueued
  have hfresh := hpasses.staleness_of_mem_roster hstarted hqueued
  have hexclusive := hpasses.exclusive ((exclusive_of_isNew hnew).run backend before)
  have hsince (first rest : List Move) (hbetween : between = first ++ rest)
      (hnone : ∀ move ∈ rest, move.commands = []) :
      job.request.staleness now.registry.view = job.request.staleness
        (((m.run backend before).1.move backend pass).1.run backend first).1.registry.view := by
    have hruns : now = ((((m.run backend before).1.move backend pass).1.run backend first).1.run
        backend rest).1 := by
      simp only [now, hbetween, run_append, run_cons]
    rw [hruns] at hnow ⊢
    refine staleness_run_of_mem_roster (hexclusive.run backend first) ?_ hnow hnone
    exact Nat.lt_of_lt_of_le (hexclusive.lt_spawned _ hstarted) (run_keeps_jobs _ backend first).1
  refine ⟨job.id, turn, before, pass, between, hmove, rfl, hqueued, hstarted,
    hpasses.started_of_mem_roster hstarted hqueued, hfresh, fun hnone => ?_, hsince⟩
  rw [hsince [] between rfl hnone, run_nil, hpasses.registry]
  exact hfresh

/-- The premises hold where a job has its first turn right after the pass that started it. -/
theorem fresh_when_started_at_once :
    let key : DocumentKey := ⟨⟨""⟩, ""⟩
    let turn : Turn := ⟨.zero, false⟩
    let backend : Backend := fun _ => none
    let registry := new.run [.putProject "" [], .openDocument key]
    let request := Request.make .updateAnnotations key registry.view
    let moves : List Move := [.act (.enqueue .updateAnnotations key), .act (.process turn)]
    ∃ m, create? (.default 1) registry = some m ∧
      let now := (m.run backend moves).1
      Event.began request ∈ (now.move backend (.turn (.job 0) turn)).2 ∧
        ∃ before pass between, moves = before ++ pass :: between ∧
          request.staleness (m.run backend before).1.registry.view = none := by
  intro key turn backend registry request moves
  have hm : create? (.default 1) registry = some _ := rfl
  refine ⟨_, hm, ?_⟩
  intro now
  have hbegan : Event.began request ∈ (now.move backend (.turn (.job 0) turn)).2 := by
    decide +kernel
  obtain ⟨_, _, before, pass, between, -, hmoves, -, -, -, hfresh, -⟩ :=
    fresh_when_started hm backend moves hbegan
  exact ⟨hbegan, before, pass, between, hmoves, hfresh⟩

/-- Two documents and one permit.  The second document is edited while its job waits for the
permit, and its call begins all the same. -/
theorem call_of_stale_request :
    let first : DocumentKey := ⟨⟨""⟩, ""⟩
    let second : DocumentKey := ⟨⟨""⟩, "other"⟩
    let turn : Turn := ⟨.zero, false⟩
    let backend : Backend := fun _ => none
    let registry := new.run [.putProject "" [], .putProject "other" [], .openDocument first,
      .openDocument second]
    let request := Request.make .updateAnnotations second registry.view
    let moves : List Move :=
      [.act (.enqueue .updateAnnotations first), .act (.process turn),
        .act (.enqueue .updateAnnotations second), .act (.process turn),
        .turn (.job 0) turn, .turn (.job 1) turn, .act (.command (.onDocuments (.edit second))),
        .act (.answer first fun _ => .returned (.ok (.annotations 0))), .turn (.job 0) turn]
    ∃ m, create? (.default 1) registry = some m ∧
      let now := (m.run backend moves).1
      Event.began request ∈ (now.move backend (.turn (.job 1) turn)).2 ∧
        request.staleness now.registry.view = some .revisionChanged := by
  intro first second turn backend registry request moves
  have hm : create? (.default 1) registry = some _ := rfl
  exact ⟨_, hm, by decide +kernel, by decide +kernel⟩

end AnalysisJobs.Runner
