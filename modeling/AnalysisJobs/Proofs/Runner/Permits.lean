import AnalysisJobs.Proofs.Runner.Calls
import AnalysisJobs.Proofs.Runner.Prompt
/-!
# Where the permits are

A permit is free or some job has it.  A job takes one when it calls the backend or is given
one while it waits, and however it leaves, it gives one back: to the first job in line, or to
nobody.  `Handles` is the balance of what one job does in its turn, from which follows that
no move makes or loses a permit.  A job inside its call has a permit, so that there are never
more calls than permits.
-/

namespace AnalysisJobs

def Phase.permits (phase : Phase) : Nat := if phase.holdsPermit then 1 else 0

namespace Runner

variable {m n : Runner} {backend : Backend}

/-! ## Phases of jobs -/

def phase? (m : Runner) (id : Nat) : Option Phase := (m.job? id).map Job.phase

theorem phase?_of_job? {id : Nat} {job : Job} (h : m.job? id = some job) :
    m.phase? id = some job.phase := by
  rw [phase?, h, Option.map_some]

theorem phase?_ne_waiting {id : Nat} {job : Job} (h : m.job? id = some job)
    (hphase : job.phase ≠ .waiting) : m.phase? id ≠ some .waiting := by
  rw [phase?_of_job? h]
  exact fun heq => hphase (Option.some.inj heq)

theorem phase?_congr {id : Nat} (h : n.job? id = m.job? id) : n.phase? id = m.phase? id := by
  rw [phase?, h, phase?]

theorem job?_of_jobs_eq (h : n.jobs = m.jobs) (id : Nat) : n.job? id = m.job? id := by
  rw [job?, h, job?]

theorem job?_setPhase_of_ne {id other : Nat} (h : other ≠ id) (phase : Phase) :
    (m.setPhase id phase).job? other = m.job? other := by
  rw [job?_setPhase]
  cases hjob : m.job? other with
  | none => rfl
  | some job => rw [Option.map_some, if_neg (id_of_job? hjob ▸ h)]

theorem job?_forget_of_ne {id other : Nat} (h : other ≠ id) :
    (m.forget id).job? other = m.job? other := by
  simp only [job?, forget, List.find?_filter]
  congr 1
  funext j
  by_cases hj : j.id = other <;> simp [hj, h]

/-! ## Counting permits -/

/-- How many jobs have a permit. -/
def holders (m : Runner) : Nat := m.jobs.countP fun j => j.phase.holdsPermit

/-- How many jobs are inside their call of the backend. -/
def callers (m : Runner) : Nat := m.jobs.countP fun j => j.phase.inCall

/-- How many permits are free or held. -/
def accounted (m : Runner) : Nat := m.permits + m.holders

theorem accounted_schedule (m : Runner) (task : Task) :
    (m.schedule task).accounted = m.accounted := by
  obtain ⟨ready, heq⟩ := schedule_eq m task
  rw [heq]
  rfl

theorem callers_le_holders (m : Runner) : m.callers ≤ m.holders := by
  refine List.countP_mono_left fun j _ hj => ?_
  revert hj
  cases j.phase <;> simp [Phase.inCall, Phase.holdsPermit]

theorem perm_cons_forget (hids : (m.jobs.map Job.id).Nodup) {job : Job} (hjob : job ∈ m.jobs) :
    m.jobs.Perm (job :: (m.forget job.id).jobs) := by
  have hothers : m.jobs.erase job = (m.forget job.id).jobs := by
    rw [hids.of_map.erase_eq_filter, forget]
    refine List.filter_congr fun j hj => ?_
    by_cases hid : j.id = job.id
    · simp [List.inj_on_of_nodup_map hids hj hjob hid]
    · have hne : j ≠ job := fun h => hid (congrArg Job.id h)
      simp [hid, hne]
  rw [← hothers]
  exact List.perm_cons_erase hjob

theorem holders_forget (hids : (m.jobs.map Job.id).Nodup) {job : Job} (hjob : job ∈ m.jobs) :
    m.holders = (m.forget job.id).holders + job.phase.permits := by
  rw [holders, (perm_cons_forget hids hjob).countP_eq, List.countP_cons, Phase.permits, holders]

theorem holders_setPhase (hids : (m.jobs.map Job.id).Nodup) {job : Job} (hjob : job ∈ m.jobs)
    (phase : Phase) :
    (m.setPhase job.id phase).holders = (m.forget job.id).holders + phase.permits := by
  have hperm := (perm_cons_forget hids hjob).map fun j =>
    if j.id = job.id then { j with phase := phase } else j
  have hothers : (m.forget job.id).jobs.map
      (fun j => if j.id = job.id then { j with phase := phase } else j) =
        (m.forget job.id).jobs := by
    refine (List.map_congr_left fun j hj => ?_).trans (List.map_id _)
    exact if_neg (of_decide_eq_true (List.mem_filter.1 hj).2)
  rw [List.map_cons, hothers, if_pos rfl] at hperm
  rw [holders, setPhase, hperm.countP_eq, List.countP_cons, Phase.permits, holders]

theorem accounted_setPhase (hids : (m.jobs.map Job.id).Nodup) {job : Job} (hjob : job ∈ m.jobs)
    (phase : Phase) :
    (m.setPhase job.id phase).accounted + job.phase.permits = m.accounted + phase.permits := by
  have hbefore := holders_forget hids hjob
  have hafter := holders_setPhase hids hjob phase
  have hpermits : (m.setPhase job.id phase).permits = m.permits := rfl
  rw [accounted, accounted, hafter, hbefore, hpermits]
  omega

/-! ## The line -/

/-- Jobs have different numbers, and those in line stand there once and wait. -/
structure InLine (m : Runner) : Prop where
  ids : (m.jobs.map Job.id).Nodup
  nodup : m.waiters.Nodup
  waits : ∀ id ∈ m.waiters, m.phase? id = some .waiting

theorem InLine.of_eq (h : m.InLine) (hjobs : n.jobs = m.jobs) (hwaiters : n.waiters = m.waiters) :
    n.InLine where
  ids := hjobs ▸ h.ids
  nodup := hwaiters ▸ h.nodup
  waits id hid := by
    rw [phase?_congr (job?_of_jobs_eq hjobs id)]
    exact h.waits id (hwaiters ▸ hid)

theorem InLine.not_mem_waiters (h : m.InLine) {id : Nat} (hphase : m.phase? id ≠ some .waiting) :
    id ∉ m.waiters := fun hid => hphase (h.waits id hid)

theorem InLine.of_job?_eq (h : m.InLine) (hids : (n.jobs.map Job.id).Nodup)
    (hwaiters : n.waiters.Sublist m.waiters) (hjobs : ∀ id ∈ n.waiters, n.job? id = m.job? id) :
    n.InLine where
  ids := hids
  nodup := h.nodup.sublist hwaiters
  waits id hid := by
    rw [phase?_congr (hjobs id hid)]
    exact h.waits id (hwaiters.subset hid)

theorem InLine.schedule (h : m.InLine) (task : Task) : (m.schedule task).InLine := by
  obtain ⟨ready, heq⟩ := schedule_eq m task
  rw [heq]
  exact h.of_eq rfl rfl

theorem ids_setPhase (m : Runner) (id : Nat) (phase : Phase) :
    (m.setPhase id phase).jobs.map Job.id = m.jobs.map Job.id := by
  simp only [setPhase, List.map_map]
  congr 1
  funext j
  by_cases h : j.id = id <;> simp [h]

theorem InLine.setPhase (h : m.InLine) {id : Nat} (hid : id ∉ m.waiters) (phase : Phase) :
    (m.setPhase id phase).InLine := by
  refine h.of_job?_eq (ids_setPhase m id phase ▸ h.ids) (List.Sublist.refl _) fun other hother => ?_
  exact job?_setPhase_of_ne (fun heq : other = id => hid (heq ▸ hother)) phase

theorem InLine.forget (h : m.InLine) {id : Nat} (hid : id ∉ m.waiters) :
    (m.forget id).InLine := by
  refine h.of_job?_eq (h.ids.sublist (List.filter_sublist.map Job.id)) (List.Sublist.refl _)
    fun other hother => ?_
  exact job?_forget_of_ne fun heq : other = id => hid (heq ▸ hother)

/-! ## What a job does in its turn -/

/-- `n` comes from `m` by what the job `id` does.  Of the permits accounted for it gives up
some and takes some, and it concerns no other job but those in line. -/
structure Handles (id gives takes : Nat) (m n : Runner) : Prop where
  line : n.InLine
  accounted : n.accounted + gives = m.accounted + takes
  others : ∀ other, other ≠ id → m.phase? other ≠ some .waiting → n.job? other = m.job? other

section Handles

variable {id gives takes : Nat}

theorem Handles.refl (h : m.InLine) (id : Nat) : Handles id 0 0 m m :=
  ⟨h, rfl, fun _ _ _ => rfl⟩

theorem Handles.of_eq {l : Runner} (h : Handles id gives takes m n) (hjobs : l.jobs = n.jobs)
    (hpermits : l.permits = n.permits) (hwaiters : l.waiters = n.waiters) :
    Handles id gives takes m l where
  line := h.line.of_eq hjobs hwaiters
  accounted := by
    rw [Runner.accounted, holders, hjobs, hpermits]
    exact h.accounted
  others other hother hphase := (job?_of_jobs_eq hjobs other).trans (h.others other hother hphase)

theorem Handles.trans {l : Runner} {gives' takes' : Nat} (hlm : Handles id gives takes l m)
    (hmn : Handles id gives' takes' m n) : Handles id (gives + gives') (takes + takes') l n where
  line := hmn.line
  accounted := by
    have hfirst := hlm.accounted
    have hsecond := hmn.accounted
    omega
  others other hother hphase := by
    have hjob := hlm.others other hother hphase
    rw [← phase?_congr hjob] at hphase
    exact (hmn.others other hother hphase).trans hjob

theorem Handles.schedule (h : Handles id gives takes m n) (task : Task) :
    Handles id gives takes m (n.schedule task) := by
  obtain ⟨ready, heq⟩ := schedule_eq n task
  rw [heq]
  exact h.of_eq rfl rfl rfl

theorem Handles.settle (h : Handles id gives takes m n) (heq : gives = takes) :
    Handles id 0 0 m n where
  line := h.line
  accounted := by
    have hcount := h.accounted
    omega
  others := h.others

end Handles

theorem job?_releasePermit (h : m.InLine) {id : Nat} (hphase : m.phase? id ≠ some .waiting) :
    m.releasePermit.job? id = m.job? id := by
  unfold releasePermit
  split
  · rfl
  · rename_i first rest hwaiters
    have hne : id ≠ first := by
      rintro rfl
      exact h.not_mem_waiters hphase (hwaiters ▸ List.mem_cons_self)
    rw [job?_schedule, job?_setPhase_of_ne hne]
    rfl

theorem InLine.releasePermit (h : m.InLine) : m.releasePermit.InLine := by
  unfold Runner.releasePermit
  split
  · exact h.of_eq rfl rfl
  · rename_i first rest hwaiters
    have hnodup := h.nodup
    rw [hwaiters, List.nodup_cons] at hnodup
    have hrest : InLine { m with waiters := rest } := by
      refine h.of_job?_eq h.ids ?_ fun _ _ => rfl
      rw [hwaiters]
      exact List.sublist_cons_self first rest
    exact (hrest.setPhase hnodup.1 .granted).schedule (.job first)

theorem accounted_releasePermit (h : m.InLine) : m.releasePermit.accounted = m.accounted + 1 := by
  unfold releasePermit
  split
  · simp only [accounted, holders]
    omega
  · rename_i first rest hwaiters
    obtain ⟨job, hjob, hphase⟩ :=
      Option.map_eq_some_iff.1 (h.waits first (hwaiters ▸ List.mem_cons_self))
    obtain rfl := id_of_job? hjob
    have hmem := List.mem_of_find?_eq_some hjob
    have hgiven := accounted_setPhase (m := { m with waiters := rest }) h.ids hmem .granted
    rw [hphase] at hgiven
    rw [accounted_schedule]
    exact hgiven

theorem handles_releasePermit (h : m.InLine) (id : Nat) : Handles id 0 1 m m.releasePermit :=
  ⟨h.releasePermit, accounted_releasePermit h, fun _ _ hphase => job?_releasePermit h hphase⟩

theorem handles_forget (h : m.InLine) {job : Job} (hjob : m.job? job.id = some job)
    (hout : job.id ∉ m.waiters) : Handles job.id job.phase.permits 0 m (m.forget job.id) where
  line := h.forget hout
  accounted := by
    have hholders := holders_forget h.ids (List.mem_of_find?_eq_some hjob)
    simp only [accounted, forget] at hholders ⊢
    omega
  others _ hother _ := job?_forget_of_ne hother

theorem handles_conclude (h : m.InLine) {job : Job} (hjob : m.job? job.id = some job)
    (hout : job.id ∉ m.waiters) (turn : Turn) (result : Result) :
    Handles job.id job.phase.permits 0 m (m.conclude job turn result).1 := by
  obtain ⟨ready, wakeup, dispatcher, heq⟩ := conclude_eq m job turn result
  rw [heq]
  exact (handles_forget h hjob hout).of_eq rfl rfl rfl

theorem handles_setPhase (h : m.InLine) {job : Job} (hjob : m.job? job.id = some job)
    (hphase : job.phase ≠ .waiting) (phase : Phase) :
    Handles job.id job.phase.permits phase.permits m (m.setPhase job.id phase) where
  line := h.setPhase (h.not_mem_waiters (phase?_ne_waiting hjob hphase)) phase
  accounted := accounted_setPhase h.ids (List.mem_of_find?_eq_some hjob) phase
  others _ hother _ := job?_setPhase_of_ne hother phase

theorem handles_endCall (h : m.InLine) {job : Job} (hjob : m.job? job.id = some job)
    (hphase : job.phase ≠ .waiting) (turn : Turn) (ending : Ending) :
    Handles job.id job.phase.permits 1 m (m.endCall job turn ending).1 := by
  have hfreed := handles_releasePermit h job.id
  have hjob' : m.releasePermit.job? job.id = some job :=
    (job?_releasePermit h (phase?_ne_waiting hjob hphase)).trans hjob
  have hout := hfreed.line.not_mem_waiters (phase?_ne_waiting hjob' hphase)
  rw [← Nat.zero_add job.phase.permits, ← Nat.add_zero 1]
  cases ending with
  | crashed => exact hfreed.trans (handles_forget hfreed.line hjob' hout)
  | returned result => exact hfreed.trans (handles_conclude hfreed.line hjob' hout turn result)

theorem handles_cancel (h : m.InLine) {job : Job} (hjob : m.job? job.id = some job)
    (turn : Turn) : Handles job.id 0 0 m (m.cancel job turn).1 := by
  unfold cancel
  by_cases hholds : job.phase.holdsPermit = true
  · rw [if_pos hholds]
    have hphase : job.phase ≠ .waiting :=
      fun hphase => by simp [hphase, Phase.holdsPermit] at hholds
    refine (handles_endCall h hjob hphase turn (.returned (.failed .cancelled))).settle ?_
    rw [Phase.permits, if_pos hholds]
  · rw [if_neg hholds]
    have hleft : Handles job.id 0 0 m { m with waiters := m.waiters.filter (· ≠ job.id) } :=
      ⟨h.of_job?_eq h.ids List.filter_sublist fun _ _ => rfl, rfl, fun _ _ _ => rfl⟩
    have hout : job.id ∉ m.waiters.filter (· ≠ job.id) := by simp
    refine (hleft.trans (handles_conclude hleft.line hjob hout turn (.failed .cancelled))).settle ?_
    rw [Phase.permits, if_neg hholds]

theorem handles_call (h : m.InLine) {job : Job} (hjob : m.job? job.id = some job)
    (hphase : job.phase ≠ .waiting) (turn : Turn) :
    Handles job.id job.phase.permits 1 m (m.call backend job turn).1 := by
  unfold call
  split
  · exact handles_setPhase h hjob hphase .executing
  · exact handles_endCall h hjob hphase turn _

theorem handles_wait (h : m.InLine) {job : Job} (hjob : m.job? job.id = some job)
    (hphase : job.phase = .spawned) :
    Handles job.id 0 0 m
      (Runner.setPhase { m with waiters := m.waiters ++ [job.id] } job.id .waiting) := by
  have hout := h.not_mem_waiters (phase?_ne_waiting hjob (by simp [hphase]))
  refine ⟨⟨?_, ?_, fun other hother => ?_⟩, ?_, fun other hother _ => job?_setPhase_of_ne hother _⟩
  · rw [ids_setPhase]
    exact h.ids
  · have hnodup := h.nodup.concat hout
    rw [List.concat_eq_append] at hnodup
    exact hnodup
  · rcases List.mem_append.1 hother with hold | hnew
    · have hne : other ≠ job.id := fun heq => hout (heq ▸ hold)
      rw [phase?_congr (job?_setPhase_of_ne hne _)]
      exact h.waits other hold
    · obtain rfl := List.mem_singleton.1 hnew
      have hjob' : Runner.job? { m with waiters := m.waiters ++ [job.id] } job.id = some job := hjob
      rw [phase?, job?_setPhase, hjob', Option.map_some, if_pos rfl, Option.map_some]
  · have hcount := accounted_setPhase (m := { m with waiters := m.waiters ++ [job.id] }) h.ids
      (List.mem_of_find?_eq_some hjob) .waiting
    rw [hphase] at hcount
    exact hcount

theorem handles_advance (h : m.InLine) {job : Job} (hjob : m.job? job.id = some job)
    (backend : Backend) (turn : Turn) : Handles job.id 0 0 m (m.advance backend job turn).1 := by
  unfold advance
  split
  · rename_i hphase
    split
    · rename_i hpermit
      have htaken : Handles job.id 1 0 m { m with permits := m.permits - 1 } := by
        refine ⟨h.of_eq rfl rfl, ?_, fun _ _ _ => rfl⟩
        simp only [accounted, holders]
        omega
      refine (htaken.trans (handles_call htaken.line hjob (by simp [hphase]) turn)).settle ?_
      rw [hphase]
      rfl
    · exact handles_wait h hjob hphase
  · rename_i hphase
    refine (handles_call h hjob (by simp [hphase]) turn).settle ?_
    rw [hphase]
    rfl
  · rename_i ending hphase
    refine (handles_endCall h hjob (by simp [hphase]) turn ending).settle ?_
    rw [hphase]
    rfl
  · exact .refl h job.id
  · exact .refl h job.id

theorem handles_jobTurn (h : m.InLine) (backend : Backend) (id : Nat) (turn : Turn) :
    Handles id 0 0 m (m.jobTurn backend id turn).1 := by
  unfold jobTurn
  split
  · exact .refl h id
  · rename_i job hjob
    obtain rfl := id_of_job? hjob
    split
    · exact handles_cancel h hjob turn
    · have hadvance := handles_advance h hjob backend turn
      dsimp only
      split
      · rename_i last _ hlast
        have hid := id_of_job? hlast
        rw [← hid] at hlast hadvance ⊢
        exact hadvance.trans (handles_cancel hadvance.line hlast turn)
      · exact hadvance

/-! ## Passes and actions -/

/-- `n` has the jobs of `m`, as far as they have come, and perhaps new ones after them. -/
structure Hires (m n : Runner) : Prop where
  permits : n.permits = m.permits
  waiters : n.waiters = m.waiters
  jobs : ∃ new, n.jobs = m.jobs ++ new ∧ ∀ j ∈ new, j.phase = .spawned

theorem hires_of_eq (hjobs : n.jobs = m.jobs) (hpermits : n.permits = m.permits)
    (hwaiters : n.waiters = m.waiters) : Hires m n :=
  ⟨hpermits, hwaiters, [], by rw [hjobs, List.append_nil], by simp⟩

theorem Hires.trans {l : Runner} (hlm : Hires l m) (hmn : Hires m n) : Hires l n where
  permits := hmn.permits.trans hlm.permits
  waiters := hmn.waiters.trans hlm.waiters
  jobs := by
    obtain ⟨first, hfirst, hspawned⟩ := hlm.jobs
    obtain ⟨second, hsecond, hspawned'⟩ := hmn.jobs
    refine ⟨first ++ second, ?_, List.forall_mem_append.2 ⟨hspawned, hspawned'⟩⟩
    rw [hsecond, hfirst, List.append_assoc]

theorem hires_schedule (m : Runner) (task : Task) : Hires m (m.schedule task) := by
  obtain ⟨ready, heq⟩ := schedule_eq m task
  rw [heq]
  exact hires_of_eq rfl rfl rfl

theorem hires_notify (m : Runner) : Hires m m.notify := by
  obtain ⟨ready, wakeup, dispatcher, heq⟩ := notify_eq m
  rw [heq]
  exact hires_of_eq rfl rfl rfl

theorem hires_passOver (m : Runner) (turn : Turn) : Hires m (m.passOver turn).1 := by
  obtain ⟨running, ready, heq, -⟩ := passOver_eq m turn
  rw [heq]
  exact ⟨rfl, rfl, _, rfl, fun _ => phase_of_mem_newJobs⟩

theorem hires_dispatch (m : Runner) (turn : Turn) : Hires m (m.dispatch turn).1 := by
  unfold dispatch
  split
  · exact hires_of_eq rfl rfl rfl
  · exact hires_passOver m turn

theorem hires_finishProcess (m : Runner) (turn : Turn) : Hires m (m.finishProcess turn).1 := by
  unfold finishProcess
  split
  · have hbegun : Hires m { m with begun := m.begun - 1 } := hires_of_eq rfl rfl rfl
    exact hbegun.trans (hires_passOver _ turn)
  · exact hires_of_eq rfl rfl rfl

theorem hires_dispatchRemembered (m : Runner) (turn : Turn) :
    Hires m (m.dispatchRemembered turn).1 := by
  unfold dispatchRemembered
  split
  · have hwakeup : Hires m { m with wakeup := false } := hires_of_eq rfl rfl rfl
    exact hwakeup.trans (hires_dispatch _ turn)
  · exact hires_of_eq rfl rfl rfl

theorem hires_dispatcherRound (m : Runner) (turn : Turn) :
    Hires m (m.dispatcherRound turn).1 := by
  unfold dispatcherRound
  split
  · exact hires_of_eq rfl rfl rfl
  · exact (hires_dispatchRemembered m turn).trans (hires_of_eq rfl rfl rfl)

theorem hires_dispatcherTurn (m : Runner) (turn : Turn) :
    Hires m (m.dispatcherTurn turn).1 := by
  unfold dispatcherTurn
  split
  · exact hires_dispatcherRound m turn
  · exact (hires_dispatch m turn).trans (hires_dispatcherRound _ turn)
  all_goals exact hires_of_eq rfl rfl rfl

theorem hires_startDispatcher (m : Runner) : Hires m m.startDispatcher := by
  unfold startDispatcher
  split
  · have hstart : Hires m { m with dispatcher := .starting } := hires_of_eq rfl rfl rfl
    exact (hstart.trans (hires_schedule _ _)).trans (hires_notify _)
  · exact hires_of_eq rfl rfl rfl

theorem hires_shutDown (m : Runner) : Hires m m.shutDown := by
  unfold shutDown
  split
  · exact hires_of_eq rfl rfl rfl
  · refine List.foldlRecOn (motive := Hires m) _ _ ?_ fun n hn j _ => hn.trans (hires_schedule n _)
    exact hires_of_eq rfl rfl rfl

theorem Hires.job? (h : Hires m n) {id : Nat} {job : Job} (hjob : m.job? id = some job) :
    n.job? id = some job := by
  obtain ⟨new, hjobs, -⟩ := h.jobs
  rw [Runner.job?, hjobs, List.find?_append]
  rw [Runner.job?] at hjob
  rw [hjob, Option.some_or]

theorem Hires.accounted (h : Hires m n) : n.accounted = m.accounted := by
  obtain ⟨new, hjobs, hspawned⟩ := h.jobs
  have hnone : new.countP (fun j => j.phase.holdsPermit) = 0 :=
    List.countP_eq_zero.2 fun j hj => by simp [hspawned j hj, Phase.holdsPermit]
  rw [Runner.accounted, holders, hjobs, List.countP_append, hnone, h.permits, Nat.add_zero]
  rfl

theorem Hires.line (h : Hires m n) (hline : m.InLine) (hids : (n.jobs.map Job.id).Nodup) :
    n.InLine where
  ids := hids
  nodup := h.waiters ▸ hline.nodup
  waits id hid := by
    obtain ⟨job, hjob, hphase⟩ := Option.map_eq_some_iff.1 (hline.waits id (h.waiters ▸ hid))
    rw [phase?_of_job? (h.job? hjob), hphase]

theorem job?_of_mem (hids : (m.jobs.map Job.id).Nodup) {job : Job} (hjob : job ∈ m.jobs) :
    m.job? job.id = some job := by
  obtain ⟨found, hfound⟩ : ∃ found, m.job? job.id = some found := by
    rw [← Option.isSome_iff_exists, Runner.job?, List.find?_isSome]
    exact ⟨job, hjob, decide_eq_true rfl⟩
  rw [hfound, List.inj_on_of_nodup_map hids (List.mem_of_find?_eq_some hfound) hjob
    (id_of_job? hfound)]

theorem mem_jobs_of_executing? {key : DocumentKey} {job : Job}
    (h : m.executing? key = some job) :
    job ∈ m.jobs ∧ job.phase = .executing ∧ job.request.key.Same key := by
  have hfound := List.find?_some h
  rw [Bool.and_eq_true, decide_eq_true_eq, decide_eq_true_eq] at hfound
  exact ⟨List.mem_of_find?_eq_some h, hfound⟩

theorem handles_answer (h : m.InLine) {key : DocumentKey} {job : Job}
    (hjob : m.executing? key = some job) (ending : Ending) :
    Handles job.id 0 0 m (m.answer job ending) := by
  obtain ⟨hjobs, hphase, -⟩ := mem_jobs_of_executing? hjob
  have hanswered := handles_setPhase h (job?_of_mem h.ids hjobs) (by simp [hphase])
    (.answered ending)
  refine (hanswered.schedule (.job job.id)).settle ?_
  rw [hphase]
  rfl

/-! ## Moves and runs -/

/-- No permit is missing of a runner that has so many. -/
structure Balanced (count : Nat) (m : Runner) : Prop where
  line : m.InLine
  accounted : m.accounted = count

/-- A move is the turn of a job, ends the call of one, or concerns no job that was there. -/
theorem handles_or_hires_move (h : m.InLine) (backend : Backend) (move : Move) :
    (∃ id turn, move = .turn (.job id) turn ∧ Handles id 0 0 m (m.move backend move).1) ∨
      (∃ key ending job, move = .act (.answer key ending) ∧ m.executing? key = some job ∧
        Handles job.id 0 0 m (m.move backend move).1) ∨
      Hires m (m.move backend move).1 := by
  cases move with
  | act a =>
    cases a with
    | command c | dropReceiver => exact .inr (.inr (hires_of_eq rfl rfl rfl))
    | add request | enqueue kind key =>
      have hqueued (q : Queue) : Hires m { m with queue := q } := hires_of_eq rfl rfl rfl
      exact .inr (.inr ((hqueued _).trans (hires_notify _)))
    | process turn => exact .inr (.inr (hires_dispatch m turn))
    | beginProcess =>
      simp only [Runner.move, act, beginProcess]
      split <;> exact .inr (.inr (hires_of_eq rfl rfl rfl))
    | finishProcess turn => exact .inr (.inr (hires_finishProcess m turn))
    | answer key ending =>
      simp only [Runner.move, act]
      split
      · exact .inr (.inr (hires_of_eq rfl rfl rfl))
      · rename_i job hjob
        exact .inr (.inl ⟨key, ending, job, rfl, hjob, handles_answer h hjob _⟩)
    | startDispatcher => exact .inr (.inr (hires_startDispatcher m))
    | shutDown => exact .inr (.inr (hires_shutDown m))
  | turn task turn =>
    have hready : Hires m { m with ready := m.ready.erase task } := hires_of_eq rfl rfl rfl
    simp only [Runner.move, taskTurn]
    split
    · cases task with
      | job id =>
        have hline : InLine { m with ready := m.ready.erase (.job id) } := h.of_eq rfl rfl
        have hturn := handles_jobTurn hline backend id turn
        exact .inl ⟨id, turn, rfl, hturn.line, hturn.accounted, hturn.others⟩
      | dispatcher => exact .inr (.inr (hready.trans (hires_dispatcherTurn _ turn)))
    · exact .inr (.inr (hires_of_eq rfl rfl rfl))

theorem Balanced.move {count : Nat} (h : m.Balanced count) {crashes : Prop} {move : Move}
    (hexclusive : (m.move backend move).1.Exclusive crashes) :
    (m.move backend move).1.Balanced count := by
  rcases handles_or_hires_move h.line backend move with
    ⟨id, -, -, hhandles⟩ | ⟨-, -, job, -, -, hhandles⟩ | hhires
  · exact ⟨hhandles.line, hhandles.accounted.trans h.accounted⟩
  · exact ⟨hhandles.line, hhandles.accounted.trans h.accounted⟩
  · exact ⟨hhires.line h.line hexclusive.nodup_ids, hhires.accounted.trans h.accounted⟩

theorem Balanced.run {count : Nat} (h : m.Balanced count) (hexclusive : m.Exclusive True)
    (moves : List Move) : (m.run backend moves).1.Balanced count := by
  induction moves generalizing m with
  | nil => exact h
  | cons move rest ih =>
    have hnext := (step_any m backend move).exclusive hexclusive
    exact ih (h.move hnext) hnext

theorem balanced_of_create? {settings : Settings} {registry : Registry}
    (hm : create? settings registry = some m) : m.Balanced (permitsFor settings) := by
  unfold create? at hm
  split at hm
  · cases hm
    exact ⟨⟨List.nodup_nil, List.nodup_nil, by simp⟩, rfl⟩
  · cases hm

theorem callers_lt_of_calls (hids : (m.jobs.map Job.id).Nodup) {job : Job} (hjob : job ∈ m.jobs)
    (h : m.Calls job) : m.callers < m.accounted := by
  rcases h with hphase | ⟨-, hpermit⟩
  · have hothers := callers_le_holders (m.forget job.id)
    have hcallers : m.callers = (m.forget job.id).callers := by
      rw [callers, (perm_cons_forget hids hjob).countP_eq, List.countP_cons, hphase]
      rfl
    have hholders := holders_forget hids hjob
    rw [hphase, Phase.permits, Phase.holdsPermit, if_pos rfl] at hholders
    rw [accounted]
    omega
  · have hholders := callers_le_holders m
    rw [accounted]
    omega

/-- Free and held permits are together as many as were asked for, but at least one, and no more
calls go on.  A call begins only where fewer go on. -/
theorem permits_conserved {settings : Settings} {registry : Registry}
    (hm : create? settings registry = some m) (backend : Backend) (moves : List Move) :
    let last := (m.run backend moves).1
    let cap := max 1 settings.maxConcurrent
    last.permits + last.holders = cap ∧ last.callers ≤ cap ∧
      ∀ move request, Event.began request ∈ (last.move backend move).2 → last.callers < cap := by
  intro last cap
  have hbalanced : last.Balanced (permitsFor settings) :=
    (balanced_of_create? hm).run (exclusive_of_isNew (isNew_of_create? hm)) moves
  have hcap : last.accounted = cap := hbalanced.accounted.trans (Nat.max_comm _ _)
  refine ⟨hcap, ?_, fun move request hbegan => ?_⟩
  · rw [← hcap]
    exact Nat.le_trans last.callers_le_holders (Nat.le_add_left _ _)
  · obtain ⟨job, turn, -, hjob, -, hcalls⟩ := began_move hbegan
    rw [← hcap]
    exact callers_lt_of_calls hbalanced.line.ids (List.mem_of_find?_eq_some hjob) hcalls

/-- The premise holds for a runner with one permit, which a job has while its call goes on. -/
theorem permits_conserved_call_going_on :
    let key : DocumentKey := ⟨⟨""⟩, ""⟩
    let turn : Turn := ⟨.zero, false⟩
    let backend : Backend := fun _ => none
    let moves : List Move :=
      [.act (.enqueue .completeCode key), .act (.process turn), .turn (.job 0) turn]
    let registry := Registry.new.run [.putProject "" [], .openDocument key]
    ∃ m, create? (.default 1) registry = some m ∧
      (m.run backend moves).1.permits = 0 ∧ (m.run backend moves).1.holders = 1 := by
  intro key turn backend moves registry
  obtain ⟨m, hm, hfree⟩ : ∃ m, create? (.default 1) registry = some m ∧
      (m.run backend moves).1.permits = 0 := ⟨_, rfl, by decide +kernel⟩
  have hcap := (permits_conserved hm backend moves).1
  rw [hfree, Nat.zero_add] at hcap
  exact ⟨m, hm, hfree, hcap⟩

end Runner

end AnalysisJobs
