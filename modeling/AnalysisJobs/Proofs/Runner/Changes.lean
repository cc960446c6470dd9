import AnalysisJobs.Proofs.Runner.History
/-!
# What becomes of those who have something to do

A turn of a job, a pass and most of what a caller does are made of a few small changes, and
none of these takes away what somebody has to do: whoever gets something to do is put on the
list of ready tasks in the same change.  `Changes` is the closure of the small changes.  What
a relation between two states says of the dispatcher or of the jobs is proved for each of
them, and holds of all that is made of them.
-/

namespace AnalysisJobs

/-- Whether a job in this phase goes on as soon as it has a turn. -/
def Phase.canGoOn : Phase → Bool
  | spawned | granted | answered _ => true
  | waiting | executing => false

/-- The action has to do neither with the dispatcher nor with passes that wait. -/
def Action.IsPlain : Action → Prop
  | .startDispatcher | .shutDown | .beginProcess | .finishProcess _ => False
  | _ => True

def Event.IsPass : Event → Prop
  | .passed .. => True
  | _ => False

namespace Runner

variable {m n : Runner}

/-- `n` comes from `m` by small changes after which everybody who has something to do is
ready to do it. -/
inductive Changes : Runner → Runner → Prop
  | trans {l m n : Runner} (hlm : Changes l m) (hmn : Changes m n) : Changes l n
  /-- Jobs may be taken off; whoever has a turn next or waits for the registry is not
  concerned. -/
  | aside {m n : Runner} (hready : n.ready = m.ready) (hwakeup : n.wakeup = m.wakeup)
      (hdispatcher : n.dispatcher = m.dispatcher) (hjobs : n.jobs ⊆ m.jobs)
      (hbegun : n.begun = m.begun) : Changes m n
  | schedule (m : Runner) (task : Task) : Changes m (m.schedule task)
  | notify (m : Runner) : Changes m m.notify
  | rest (m : Runner) (id : Nat) {phase : Phase} (hphase : phase.canGoOn = false) :
      Changes m (m.setPhase id phase)
  | rouse (m : Runner) (id : Nat) (phase : Phase) :
      Changes m ((m.setPhase id phase).schedule (.job id))
  | spawn (m : Runner) (request : Request) : Changes m (m.spawn request)

theorem Changes.refl (m : Runner) : Changes m m := .aside rfl rfl rfl (List.Subset.refl _) rfl

theorem Changes.begun (h : Changes m n) : n.begun = m.begun := by
  induction h with
  | trans _ _ ihlm ihmn => exact ihmn.trans ihlm
  | aside _ _ _ _ hbegun => exact hbegun
  | schedule m task =>
    obtain ⟨ready, h⟩ := schedule_eq m task
    rw [h]
  | notify m =>
    obtain ⟨ready, wakeup, dispatcher, h⟩ := notify_eq m
    rw [h]
  | rest => rfl
  | rouse m id phase =>
    obtain ⟨ready, h⟩ := schedule_eq (m.setPhase id phase) (.job id)
    rw [h]
    rfl
  | spawn m request =>
    obtain ⟨ready, h⟩ := schedule_eq { m with
      jobs := m.jobs ++ [⟨m.spawned, request, .spawned⟩]
      spawned := m.spawned + 1 } (.job m.spawned)
    rw [Runner.spawn, h]

theorem changes_releasePermit (m : Runner) : Changes m m.releasePermit := by
  unfold releasePermit
  split
  · exact .aside rfl rfl rfl (List.Subset.refl _) rfl
  · rename_i id rest _
    have hrest : Changes m { m with waiters := rest } := .aside rfl rfl rfl (List.Subset.refl _) rfl
    exact hrest.trans (.rouse _ id .granted)

theorem changes_enterRunning (m : Runner) (key : DocumentKey) :
    Changes m (m.enterRunning key) := by
  unfold enterRunning
  split
  · exact .refl m
  · exact .aside rfl rfl rfl (List.Subset.refl _) rfl

theorem changes_passOver (m : Runner) (turn : Turn) : Changes m (m.passOver turn).1 := by
  have hqueue (q : Queue) : Changes m { m with queue := q } :=
    .aside rfl rfl rfl (List.Subset.refl _) rfl
  refine List.foldlRecOn (motive := Changes m) _ _ ?_ fun n hn r _ => hn.trans (.spawn n r)
  exact List.foldlRecOn (motive := Changes m) _ _ (hqueue _)
    fun n hn r _ => hn.trans (changes_enterRunning n r.key)

theorem changes_dispatch (m : Runner) (turn : Turn) : Changes m (m.dispatch turn).1 := by
  unfold dispatch
  split
  · exact .refl m
  · exact changes_passOver m turn

/-! ## Turns of jobs -/

/-- `n` comes from `m` by small changes that are not told as a pass over the queue. -/
structure Works (m : Runner) (events : List Event) (n : Runner) : Prop where
  changes : Changes m n
  noPass : ∀ e ∈ events, ¬ e.IsPass

theorem Changes.works (h : Changes m n) : Works m [] n := ⟨h, by simp⟩

theorem Works.trans {l : Runner} {before after : List Event} (hlm : Works l before m)
    (hmn : Works m after n) : Works l (before ++ after) n :=
  ⟨hlm.changes.trans hmn.changes, List.forall_mem_append.2 ⟨hlm.noPass, hmn.noPass⟩⟩

theorem noPass_learn (registry : Registry) (request : Request) (result : Result) :
    ∀ e ∈ (learn registry request result).2, ¬ e.IsPass := by
  unfold learn
  split
  · simp
  · split <;> simp [Event.IsPass]

theorem changes_forget (m : Runner) (id : Nat) : Changes m (m.forget id) :=
  .aside rfl rfl rfl List.filter_sublist.subset rfl

theorem works_conclude (m : Runner) (job : Job) (turn : Turn) (result : Result) :
    Works m (m.conclude job turn result).2 (m.conclude job turn result).1 := by
  constructor
  · have hended (registry : Registry) (finished : List (Kind × Duration)) : Changes m
        (leaveRunning { m with registry := registry, finished := finished } job.request.key) :=
      .aside rfl rfl rfl (List.Subset.refl _) rfl
    exact ((hended _ _).trans (changes_forget _ job.id)).trans (.notify _)
  · rw [events_conclude, List.cons_append, List.forall_mem_cons, List.forall_mem_append]
    refine ⟨not_false, noPass_learn _ _ _, ?_⟩
    split <;> simp [Event.IsPass]

theorem works_endCall (m : Runner) (job : Job) (turn : Turn) (ending : Ending) :
    Works m (m.endCall job turn ending).2 (m.endCall job turn ending).1 := by
  have hpermit := changes_releasePermit m
  cases ending with
  | crashed => exact (hpermit.trans (changes_forget _ job.id)).works
  | returned result => exact hpermit.works.trans (works_conclude _ job turn result)

theorem works_cancel (m : Runner) (job : Job) (turn : Turn) :
    Works m (m.cancel job turn).2 (m.cancel job turn).1 := by
  have hfreed : Changes m (if job.phase.holdsPermit then m.releasePermit
      else { m with waiters := m.waiters.filter (· ≠ job.id) }) := by
    split
    · exact changes_releasePermit m
    · exact .aside rfl rfl rfl (List.Subset.refl _) rfl
  exact hfreed.works.trans (works_conclude _ job turn (.failed .cancelled))

theorem works_call (m : Runner) (backend : Backend) (job : Job) (turn : Turn) :
    Works m (m.call backend job turn).2 (m.call backend job turn).1 := by
  have hbegan : ∀ e ∈ [Event.began job.request], ¬ e.IsPass := by simp [Event.IsPass]
  unfold call
  split
  · exact ⟨.rest m job.id rfl, hbegan⟩
  · exact Works.trans ⟨.refl m, hbegan⟩ (works_endCall m job turn _)

theorem works_advance (m : Runner) (backend : Backend) (job : Job) (turn : Turn) :
    Works m (m.advance backend job turn).2 (m.advance backend job turn).1 := by
  unfold advance
  split
  · split
    · have hpermit : Changes m { m with permits := m.permits - 1 } :=
        .aside rfl rfl rfl (List.Subset.refl _) rfl
      exact hpermit.works.trans (works_call _ backend job turn)
    · have hwaits : Changes m { m with waiters := m.waiters ++ [job.id] } :=
        .aside rfl rfl rfl (List.Subset.refl _) rfl
      exact (hwaits.trans (.rest _ job.id rfl)).works
  · exact works_call m backend job turn
  · exact works_endCall m job turn _
  · exact (Changes.refl m).works
  · exact (Changes.refl m).works

theorem works_jobTurn (m : Runner) (backend : Backend) (id : Nat) (turn : Turn) :
    Works m (m.jobTurn backend id turn).2 (m.jobTurn backend id turn).1 := by
  unfold jobTurn
  split
  · exact (Changes.refl m).works
  · rename_i job _
    split
    · exact works_cancel m job turn
    · have hadvance := works_advance m backend job turn
      dsimp only
      split
      · exact hadvance.trans (works_cancel _ _ turn)
      · exact hadvance

/-! ## Actions -/

theorem changes_act (m : Runner) {a : Action} (h : a.IsPlain) : Changes m (m.act a).1 := by
  cases a with
  | command c => exact .aside rfl rfl rfl (List.Subset.refl _) rfl
  | add request | enqueue kind key =>
    have hqueued (q : Queue) : Changes m { m with queue := q } :=
      .aside rfl rfl rfl (List.Subset.refl _) rfl
    exact (hqueued _).trans (.notify _)
  | process turn => exact changes_dispatch m turn
  | answer key ending =>
    simp only [act]
    split
    · exact .refl m
    · rename_i job _
      exact .rouse m job.id (.answered (ending job.request))
  | startDispatcher | shutDown | beginProcess | finishProcess => exact h.elim
  | dropReceiver => exact .aside rfl rfl rfl (List.Subset.refl _) rfl

end Runner

end AnalysisJobs
