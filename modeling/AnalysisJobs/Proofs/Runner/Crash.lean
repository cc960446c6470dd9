import AnalysisJobs.Proofs.Runner.Passes
import AnalysisJobs.Proofs.Runner.Prompt
import Mathlib.Data.List.Induction
/-!
# Jobs that crash

A job whose backend crashed gives its permit back and is gone.  Nothing takes its document out
of the table and nobody hears of it, so that no later request for the document is started.
`crash?` says of a move which job crashes in it, and every other move is a step that
accounts for its requests.  The table is then told exactly by `Holds`: it has the documents of
the jobs in flight and of those that crashed, each once.
-/

namespace AnalysisJobs.Runner

variable {m n : Runner} {backend : Backend}

/-! ## The move in which a job crashes -/

/-- The job that takes its turn in a move to learn that its call crashed. -/
def crash? (m : Runner) (backend : Backend) : Move → Option (Nat × Request)
  | .turn (.job id) turn =>
    if .job id ∈ m.ready ∧ ¬ (m.isShutDown && turn.cancelFirst) = true then
      (m.job? id).bind fun job =>
        if m.callEnding? backend job = some .crashed then some (job.id, job.request) else none
    else none
  | _ => none

theorem crash?_eq_some_iff {id : Nat} {turn : Turn} {e : Nat × Request} :
    m.crash? backend (.turn (.job id) turn) = some e ↔
      .job id ∈ m.ready ∧ ¬ (m.isShutDown && turn.cancelFirst) = true ∧
        ∃ job, m.job? id = some job ∧ m.callEnding? backend job = some .crashed ∧
          (job.id, job.request) = e := by
  simp [crash?, Option.bind_eq_some_iff, and_assoc]

def crashed (m : Runner) (backend : Backend) : List Move → List Request
  | [] => []
  | move :: rest =>
    ((m.crash? backend move).map Prod.snd).toList ++ (m.move backend move).1.crashed backend rest

theorem crashed_concat (m : Runner) (backend : Backend) (moves : List Move) (move : Move) :
    m.crashed backend (moves ++ [move]) = m.crashed backend moves ++
      (((m.run backend moves).1.crash? backend move).map Prod.snd).toList := by
  induction moves generalizing m with
  | nil => exact List.append_nil _
  | cons first rest ih =>
    rw [List.cons_append, crashed, crashed, ih, run_cons, List.append_assoc]

theorem call_of_crash {job : Job} (h : backend job.request = some .crashed) (turn : Turn) :
    m.call backend job turn = (m.releasePermit.forget job.id, [.began job.request]) := by
  rw [call, h]
  rfl

/-- A job that crashes goes without a trace, but for its permit. -/
theorem advance_of_crash {job : Job} (h : m.callEnding? backend job = some .crashed)
    (turn : Turn) : ∃ l events, SameWork True m l ∧ (∀ e ∈ events, e.Quiet) ∧
      m.advance backend job turn = (l.forget job.id, events) := by
  have hbegan : ∀ e ∈ [Event.began job.request], e.Quiet := by simp [Event.Quiet]
  rw [callEnding?] at h
  rw [advance]
  cases hphase : job.phase with
  | spawned =>
    simp only [hphase] at h
    by_cases hpermits : 0 < m.permits
    · rw [if_pos hpermits] at h
      have hpermit : SameWork True m { m with permits := m.permits - 1 } :=
        sameWork_scheduling m _ _ _ _ _
      exact ⟨_, _, hpermit.trans (sameWork_releasePermit _), hbegan,
        (if_pos hpermits).trans (call_of_crash h turn)⟩
    · rw [if_neg hpermits] at h
      cases h
  | granted =>
    simp only [hphase] at h
    exact ⟨_, _, sameWork_releasePermit m, hbegan, call_of_crash h turn⟩
  | answered ending =>
    simp only [hphase, Option.some.injEq] at h
    rw [h]
    exact ⟨_, _, sameWork_releasePermit m, by simp, rfl⟩
  | waiting | executing => simp [hphase] at h

theorem jobTurn_of_crash {id : Nat} {job : Job} (hjob : m.job? id = some job) {turn : Turn}
    (hfirst : ¬ (m.isShutDown && turn.cancelFirst) = true)
    (h : m.callEnding? backend job = some .crashed) :
    ∃ l events, SameWork True m l ∧ (∀ e ∈ events, e.Quiet) ∧
      m.jobTurn backend id turn = (l.forget job.id, events) := by
  obtain ⟨l, events, hsame, hquiet, hadvance⟩ := advance_of_crash h turn
  refine ⟨l, events, hsame, hquiet, ?_⟩
  -- a shutdown finds no job to cancel after the crash
  have hgone : (l.forget job.id).job? id = none := by
    rw [← id_of_job? hjob]
    exact job?_forget l job.id
  rw [jobTurn, hjob]
  simp only [hfirst, hadvance, hgone, Bool.false_eq_true, if_false]
  cases (l.forget job.id).isShutDown <;> rfl

/-- What a move comes to, told by the job that crashes in it. -/
inductive CrashStep (m : Runner) :
    Move → Option (Nat × Request) → List Event → Runner → Prop
  | crash {move : Move} {l : Runner} {e : Nat × Request} {events : List Event}
      (hmem : e ∈ m.roster) (hsame : SameWork True m l) (hquiet : ∀ e ∈ events, e.Quiet) :
      CrashStep m move (some e) events (l.forget e.1)
  | job {n : Runner} {events : List Event} (id : Nat) (turn : Turn)
      (hjob : JobStep False m id events n) :
      CrashStep m (.turn (.job id) turn) none events n
  | other {move : Move} {n : Runner} {events : List Event} (hstep : Step True m move events n)
      (hmove : ∀ id turn, move ≠ .turn (.job id) turn) : CrashStep m move none events n

theorem crashStep_turn (m : Runner) (backend : Backend) (id : Nat) (turn : Turn) :
    CrashStep m (.turn (.job id) turn) (m.crash? backend (.turn (.job id) turn))
      (m.taskTurn backend (.job id) turn).2 (m.taskTurn backend (.job id) turn).1 := by
  have herased {mayCrash : Prop} :
      SameWork mayCrash m { m with ready := m.ready.erase (.job id) } :=
    sameWork_scheduling m _ _ _ _ _
  unfold taskTurn
  split
  · rename_i hready
    cases hcrash : m.crash? backend (.turn (.job id) turn) with
    | none =>
      refine .job id turn (JobStep.prepend [] herased (by simp) (jobStep_jobTurn ?_))
      intro job hjob hfirst hcalled
      have hsome := crash?_eq_some_iff.2 ⟨hready, hfirst, job, hjob, hcalled, rfl⟩
      rw [hcrash] at hsome
      cases hsome
    | some e =>
      obtain ⟨-, hfirst, job, hjob, hcalled, rfl⟩ := crash?_eq_some_iff.1 hcrash
      obtain ⟨l, events, hsame, hquiet, hturn⟩ := jobTurn_of_crash
        (m := { m with ready := m.ready.erase (.job id) }) hjob hfirst hcalled
      dsimp only
      rw [hturn]
      exact .crash (e := (job.id, job.request)) (mem_roster_of_job? hjob)
        (herased.trans hsame) hquiet
  · rename_i hnot
    rw [crash?, if_neg fun h => hnot h.1]
    exact .job id turn (.goesOn (.refl m) (by simp))

theorem crashStep_move (m : Runner) (backend : Backend) (move : Move) :
    CrashStep m move (m.crash? backend move) (m.move backend move).2 (m.move backend move).1 := by
  cases move with
  | act a => exact .other (step_any m backend (.act a)) (by simp)
  | turn task turn =>
    cases task with
    | job id => exact crashStep_turn m backend id turn
    | dispatcher => exact .other (step_any m backend (.turn .dispatcher turn)) (by simp)

/-! ## What becomes of the requests -/

/-- Every request that was started has an outcome, is one of `gone` or is in flight, and whoever
receives outcomes got them all. -/
structure Ledger (gone : List Request) (events : List Event) (m : Runner) : Prop where
  started : (events.filterMap Event.started?).Perm
    ((events.filterMap Event.outcome?).map Prod.fst ++ gone ++ m.inFlight)
  heard : m.hasReceiver = true →
    events.filterMap Event.published? = events.filterMap Event.outcome?

variable {gone held : List Request}

theorem Ledger.append {asked : List Request} {before after : List Event}
    (h : m.Ledger gone before) (hflow : Flow m asked after n) :
    n.Ledger gone (before ++ after) where
  started := by
    have houtcomes : (after.filterMap Event.outcome?).map Prod.fst =
        (after.filterMap Event.ended?).map fun e => e.1 := by
      rw [hflow.announced, List.map_map]
      rfl
    rw [List.perm_iff_count]
    intro r
    have h₁ := h.started.count_eq r
    have h₂ := hflow.carried.count_eq r
    simp only [List.filterMap_append, List.map_append, List.count_append, houtcomes] at h₁ h₂ ⊢
    omega
  heard := by
    intro hn
    obtain ⟨hm, hafter⟩ := hflow.heard hn
    rw [List.filterMap_append, h.heard hm, hafter, List.filterMap_append]

theorem Ledger.crash {l : Runner} {e : Nat × Request} {before after : List Event}
    (h : m.Ledger gone before) (hsame : SameWork True m l) (hquiet : ∀ e ∈ after, e.Quiet)
    (hperm : m.inFlight.Perm (e.2 :: (l.forget e.1).inFlight)) :
    (l.forget e.1).Ledger (gone ++ [e.2]) (before ++ after) where
  started := by
    rw [List.filterMap_append, filterMap_quiet seesFates_started hquiet, List.append_nil,
      List.filterMap_append, filterMap_quiet seesFates_outcome hquiet, List.append_nil,
      ← List.append_assoc, List.append_assoc]
    exact h.started.trans (hperm.append_left _)
  heard := by
    intro hn
    have hm : m.hasReceiver = true := hsame.hasReceiver ▸ hn
    rw [List.filterMap_append, filterMap_quiet seesFates_published hquiet, List.append_nil,
      h.heard hm, List.filterMap_append, filterMap_quiet seesFates_outcome hquiet,
      List.append_nil]

theorem Exclusive.perm_inFlight_forget {l : Runner} {e : Nat × Request}
    (h : m.Exclusive True) (hmem : e ∈ m.roster) (hsame : SameWork True m l) :
    m.inFlight.Perm (e.2 :: (l.forget e.1).inFlight) := by
  refine h.perm_inFlight hmem ?_
  rw [roster_forget, hsame.roster]

theorem CrashStep.ledger {move : Move} {crash : Option (Nat × Request)}
    {before events : List Event} (hstep : CrashStep m move crash events n)
    (hexclusive : m.Exclusive True) (h : m.Ledger gone before) :
    n.Ledger (gone ++ (crash.map Prod.snd).toList) (before ++ events) := by
  cases hstep with
  | crash hmem hsame hquiet =>
    exact h.crash hsame hquiet (hexclusive.perm_inFlight_forget hmem hsame)
  | job id turn hjob =>
    rw [Option.map_none, Option.toList_none, List.append_nil]
    exact h.append (hjob.flow hexclusive)
  | other hstep hmove =>
    rw [Option.map_none, Option.toList_none, List.append_nil]
    rcases hstep.flow_or_job with hflow | ⟨id, turn, rfl, -⟩
    · exact h.append hflow
    · exact absurd rfl (hmove id turn)

/-! ## The table of running documents -/

/-- The table has the documents of `held`, which are all different. -/
structure Holds (held : List Request) (m : Runner) : Prop where
  pairwise : held.Pairwise fun r s => ¬ r.key.Same s.key
  isRunning_iff : ∀ key, m.isRunning key = true ↔ ∃ r ∈ held, r.key.Same key

theorem Holds.perm {held' : List Request} (h : m.Holds held) (hperm : held.Perm held') :
    m.Holds held' where
  pairwise := hperm.pairwise h.pairwise fun hne hsame => hne hsame.symm
  isRunning_iff := by
    intro key
    rw [h.isRunning_iff]
    simp only [hperm.mem_iff]

theorem Holds.of_running_eq (h : m.Holds held) (hrunning : n.running = m.running) :
    n.Holds held where
  pairwise := h.pairwise
  isRunning_iff := by
    intro key
    rw [isRunning_of_running_eq hrunning]
    exact h.isRunning_iff key

theorem Holds.passOver (h : m.Holds held) (turn : Turn) :
    (m.passOver turn).1.Holds (held ++ m.nextPass.batch) where
  pairwise := by
    refine List.pairwise_append.2 ⟨h.pairwise, Queue.pairwise_batch m.queue _ _, ?_⟩
    intro r hr s hs hsame
    -- the pass asked the table before it took `s`
    have hfree : m.isRunning s.key = false := Queue.not_running_of_mem_batch hs
    rw [(h.isRunning_iff s.key).2 ⟨r, hr, hsame⟩] at hfree
    cases hfree
  isRunning_iff := by
    intro key
    rw [isRunning_passOver, Bool.or_eq_true, h.isRunning_iff, List.any_eq_true]
    simp only [List.mem_append, or_and_right, exists_or, decide_eq_true_eq]

theorem Holds.conclude {job : Job} (h : m.Holds (job.request :: held)) (turn : Turn)
    (result : Result) : (m.conclude job turn result).1.Holds held where
  pairwise := (List.pairwise_cons.1 h.pairwise).2
  isRunning_iff := by
    intro key
    rw [isRunning_conclude, h.isRunning_iff]
    -- the document that is freed is that of `job` alone, because those of `held` are others
    constructor
    · rintro ⟨⟨r, hr, hsame⟩, hother⟩
      rcases List.mem_cons.1 hr with rfl | hr
      · exact absurd hsame.symm hother
      · exact ⟨r, hr, hsame⟩
    · rintro ⟨r, hr, hsame⟩
      refine ⟨⟨r, List.mem_cons_of_mem _ hr, hsame⟩, fun hkey => ?_⟩
      exact (List.pairwise_cons.1 h.pairwise).1 r hr (hsame.trans hkey).symm

theorem Passes.holds {crashes : Prop} {events : List Event} (hpasses : Passes crashes m events n)
    (h : m.Holds (gone ++ m.inFlight)) : n.Holds (gone ++ n.inFlight) := by
  induction hpasses with
  | none hsame =>
    rw [inFlight_eq_of_roster_eq hsame.roster]
    exact h.of_running_eq hsame.running
  | @pass m n last before after turn hsame _ _ ih =>
    apply ih
    rw [inFlight_passOver, ← List.append_assoc, inFlight_eq_of_roster_eq hsame.roster]
    exact (h.of_running_eq hsame.running).passOver turn

theorem JobStep.holds {id : Nat} {events : List Event} (hjob : JobStep False m id events n)
    (hexclusive : m.Exclusive True) (h : m.Holds (gone ++ m.inFlight)) :
    n.Holds (gone ++ n.inFlight) := by
  cases hjob with
  | goesOn hsame =>
    rw [inFlight_eq_of_roster_eq hsame.roster]
    exact h.of_running_eq hsame.running
  | @ends l job events turn result hsame _ _ hmem =>
    have hperm : m.inFlight.Perm (job.request :: (l.conclude job turn result).1.inFlight) := by
      refine hexclusive.perm_inFlight hmem ?_
      rw [roster_conclude, hsame.roster]
    have hheld : l.Holds (job.request :: (gone ++ (l.conclude job turn result).1.inFlight)) :=
      (h.of_running_eq hsame.running).perm ((hperm.append_left gone).trans List.perm_middle)
    exact hheld.conclude turn result
  | dies hcrash => exact hcrash.elim

theorem CrashStep.holds {move : Move} {crash : Option (Nat × Request)} {events : List Event}
    (hstep : CrashStep m move crash events n) (hexclusive : m.Exclusive True)
    (h : m.Holds (gone ++ m.inFlight)) :
    n.Holds (gone ++ (crash.map Prod.snd).toList ++ n.inFlight) := by
  cases hstep with
  | crash hmem hsame =>
    -- the request only moves from those in flight to those gone, and the table stays
    have hperm := hexclusive.perm_inFlight_forget hmem hsame
    rw [List.append_assoc]
    exact (h.perm (hperm.append_left gone)).of_running_eq hsame.running
  | job id turn hjob =>
    rw [Option.map_none, Option.toList_none, List.append_nil]
    exact hjob.holds hexclusive h
  | other hstep hmove =>
    rw [Option.map_none, Option.toList_none, List.append_nil]
    rcases hstep.passes_or_job_or_sameJobs with hpasses | ⟨id, turn, rfl, -⟩ | hsame
    · exact hpasses.holds h
    · exact absurd rfl (hmove id turn)
    · rw [inFlight_eq_of_roster_eq hsame.roster]
      exact h.of_running_eq hsame.running

/-! ## Runs -/

theorem crashed_run {settings : Settings} {registry : Registry}
    (hm : create? settings registry = some m) (backend : Backend) (moves : List Move) :
    (m.run backend moves).1.Ledger (m.crashed backend moves) (m.run backend moves).2 ∧
      (m.run backend moves).1.Holds
        (m.crashed backend moves ++ (m.run backend moves).1.inFlight) := by
  have hnew := isNew_of_create? hm
  have hidle : m.inFlight = [] := by rw [inFlight, hnew.jobs, List.map_nil]
  -- from the last move back, since who crashes in it depends on all the moves before
  induction moves using List.reverseRecOn with
  | nil =>
    refine ⟨⟨?_, fun _ => rfl⟩, ?_⟩
    · rw [run_nil, hidle]
      exact .refl []
    · rw [run_nil, hidle]
      refine ⟨.nil, fun key => ?_⟩
      simp [isRunning, hnew.running, crashed]
  | append_singleton before move ih =>
    have hexclusive : (m.run backend before).1.Exclusive True :=
      (exclusive_of_isNew hnew).run backend before
    have hstep := crashStep_move (m.run backend before).1 backend move
    rw [run_concat, crashed_concat]
    exact ⟨hstep.ledger hexclusive ih.1, hstep.holds hexclusive ih.2⟩

theorem Holds.requests_dispatch (h : m.Holds held) (turn : Turn) :
    ∀ s ∈ (m.dispatch turn).2.1, ∀ r ∈ held, ¬ r.key.Same s.key := by
  intro s hs r hr hsame
  cases hopen : m.isShutDown with
  | true =>
    rw [dispatch_of_isShutDown hopen] at hs
    cases hs
  | false =>
    rw [Runner.requests_dispatch hopen] at hs
    have hfree : m.isRunning s.key = false := Queue.not_running_of_mem_batch hs
    rw [(h.isRunning_iff s.key).2 ⟨r, hr, hsame⟩] at hfree
    cases hfree

theorem Holds.exists_dispatch (h : m.Holds held) (hopen : m.isShutDown = false) (turn : Turn)
    {r : Request} (heligible : m.Eligible r) (hfree : ∀ s ∈ held, ¬ s.key.Same r.key) :
    (∃ s ∈ (m.dispatch turn).2.1, s.key.Same r.key) ∨
      fillsBatch m.queue.settings.maxBatch (m.dispatch turn).2.1.length = true := by
  rcases heligible.exists_dispatch hopen turn with htaken | hrunning | hfull
  · exact .inl htaken
  · obtain ⟨s, hs, hsame⟩ := (h.isRunning_iff r.key).1 hrunning
    exact absurd hsame (hfree s hs)
  · exact .inr hfull

/-- Every request that was started has exactly one outcome, unless it is still in flight or its
call crashed, and where nothing can happen no call that ended is in flight any more.  The table
has the documents of those in flight and, for good, of those whose call crashed.  For every
other document the next pass with room takes a request if it can, and for these it takes none. -/
theorem held_until_outcome_unless_crashed {settings : Settings} {registry : Registry}
    (hm : create? settings registry = some m) (backend : Backend) (moves : List Move) :
    let events := (m.run backend moves).2
    let last := (m.run backend moves).1
    let held := m.crashed backend moves ++ last.inFlight
    (events.filterMap Event.started?).Perm
        ((events.filterMap Event.outcome?).map Prod.fst ++ held) ∧
      (last.hasReceiver = true →
        events.filterMap Event.published? = events.filterMap Event.outcome?) ∧
      (last.ready = [] → ∀ j ∈ last.jobs, j.phase = .waiting ∨ j.phase = .executing) ∧
      (∀ key, last.isRunning key = true ↔ ∃ r ∈ held, r.key.Same key) ∧
      (last.isShutDown = false → ∀ turn r, last.Eligible r →
        (∀ s ∈ held, ¬ s.key.Same r.key) →
          (∃ s ∈ (last.dispatch turn).2.1, s.key.Same r.key) ∨
            fillsBatch last.queue.settings.maxBatch (last.dispatch turn).2.1.length = true) ∧
      ∀ turn, ∀ s ∈ (last.dispatch turn).2.1, ∀ r ∈ held, ¬ r.key.Same s.key := by
  intro events last held
  obtain ⟨hledger, hholds⟩ := crashed_run hm backend moves
  refine ⟨?_, hledger.heard, waiting_or_executing_of_ready_eq_nil hm, hholds.isRunning_iff,
    fun hopen turn r heligible hfree => hholds.exists_dispatch hopen turn heligible hfree,
    fun turn => hholds.requests_dispatch turn⟩
  rw [← List.append_assoc]
  exact hledger.started

/-- The premise holds where the only job crashes, and then its document is in the table. -/
theorem held_until_outcome_unless_crashed_one_crash :
    let key : DocumentKey := ⟨⟨""⟩, ""⟩
    let turn : Turn := ⟨.zero, false⟩
    let backend : Backend := fun _ => some .crashed
    let moves : List Move :=
      [.act (.command (.putProject "" [])), .act (.command (.openDocument key)),
        .act (.enqueue .buildPreamble key), .act (.process turn), .turn (.job 0) turn]
    ∃ m, create? (.default 1) .new = some m ∧
      (m.crashed backend moves).map Request.key = [key] ∧
      (m.run backend moves).1.isRunning key = true := by
  intro key turn backend moves
  have hm : create? (.default 1) .new = some _ := rfl
  refine ⟨_, hm, by decide +kernel, ?_⟩
  rw [(held_until_outcome_unless_crashed hm backend moves).2.2.2.1 key]
  decide +kernel

/-- A backend crashes when it builds a preamble.  Nothing is ready after the crash and no job is
left, but the document stays in the table, nobody hears of the request, and a pass does not
take a fresh request to annotate the document, though there is room. -/
theorem document_blocked_by_crash :
    let key : DocumentKey := ⟨⟨""⟩, ""⟩
    let turn : Turn := ⟨.zero, false⟩
    let backend : Backend := fun r =>
      if r.kind = .buildPreamble then some .crashed else some (.returned (.ok (.annotations 0)))
    let moves : List Move :=
      [.act (.command (.putProject "" [])), .act (.command (.openDocument key)),
        .act (.enqueue .buildPreamble key), .act (.process turn), .turn (.job 0) turn]
    ∃ m, create? (.default 1) .new = some m ∧
      let ended := (m.run backend moves).1
      let later := (ended.move backend (.act (.enqueue .updateAnnotations key))).1
      (m.run backend moves).2.filterMap Event.outcome? = [] ∧
        ended.ready = [] ∧ ended.jobs = [] ∧ ended.isRunning key = true ∧
        (later.queue.pending.filter fun r => r.staleness later.registry.view = none).length = 1 ∧
        later.queue.settings.maxBatch = none ∧ later.queue.settings.deferHidden = false ∧
        (later.dispatch turn).2.1 = [] := by
  intro key turn backend moves
  have hm : create? (.default 1) .new = some _ := rfl
  exact ⟨_, hm, by decide +kernel, by decide +kernel, by decide +kernel, by decide +kernel,
    by decide +kernel, by decide +kernel, by decide +kernel, by decide +kernel⟩

end AnalysisJobs.Runner
