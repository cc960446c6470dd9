import AnalysisJobs.Proofs.Runner.Exclusive
import AnalysisJobs.Proofs.Runner.History
/-!
# Where every request went

Requests flow from the queue into jobs and from jobs into outcomes.  `Flow` is the
balance of one step: what was queued or came in was dropped, started or is still
queued, and what had a job or was started ended or still has one.  Balances add
up, so that a run has one too, and at the start there is nothing to account for.

Equal requests may be queued many times, so the balances are of multisets.
-/

namespace AnalysisJobs.Runner

variable {crashes : Prop} {m n : Runner}

def inFlight (m : Runner) : List Request := m.jobs.map Job.request

theorem map_snd_roster (m : Runner) : m.roster.map Prod.snd = m.inFlight := by
  rw [roster, List.map_map]
  rfl

theorem inFlight_eq_of_roster_eq (h : n.roster = m.roster) : n.inFlight = m.inFlight := by
  rw [← map_snd_roster, h, map_snd_roster]

/-- What happens to the requests while a runner goes from `m` to `n` and is asked
for more. -/
structure Flow (m : Runner) (asked : List Request) (events : List Event) (n : Runner) :
    Prop where
  queued : (m.queue.pending ++ asked).Perm
    ((events.filterMap Event.dropped?).map Prod.fst ++
      (events.filterMap Event.started? ++ n.queue.pending))
  carried : (m.inFlight ++ events.filterMap Event.started?).Perm
    (n.inFlight ++ (events.filterMap Event.ended?).map fun e => e.1)
  announced : events.filterMap Event.outcome? =
    (events.filterMap Event.ended?).map fun e => (e.1, e.2.2)
  recorded : n.finished =
    m.finished ++ (events.filterMap Event.ended?).map fun e => (e.1.kind, e.2.1)
  heard : n.hasReceiver = true → m.hasReceiver = true ∧
    events.filterMap Event.published? = events.filterMap Event.outcome?

theorem Flow.append {l : Runner} {first second : List Request} {before after : List Event}
    (hbefore : Flow l first before m) (hafter : Flow m second after n) :
    Flow l (first ++ second) (before ++ after) n where
  queued := by
    rw [List.perm_iff_count]
    intro r
    have h₁ := hbefore.queued.count_eq r
    have h₂ := hafter.queued.count_eq r
    simp only [List.filterMap_append, List.map_append, List.count_append] at h₁ h₂ ⊢
    omega
  carried := by
    rw [List.perm_iff_count]
    intro r
    have h₁ := hbefore.carried.count_eq r
    have h₂ := hafter.carried.count_eq r
    simp only [List.filterMap_append, List.map_append, List.count_append] at h₁ h₂ ⊢
    omega
  announced := by
    rw [List.filterMap_append, hbefore.announced, hafter.announced, List.filterMap_append,
      List.map_append]
  recorded := by
    rw [hafter.recorded, hbefore.recorded, List.filterMap_append, List.map_append,
      List.append_assoc]
  heard := by
    intro hn
    obtain ⟨hm, hpublished⟩ := hafter.heard hn
    obtain ⟨hl, hfirst⟩ := hbefore.heard hm
    rw [List.filterMap_append, hfirst, hpublished, List.filterMap_append]
    exact ⟨hl, rfl⟩

theorem Flow.pending_subset {asked : List Request} {events : List Event}
    (h : Flow m asked events n) : n.queue.pending ⊆ m.queue.pending ++ asked := fun _ hr =>
  h.queued.symm.subset (List.mem_append_right _ (List.mem_append_right _ hr))

theorem flow_of_quiet {events : List Event} (hquiet : ∀ e ∈ events, e.Quiet)
    (hqueue : n.queue = m.queue) (hroster : n.roster = m.roster)
    (hfinished : n.finished = m.finished) (hheard : n.hasReceiver = true → m.hasReceiver = true) :
    Flow m [] events n where
  queued := by
    rw [filterMap_quiet seesFates_dropped hquiet, filterMap_quiet seesFates_started hquiet,
      hqueue, List.append_nil]
    exact .refl _
  carried := by
    rw [filterMap_quiet seesFates_started hquiet, filterMap_quiet seesFates_ended hquiet,
      inFlight_eq_of_roster_eq hroster, List.map_nil]
  announced := by
    rw [filterMap_quiet seesFates_outcome hquiet, filterMap_quiet seesFates_ended hquiet,
      List.map_nil]
  recorded := by
    rw [filterMap_quiet seesFates_ended hquiet, List.map_nil, List.append_nil, hfinished]
  heard := by
    intro hn
    rw [filterMap_quiet seesFates_published hquiet, filterMap_quiet seesFates_outcome hquiet]
    exact ⟨hheard hn, rfl⟩

theorem flow_refl (m : Runner) : Flow m [] [] m := flow_of_quiet (by simp) rfl rfl rfl id

theorem SameWork.flow (hsame : SameWork crashes m n) {events : List Event}
    (hquiet : ∀ e ∈ events, e.Quiet) : Flow m [] events n := by
  refine flow_of_quiet hquiet hsame.queue hsame.roster hsame.finished fun hn => ?_
  rwa [hsame.hasReceiver] at hn

theorem flow_add (m : Runner) (request : Request) :
    Flow m [request] [.added request] { m with queue := m.queue.add request } where
  queued := .refl _
  carried := .refl _
  announced := rfl
  recorded := (List.append_nil m.finished).symm
  heard := fun hn => ⟨hn, rfl⟩

/-! ## Passes -/

theorem dropped_passOver (m : Runner) (turn : Turn) :
    (m.passOver turn).2.2.filterMap Event.dropped? = m.nextPass.dropped := by
  rw [filterMap_events_passOver seesFates_dropped]
  simp [Event.dropped?]

theorem started_passOver (m : Runner) (turn : Turn) :
    (m.passOver turn).2.2.filterMap Event.started? = m.nextPass.batch := by
  rw [filterMap_events_passOver seesFates_started]
  simp [Event.started?]

theorem ended_passOver (m : Runner) (turn : Turn) :
    (m.passOver turn).2.2.filterMap Event.ended? = [] := by
  rw [filterMap_events_passOver seesFates_ended]
  simp [Event.ended?]

theorem inFlight_passOver (m : Runner) (turn : Turn) :
    (m.passOver turn).1.inFlight = m.inFlight ++ m.nextPass.batch := by
  obtain ⟨running, ready, heq, -⟩ := passOver_eq m turn
  rw [heq, inFlight, inFlight, List.map_append, map_request_newJobs]

theorem flow_passOver (m : Runner) (turn : Turn) :
    Flow m [] (m.passOver turn).2.2 (m.passOver turn).1 := by
  obtain ⟨running, ready, heq, -⟩ := passOver_eq m turn
  have houtcome : (m.passOver turn).2.2.filterMap Event.outcome? = [] := by
    rw [filterMap_events_passOver seesFates_outcome]
    simp [Event.outcome?]
  have hpublished : (m.passOver turn).2.2.filterMap Event.published? = [] := by
    rw [filterMap_events_passOver seesFates_published]
    simp [Event.published?]
  constructor
  · rw [dropped_passOver, started_passOver, heq, List.append_nil]
    exact Queue.perm_pass m.queue m.registry.view m.isRunning
  · rw [started_passOver, ended_passOver, inFlight_passOver, List.map_nil,
      List.append_nil]
  · rw [houtcome, ended_passOver, List.map_nil]
  · rw [ended_passOver, heq, List.map_nil, List.append_nil]
  · intro hn
    rw [heq] at hn
    rw [hpublished, houtcome]
    exact ⟨hn, rfl⟩

theorem Passes.flow {events : List Event} (h : Passes crashes m events n) :
    Flow m [] events n := by
  induction h with
  | none hsame hquiet => exact hsame.flow hquiet
  | pass turn hsame hquiet _ ih =>
    exact ((hsame.flow hquiet).append (flow_passOver _ turn)).append ih

theorem pending_passOver_subset (m : Runner) (turn : Turn) :
    (m.passOver turn).1.queue.pending ⊆ m.queue.pending := by
  obtain ⟨running, ready, heq, -⟩ := passOver_eq m turn
  rw [heq]
  intro r hr
  apply (Queue.perm_pass m.queue m.registry.view m.isRunning).symm.subset
  exact List.mem_append_right _ (List.mem_append_right _ hr)

theorem Passes.dropped {events : List Event} (h : Passes crashes m events n) :
    ∀ d ∈ events.filterMap Event.dropped?,
      d.1 ∈ m.queue.pending ∧ d.1.staleness m.registry.view = some d.2 := by
  induction h with
  | none _ hquiet =>
    intro d hd
    rw [filterMap_quiet seesFates_dropped hquiet] at hd
    cases hd
  | @pass m n last before after turn hsame hquiet _ ih =>
    intro d hd
    rw [List.filterMap_append, List.filterMap_append, filterMap_quiet seesFates_dropped hquiet,
      List.nil_append, dropped_passOver] at hd
    rw [← hsame.queue, ← hsame.registry]
    rcases List.mem_append.1 hd with hfirst | hlater
    · exact Queue.mem_stale.1 hfirst
    · -- a later pass has the same registry and a part of the queue
      obtain ⟨running, ready, heq, -⟩ := passOver_eq n turn
      obtain ⟨hpending, hstale⟩ := ih d hlater
      refine ⟨pending_passOver_subset n turn hpending, ?_⟩
      rwa [heq] at hstale

/-! ## Ends of jobs -/

theorem perm_cons_filter {l : List (Nat × Request)} {e : Nat × Request}
    (h : l.Pairwise Apart) (he : e ∈ l) : l.Perm (e :: l.filter fun x => x.1 ≠ e.1) := by
  induction h with
  | nil => cases he
  | @cons first rest hfirst _ ih =>
    rcases List.mem_cons.1 he with rfl | he
    · have hrest : rest.filter (fun x => x.1 ≠ e.1) = rest :=
        List.filter_eq_self.2 fun x hx => decide_eq_true (hfirst x hx).1.symm
      rw [List.filter_cons_of_neg (by simp), hrest]
    · have hkept : decide (first.1 ≠ e.1) = true := decide_eq_true (hfirst e he).1
      rw [List.filter_cons, if_pos hkept]
      exact ((ih he).cons first).trans (.swap e first _)

theorem Exclusive.perm_inFlight (h : m.Exclusive crashes) {e : Nat × Request}
    (he : e ∈ m.roster) (hroster : n.roster = m.roster.filter fun x => x.1 ≠ e.1) :
    m.inFlight.Perm (e.2 :: n.inFlight) := by
  have hrequests := (perm_cons_filter h.apart he).map Prod.snd
  rwa [List.map_cons, ← hroster, map_snd_roster, map_snd_roster] at hrequests

theorem passive_conclude (m : Runner) (job : Job) (turn : Turn) (result : Result) :
    ∀ e ∈ (m.conclude job turn result).2, e.dropped? = none ∧ e.started? = none := by
  intro e he
  rw [events_conclude, List.cons_append] at he
  rcases List.mem_cons.1 he with rfl | he
  · exact ⟨rfl, rfl⟩
  · rcases List.mem_append.1 he with hlearned | hended
    · have hquiet := quiet_learn _ _ _ e hlearned
      exact ⟨seesFates_dropped e hquiet, seesFates_started e hquiet⟩
    · rcases List.mem_cons.1 hended with rfl | hsent
      · exact ⟨rfl, rfl⟩
      · rw [List.mem_singleton] at hsent
        rw [hsent]
        split <;> exact ⟨rfl, rfl⟩

theorem ended_conclude (m : Runner) (job : Job) (turn : Turn) (result : Result) :
    (m.conclude job turn result).2.filterMap Event.ended? =
      [(job.request, turn.elapsed, result)] := by
  rw [filterMap_events_conclude seesFates_ended]
  split <;> rfl

theorem flow_conclude (h : m.Exclusive crashes) {job : Job}
    (hmem : (job.id, job.request) ∈ m.roster) (turn : Turn) (result : Result) :
    Flow m [] (m.conclude job turn result).2 (m.conclude job turn result).1 := by
  obtain ⟨ready, wakeup, dispatcher, heq⟩ := conclude_eq m job turn result
  have hdropped : (m.conclude job turn result).2.filterMap Event.dropped? = [] :=
    List.filterMap_eq_nil_iff.2 fun e he => (passive_conclude m job turn result e he).1
  have hstarted : (m.conclude job turn result).2.filterMap Event.started? = [] :=
    List.filterMap_eq_nil_iff.2 fun e he => (passive_conclude m job turn result e he).2
  have houtcome : (m.conclude job turn result).2.filterMap Event.outcome? =
      [(job.request, result)] := by
    rw [filterMap_events_conclude seesFates_outcome]
    split <;> rfl
  constructor
  · rw [hdropped, hstarted, heq, List.append_nil]
    exact .refl _
  · have hjobs := h.perm_inFlight hmem (roster_conclude m job turn result)
    rw [hstarted, ended_conclude, List.append_nil]
    exact hjobs.trans (List.perm_append_singleton job.request _).symm
  · rw [houtcome, ended_conclude]
    rfl
  · rw [ended_conclude, heq]
    rfl
  · intro hn
    rw [heq] at hn
    have hpublished : (m.conclude job turn result).2.filterMap Event.published? =
        [(job.request, result)] := by
      rw [filterMap_events_conclude seesFates_published, if_pos hn]
      rfl
    rw [hpublished, houtcome]
    exact ⟨hn, rfl⟩

/-! ## Steps -/

theorem JobStep.flow {id : Nat} {events : List Event} (hjob : JobStep False m id events n)
    (h : m.Exclusive crashes) : Flow m [] events n := by
  cases hjob with
  | goesOn hsame hquiet => exact hsame.flow hquiet
  | ends events turn result hsame hquiet hid hmem =>
    rw [← hsame.roster] at hmem
    exact (hsame.flow hquiet).append (flow_conclude (h.of_sameWork hsame) hmem turn result)
  | dies hcrash => exact hcrash.elim

theorem Step.flow_or_job {move : Move} {events : List Event}
    (hstep : Step crashes m move events n) :
    Flow m (m.asked move) events n ∨
      ∃ id turn, move = .turn (.job id) turn ∧ JobStep crashes m id events n := by
  cases hstep with
  | command c => exact .inl (flow_of_quiet (m.registry.quiet_events c) rfl rfl rfl id)
  | add request hasked hsame =>
    rw [hasked]
    have hnone : ∀ e ∈ ([] : List Event), e.Quiet := by simp
    exact .inl ((flow_add m request).append (hsame.flow hnone))
  | process turn hpasses | finishProcess turn hpasses | dispatcher turn hpasses =>
    exact .inl hpasses.flow
  | job id turn hjob => exact .inr ⟨id, turn, rfl, hjob⟩
  | answer key ending hsame => exact .inl (hsame.flow (by simp))
  | beginProcess hsame | startDispatcher hsame => exact .inl (hsame.flow (by simp))
  | shutDown hsame =>
    refine .inl (flow_of_quiet ?_ hsame.queue hsame.roster hsame.finished fun hn => ?_)
    · split <;> simp [Event.Quiet]
    · rwa [hsame.hasReceiver] at hn
  | dropReceiver => exact .inl (flow_of_quiet (by simp) rfl rfl rfl fun hn => by cases hn)

theorem Step.flow {move : Move} {events : List Event} (hstep : Step False m move events n)
    (h : m.Exclusive False) : Flow m (m.asked move) events n := by
  rcases hstep.flow_or_job with hflow | ⟨id, turn, rfl, hjob⟩
  · exact hflow
  · exact hjob.flow h

theorem Step.passes_or_passive {move : Move} {events : List Event}
    (hstep : Step crashes m move events n) :
    Passes crashes m events n ∨ ∀ e ∈ events, e.dropped? = none ∧ e.started? = none := by
  have hpassive {events : List Event} (hquiet : ∀ e ∈ events, e.Quiet) :
      ∀ e ∈ events, e.dropped? = none ∧ e.started? = none :=
    fun e he => ⟨seesFates_dropped e (hquiet e he), seesFates_started e (hquiet e he)⟩
  cases hstep with
  | command c => exact .inr (hpassive (m.registry.quiet_events c))
  | add request => exact .inr (by simp [Event.dropped?, Event.started?])
  | process turn hpasses | finishProcess turn hpasses | dispatcher turn hpasses =>
    exact .inl hpasses
  | job id turn hjob =>
    right
    cases hjob with
    | goesOn _ hquiet => exact hpassive hquiet
    | ends events turn result _ hquiet =>
      exact List.forall_mem_append.2 ⟨hpassive hquiet, passive_conclude _ _ turn result⟩
    | dies _ _ hquiet => exact hpassive hquiet
  | shutDown =>
    right
    split <;> simp [Event.dropped?, Event.started?]
  | beginProcess | answer | startDispatcher | dropReceiver => exact .inr (by simp)

theorem Step.dropped {move : Move} {events : List Event} (hstep : Step crashes m move events n) :
    ∀ d ∈ events.filterMap Event.dropped?,
      d.1 ∈ m.queue.pending ∧ d.1.staleness m.registry.view = some d.2 := by
  rcases hstep.passes_or_passive with hpasses | hpassive
  · exact hpasses.dropped
  · intro d hd
    rw [List.filterMap_eq_nil_iff.2 fun e he => (hpassive e he).1] at hd
    cases hd

/-! ## Runs -/

def requested (m : Runner) (backend : Backend) : List Move → List Request
  | [] => []
  | move :: rest => m.asked move ++ (m.move backend move).1.requested backend rest

theorem requested_append (m : Runner) (backend : Backend) (before after : List Move) :
    m.requested backend (before ++ after) =
      m.requested backend before ++ (m.run backend before).1.requested backend after := by
  induction before generalizing m with
  | nil => rfl
  | cons move rest ih =>
    rw [List.cons_append, requested, requested, ih, run_cons, List.append_assoc]

theorem Step.flow_run {backend : Backend} {before : List Move} {events more : List Event}
    {move : Move} {last : Runner} (hn : n = (m.run backend before).1)
    (hflow : Flow m (m.requested backend before) events n) (h : n.Exclusive False)
    (hstep : Step False n move more last) :
    Flow m (m.requested backend (before ++ [move])) (events ++ more) last := by
  have hasked : m.requested backend (before ++ [move]) =
      m.requested backend before ++ n.asked move := by
    rw [requested_append, ← hn, requested, requested, List.append_nil]
  rw [hasked]
  exact hflow.append (hstep.flow h)

theorem flow_run {settings : Settings} {registry : Registry}
    (hm : create? settings registry = some m) {backend : Backend} {moves : List Move}
    (hreturns : CallsReturn backend moves) :
    Flow m (m.requested backend moves) (m.run backend moves).2 (m.run backend moves).1 := by
  have hnew := isNew_of_create? hm
  have hcalm : m.Calm False := calm_of_jobs_eq_nil hnew.jobs
  have hrun := run_induction
    (P := fun before events n =>
      n.Exclusive False ∧ Flow m (m.requested backend before) events n)
    (fun _ => hreturns) hcalm ⟨exclusive_of_isNew hnew, flow_refl m⟩ ?_
  · exact hrun.2
  · rintro before events n move more last hn ⟨hexclusive, hflow⟩ hstep
    exact ⟨hstep.exclusive hexclusive, hstep.flow_run hn hflow hexclusive⟩

end AnalysisJobs.Runner
