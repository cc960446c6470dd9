import AnalysisJobs.Proofs.Queue.Order
import AnalysisJobs.Proofs.Runner.Completion
/-!
# Jobs of one document follow each other in the order of its requests

Two facts about one document.  `InOrder` is the law of the queue: what was started,
followed by what is still queued, keeps the order in which it was asked for, so that no
request is overtaken.  `InTurn` is the law of the jobs: those started are those that ended,
in the same order, and after them at most the one that goes on, for which the document is
in the table of running documents.

A pass is one step and asks one state of the table.  Calls may crash: a document whose
job died stays in the table, and nothing more is started for it.
-/

namespace AnalysisJobs

def startedOf (key : DocumentKey) (events : List Event) : List Request :=
  requestsFor key (events.filterMap Event.started?)

def endedOf (key : DocumentKey) (events : List Event) : List Request :=
  requestsFor key ((events.filterMap Event.ended?).map Prod.fst)

theorem startedOf_append (key : DocumentKey) (before after : List Event) :
    startedOf key (before ++ after) = startedOf key before ++ startedOf key after := by
  rw [startedOf, List.filterMap_append, requestsFor_append, startedOf, startedOf]

theorem endedOf_append (key : DocumentKey) (before after : List Event) :
    endedOf key (before ++ after) = endedOf key before ++ endedOf key after := by
  rw [endedOf, List.filterMap_append, List.map_append, requestsFor_append, endedOf, endedOf]

theorem startedOf_quiet (key : DocumentKey) {events : List Event} (h : ∀ e ∈ events, e.Quiet) :
    startedOf key events = [] := by
  rw [startedOf, filterMap_quiet seesFates_started h]
  rfl

theorem endedOf_quiet (key : DocumentKey) {events : List Event} (h : ∀ e ∈ events, e.Quiet) :
    endedOf key events = [] := by
  rw [endedOf, filterMap_quiet seesFates_ended h]
  rfl

namespace Runner

variable {crashes : Prop} {m n : Runner} {key : DocumentKey}

/-! ## Passes and ends of jobs -/

theorem startedOf_passOver (m : Runner) (turn : Turn) (key : DocumentKey) :
    startedOf key (m.passOver turn).2.2 = requestsFor key m.nextPass.batch := by
  rw [startedOf, started_passOver]

theorem endedOf_passOver (m : Runner) (turn : Turn) (key : DocumentKey) :
    endedOf key (m.passOver turn).2.2 = [] := by
  rw [endedOf, ended_passOver]
  rfl

theorem startedOf_conclude (m : Runner) (job : Job) (turn : Turn) (result : Result)
    (key : DocumentKey) : startedOf key (m.conclude job turn result).2 = [] := by
  have hnone : (m.conclude job turn result).2.filterMap Event.started? = [] :=
    List.filterMap_eq_nil_iff.2 fun e he => (passive_conclude m job turn result e he).2
  rw [startedOf, hnone]
  rfl

theorem endedOf_conclude (m : Runner) (job : Job) (turn : Turn) (result : Result)
    (key : DocumentKey) :
    endedOf key (m.conclude job turn result).2 = requestsFor key [job.request] := by
  rw [endedOf, ended_conclude]
  rfl

/-! ## The order of the queue -/

/-- While a runner goes from `m` to `n` and is asked for more, the requests for a
document are started from the front and the others stay behind in their order. -/
def InOrder (key : DocumentKey) (m : Runner) (asked : List Request) (events : List Event)
    (n : Runner) : Prop :=
  (startedOf key events ++ requestsFor key n.queue.pending).Sublist
    (requestsFor key m.queue.pending ++ requestsFor key asked)

theorem InOrder.append {l : Runner} {first second : List Request} {before after : List Event}
    (hbefore : InOrder key l first before m) (hafter : InOrder key m second after n) :
    InOrder key l (first ++ second) (before ++ after) n := by
  have hlater := hafter.append_left (startedOf key before)
  have hearlier := hbefore.append_right (requestsFor key second)
  rw [← List.append_assoc, ← List.append_assoc, ← startedOf_append] at hlater
  rw [List.append_assoc (requestsFor key l.queue.pending), ← requestsFor_append] at hearlier
  exact hlater.trans hearlier

theorem inOrder_of_started_eq_nil {asked : List Request} {events : List Event}
    (hstarted : startedOf key events = [])
    (hpending : n.queue.pending = m.queue.pending ++ asked) : InOrder key m asked events n := by
  have hkept : startedOf key events ++ requestsFor key n.queue.pending =
      requestsFor key m.queue.pending ++ requestsFor key asked := by
    rw [hstarted, List.nil_append, hpending, requestsFor_append]
  unfold InOrder
  exact hkept ▸ List.Sublist.refl _

theorem inOrder_refl (key : DocumentKey) (m : Runner) : InOrder key m [] [] m :=
  inOrder_of_started_eq_nil rfl (List.append_nil _).symm

theorem SameWork.inOrder (hsame : SameWork crashes m n) {events : List Event}
    (hquiet : ∀ e ∈ events, e.Quiet) (key : DocumentKey) : InOrder key m [] events n := by
  refine inOrder_of_started_eq_nil (startedOf_quiet key hquiet) ?_
  rw [hsame.queue, List.append_nil]

theorem inOrder_passOver (m : Runner) (turn : Turn) (key : DocumentKey) :
    InOrder key m [] (m.passOver turn).2.2 (m.passOver turn).1 := by
  obtain ⟨running, ready, heq, -⟩ := passOver_eq m turn
  have hpass := Queue.requestsFor_pass m.queue m.registry.ignoresSpelling_view
    (fun _ _ => m.isRunning_congr) key
  have hfresh : (requestsFor key (m.queue.fresh m.registry.view)).Sublist
      (requestsFor key m.queue.pending) := List.filter_sublist.filter _
  rw [InOrder, startedOf_passOver, heq]
  exact (hpass ▸ hfresh).trans (List.sublist_append_left _ _)

theorem Passes.inOrder {events : List Event} (h : Passes crashes m events n) (key : DocumentKey) :
    InOrder key m [] events n := by
  induction h with
  | none hsame hquiet => exact hsame.inOrder hquiet key
  | pass turn hsame hquiet _ ih =>
    exact ((hsame.inOrder hquiet key).append (inOrder_passOver _ turn key)).append ih

theorem Step.inOrder {move : Move} {events : List Event} (hstep : Step crashes m move events n)
    (key : DocumentKey) : InOrder key m (m.asked move) events n := by
  have hkept {l : Runner} {events : List Event} (hqueue : l.queue = m.queue)
      (hstarted : startedOf key events = []) : InOrder key m [] events l :=
    inOrder_of_started_eq_nil hstarted (by rw [hqueue, List.append_nil])
  cases hstep with
  | command c => exact hkept rfl (startedOf_quiet key (m.registry.quiet_events c))
  | add request hasked hsame =>
    rw [hasked]
    exact inOrder_of_started_eq_nil rfl (congrArg Queue.pending hsame.queue)
  | process turn hpasses | finishProcess turn hpasses | dispatcher turn hpasses =>
    exact hpasses.inOrder key
  | job id turn hjob =>
    cases hjob with
    | goesOn hsame hquiet | dies _ hsame hquiet =>
      exact hkept hsame.queue (startedOf_quiet key hquiet)
    | @ends last job events turn result hsame hquiet =>
      obtain ⟨ready, wakeup, dispatcher, heq⟩ := conclude_eq last job turn result
      refine hkept ?_ ?_
      · rw [heq]
        exact hsame.queue
      · rw [startedOf_append, startedOf_quiet key hquiet, startedOf_conclude, List.append_nil]
  | beginProcess hsame | answer _ _ hsame | startDispatcher hsame => exact hkept hsame.queue rfl
  | shutDown hsame =>
    refine hkept hsame.queue ?_
    split <;> rfl
  | dropReceiver => exact hkept rfl rfl

/-! ## The order of the jobs -/

/-- The jobs started for a document are those that ended and at most a `current` one; a
document that is not in the table has none. -/
def InTurn (key : DocumentKey) (events : List Event) (n : Runner) : Prop :=
  ∃ current, startedOf key events = endedOf key events ++ current ∧
    (n.isRunning key = false → current = []) ∧
    ∀ e ∈ n.roster, e.2.key.Same key → current = [e.2]

theorem InTurn.of_idle {before events : List Event} (h : InTurn key before m)
    (hstarted : startedOf key events = []) (hended : endedOf key events = [])
    (hrunning : n.running = m.running) (hroster : n.roster = m.roster) :
    InTurn key (before ++ events) n := by
  obtain ⟨current, heq, hfree, hmem⟩ := h
  refine ⟨current, ?_, ?_, ?_⟩
  · rw [startedOf_append, hstarted, List.append_nil, endedOf_append, hended, List.append_nil, heq]
  · rw [isRunning, hrunning]
    exact hfree
  · rw [hroster]
    exact hmem

theorem InTurn.of_sameWork {before events : List Event} (h : InTurn key before m)
    (hsame : SameWork crashes m n) (hquiet : ∀ e ∈ events, e.Quiet) :
    InTurn key (before ++ events) n :=
  h.of_idle (startedOf_quiet key hquiet) (endedOf_quiet key hquiet) hsame.running hsame.roster

theorem InTurn.passOver {before : List Event} (h : InTurn key before m)
    (hexclusive : m.Exclusive crashes) (turn : Turn) :
    InTurn key (before ++ (m.passOver turn).2.2) (m.passOver turn).1 := by
  obtain ⟨current, hstarted, hfree, hroster⟩ := h
  have hbatch := Queue.pairwise_batch m.queue m.registry.view m.isRunning
  by_cases hnew : ∃ r ∈ m.nextPass.batch, r.key.Same key
  · obtain ⟨r, hr, hkey⟩ := hnew
    have hidle : m.isRunning key = false := by
      rw [← isRunning_congr m hkey]
      exact Queue.not_running_of_mem_batch hr
    have honly : requestsFor key m.nextPass.batch = [r] := requestsFor_eq_singleton hbatch hr hkey
    refine ⟨[r], ?_, fun hnot => ?_, fun e he hsame => ?_⟩
    · rw [startedOf_append, startedOf_passOver, honly, endedOf_append,
        endedOf_passOver, hstarted, hfree hidle, List.append_nil]
    · rw [isRunning_passOver, Bool.or_eq_false_iff] at hnot
      have hany := List.any_eq_false.1 hnot.2 r hr
      exact absurd (decide_eq_true hkey) hany
    · rcases mem_roster_passOver he with hold | ⟨-, -, hmem⟩
      · have hbusy := hexclusive.isRunning_of_mem e hold
        rw [isRunning_congr m hsame, hidle] at hbusy
        cases hbusy
      · have hsingle := mem_requestsFor.2 ⟨hmem, hsame⟩
        rw [honly, List.mem_singleton] at hsingle
        rw [hsingle]
  · have hnone : requestsFor key m.nextPass.batch = [] :=
      requestsFor_eq_nil_iff.2 fun r hr hkey => hnew ⟨r, hr, hkey⟩
    refine ⟨current, ?_, fun hnot => ?_, fun e he hsame => ?_⟩
    · rw [startedOf_append, startedOf_passOver, hnone, List.append_nil, endedOf_append,
        endedOf_passOver, List.append_nil, hstarted]
    · rw [isRunning_passOver, Bool.or_eq_false_iff] at hnot
      exact hfree hnot.1
    · rcases mem_roster_passOver he with hold | ⟨-, -, hmem⟩
      · exact hroster e hold hsame
      · exact absurd ⟨e.2, hmem, hsame⟩ hnew

theorem InTurn.conclude {before : List Event} (h : InTurn key before m)
    (hexclusive : m.Exclusive crashes) {job : Job} (hmem : (job.id, job.request) ∈ m.roster)
    (turn : Turn) (result : Result) :
    InTurn key (before ++ (m.conclude job turn result).2) (m.conclude job turn result).1 := by
  obtain ⟨current, hstarted, hfree, hroster⟩ := h
  by_cases hkey : job.request.key.Same key
  · have hcurrent : current = [job.request] := hroster _ hmem hkey
    refine ⟨[], ?_, fun _ => rfl, fun e he hsame => ?_⟩
    · rw [startedOf_append, startedOf_conclude, List.append_nil, endedOf_append, endedOf_conclude,
        requestsFor_cons_of_same hkey, hstarted, hcurrent, List.append_nil]
      rfl
    · -- the job that ended was the only one of the document
      rw [roster_conclude, List.mem_filter] at he
      have heq := hexclusive.eq_of_same he.1 hmem (hsame.trans hkey.symm)
      exact absurd (congrArg Prod.fst heq) (of_decide_eq_true he.2)
  · refine ⟨current, ?_, fun hnot => ?_, fun e he hsame => ?_⟩
    · rw [startedOf_append, startedOf_conclude, List.append_nil, endedOf_append, endedOf_conclude,
        requestsFor_cons_of_not_same hkey, hstarted]
      exact (congrArg (· ++ current) (List.append_nil _)).symm
    · refine hfree (Bool.eq_false_iff.2 fun hbusy => ?_)
      have hafter := (isRunning_conclude m job turn result key).2
        ⟨hbusy, fun hsame => hkey hsame.symm⟩
      rw [hnot] at hafter
      cases hafter
    · rw [roster_conclude, List.mem_filter] at he
      exact hroster e he.1 hsame

theorem InTurn.forget {before : List Event} (h : InTurn key before m) (id : Nat) :
    InTurn key before (m.forget id) := by
  obtain ⟨current, hstarted, hfree, hroster⟩ := h
  have hsub : (m.forget id).roster ⊆ m.roster :=
    List.map_subset _ List.filter_sublist.subset
  exact ⟨current, hstarted, hfree, fun e he hsame => hroster e (hsub he) hsame⟩

theorem Passes.inTurn {before events : List Event} (hpasses : Passes crashes m events n)
    (h : InTurn key before m) (hexclusive : m.Exclusive crashes) :
    InTurn key (before ++ events) n := by
  induction hpasses generalizing before with
  | none hsame hquiet => exact h.of_sameWork hsame hquiet
  | pass turn hsame hquiet _ ih =>
    have hfirst := hexclusive.of_sameWork hsame
    have hpassed := (h.of_sameWork hsame hquiet).passOver hfirst turn
    have hrest := ih hpassed (hfirst.passOver turn)
    rw [← List.append_assoc, ← List.append_assoc]
    exact hrest

theorem Step.inTurn {before : List Event} {move : Move} {events : List Event}
    (hstep : Step crashes m move events n) (h : InTurn key before m)
    (hexclusive : m.Exclusive crashes) : InTurn key (before ++ events) n := by
  cases hstep with
  | command c =>
    have hquiet := m.registry.quiet_events c
    exact h.of_idle (startedOf_quiet key hquiet) (endedOf_quiet key hquiet) rfl rfl
  | add request _ hsame => exact h.of_idle rfl rfl hsame.running hsame.roster
  | process turn hpasses | finishProcess turn hpasses | dispatcher turn hpasses =>
    exact hpasses.inTurn h hexclusive
  | job id turn hjob =>
    cases hjob with
    | goesOn hsame hquiet => exact h.of_sameWork hsame hquiet
    | ends events turn result hsame hquiet _ hmem =>
      rw [← List.append_assoc]
      rw [← hsame.roster] at hmem
      exact (h.of_sameWork hsame hquiet).conclude (hexclusive.of_sameWork hsame) hmem turn result
    | dies _ hsame hquiet => exact (h.of_sameWork hsame hquiet).forget id
  | beginProcess hsame | answer _ _ hsame | startDispatcher hsame =>
    exact h.of_sameWork hsame (by simp)
  | shutDown hsame => refine h.of_idle ?_ ?_ hsame.running hsame.roster <;> split <;> rfl
  | dropReceiver => exact h.of_idle rfl rfl rfl rfl

/-! ## Moves that start a job -/

theorem Passes.startedOf_of_isRunning {events : List Event} (h : Passes crashes m events n)
    (hbusy : m.isRunning key = true) : startedOf key events = [] := by
  induction h with
  | none _ hquiet => exact startedOf_quiet key hquiet
  | @pass m n last before after turn hsame hquiet _ ih =>
    rw [← hsame.isRunning] at hbusy
    have hbatch : requestsFor key n.nextPass.batch = [] := by
      refine requestsFor_eq_nil_iff.2 fun r hr hkey => ?_
      have hfree : n.isRunning r.key = false := Queue.not_running_of_mem_batch hr
      rw [isRunning_congr n hkey, hbusy] at hfree
      cases hfree
    have hlater := ih (by rw [isRunning_passOver, hbusy, Bool.true_or])
    rw [startedOf_append, startedOf_append, startedOf_quiet key hquiet,
      startedOf_passOver, hbatch, hlater]
    rfl

theorem Passes.startedOf_eq_singleton {events : List Event} (h : Passes crashes m events n)
    {request : Request} (hmem : request ∈ startedOf key events) :
    m.isRunning key = false ∧ startedOf key events = [request] := by
  refine ⟨Bool.eq_false_iff.2 fun hbusy => ?_, ?_⟩
  · rw [h.startedOf_of_isRunning hbusy] at hmem
    cases hmem
  · induction h with
    | none _ hquiet =>
      rw [startedOf_quiet key hquiet] at hmem
      cases hmem
    | @pass m n last before after turn hsame hquiet hrest ih =>
      rw [startedOf_append, startedOf_append, startedOf_quiet key hquiet, List.nil_append,
        startedOf_passOver] at hmem ⊢
      by_cases hbatch : requestsFor key n.nextPass.batch = []
      · rw [hbatch, List.nil_append] at hmem ⊢
        exact ih hmem
      · -- the document is in the table from this pass on
        obtain ⟨r, hr⟩ := List.exists_mem_of_ne_nil _ hbatch
        obtain ⟨hr, hkey⟩ := mem_requestsFor.1 hr
        have honly := requestsFor_eq_singleton
          (Queue.pairwise_batch n.queue n.registry.view n.isRunning) hr hkey
        have hlater : startedOf key after = [] := by
          refine hrest.startedOf_of_isRunning ?_
          rw [isRunning_passOver, Bool.or_eq_true]
          exact .inr (List.any_eq_true.2 ⟨r, hr, decide_eq_true hkey⟩)
        rw [show requestsFor key n.nextPass.batch = [r] from honly, hlater,
          List.append_nil] at hmem ⊢
        rw [List.mem_singleton.1 hmem]

theorem Step.startedOf_eq_singleton {move : Move} {events : List Event}
    (hstep : Step crashes m move events n) {request : Request}
    (hmem : request ∈ startedOf key events) :
    m.isRunning key = false ∧ startedOf key events = [request] := by
  rcases hstep.passes_or_passive with hpasses | hpassive
  · exact hpasses.startedOf_eq_singleton hmem
  · rw [startedOf, List.filterMap_eq_nil_iff.2 fun e he => (hpassive e he).2] at hmem
    cases hmem

theorem mem_startedOf {events : List Event} {request : Request}
    (hstarted : Event.started request ∈ events) (hkey : request.key.Same key) :
    request ∈ startedOf key events :=
  mem_requestsFor.2 ⟨List.mem_filterMap.2 ⟨_, hstarted, rfl⟩, hkey⟩

/-- A pass asks one state of the table: whatever it holds back had a job when the pass
began, and whatever it starts had none. -/
theorem isRunning_of_mem_events_passOver (m : Runner) (turn : Turn) (request : Request) :
    (Event.held request ∈ (m.passOver turn).2.2 → m.isRunning request.key = true) ∧
      (Event.started request ∈ (m.passOver turn).2.2 → m.isRunning request.key = false) := by
  constructor
  · intro hheld
    rw [events_passOver, Pass.events] at hheld
    simp only [List.mem_append, List.mem_map, List.mem_filter, List.mem_singleton, reduceCtorEq,
      and_false, exists_false, false_or, or_false, Event.held.injEq] at hheld
    obtain ⟨r, ⟨-, hbusy⟩, rfl⟩ := hheld
    exact hbusy
  · intro hstarted
    have hmem : request ∈ (m.passOver turn).2.2.filterMap Event.started? :=
      List.mem_filterMap.2 ⟨_, hstarted, rfl⟩
    rw [started_passOver] at hmem
    exact Queue.not_running_of_mem_batch hmem

theorem isRunning_of_mem_events_dispatch (m : Runner) (turn : Turn) (request : Request) :
    (Event.held request ∈ (m.dispatch turn).2.2 → m.isRunning request.key = true) ∧
      (Event.started request ∈ (m.dispatch turn).2.2 → m.isRunning request.key = false) := by
  unfold dispatch
  split
  · constructor <;> intro hmem <;> cases hmem
  · exact isRunning_of_mem_events_passOver m turn request

/-! ## Runs -/

theorem inOrder_run {settings : Settings} {registry : Registry}
    (hm : create? settings registry = some m) (backend : Backend) (moves : List Move)
    (key : DocumentKey) :
    InOrder key m (m.requested backend moves) (m.run backend moves).2
        (m.run backend moves).1 ∧
      InTurn key (m.run backend moves).2 (m.run backend moves).1 := by
  have hnew := isNew_of_create? hm
  have hroster : m.roster = [] := by rw [roster, hnew.jobs, List.map_nil]
  have hcalm : m.Calm True := calm_of_jobs_eq_nil hnew.jobs
  have hreturns : ¬ True → CallsReturn backend moves := fun h => absurd trivial h
  have hrun := run_induction
    (P := fun before events n => n.Exclusive True ∧
      InOrder key m (m.requested backend before) events n ∧ InTurn key events n)
    hreturns hcalm ?_ ?_
  · exact hrun.2
  · refine ⟨exclusive_of_isNew hnew, inOrder_refl key m, [], rfl, fun _ => rfl, ?_⟩
    simp [hroster]
  · rintro before events n move more last rfl ⟨hexclusive, horder, hturn⟩ hstep
    refine ⟨hstep.exclusive hexclusive, ?_, hstep.inTurn hturn hexclusive⟩
    rw [requested_append, requested, requested, List.append_nil]
    exact horder.append (hstep.inOrder key)

/-- The requests for a document are started in the order in which they were asked for,
whatever happens to the registry between, and none is started before the job of the one
before it has ended: then its result is in the registry and the document is out of the
table.  Within a pass the table does not change. -/
theorem first_in_first_out {settings : Settings} {registry : Registry}
    (hm : create? settings registry = some m) (backend : Backend) (moves : List Move)
    (key : DocumentKey) :
    let events := (m.run backend moves).2
    let last := (m.run backend moves).1
    (startedOf key events ++ requestsFor key last.queue.pending).Sublist
        (requestsFor key (m.requested backend moves)) ∧
      (∀ move request, Event.started request ∈ (last.move backend move).2 →
        request.key.Same key →
          last.isRunning key = false ∧ startedOf key events = endedOf key events ∧
            startedOf key (last.move backend move).2 = [request]) ∧
      (∀ move request elapsed result,
        Event.ended request elapsed result ∈ (last.move backend move).2 →
        request.key.Same key →
          (last.move backend move).1.registry = (learn last.registry request result).1 ∧
            (last.move backend move).1.isRunning key = false) ∧
      ∀ turn request,
        (Event.held request ∈ (last.dispatch turn).2.2 → last.isRunning request.key = true) ∧
          (Event.started request ∈ (last.dispatch turn).2.2 →
            last.isRunning request.key = false) := by
  intro events last
  obtain ⟨horder, hturn⟩ : InOrder key m (m.requested backend moves) events last ∧
      InTurn key events last := inOrder_run hm backend moves key
  refine ⟨?_, fun move request hstarted hkey => ?_,
    fun move request elapsed result hended hkey => ?_, isRunning_of_mem_events_dispatch last⟩
  · rw [InOrder, (isNew_of_create? hm).pending] at horder
    exact horder
  · obtain ⟨hidle, honly⟩ :=
      (step_any last backend move).startedOf_eq_singleton (mem_startedOf hstarted hkey)
    obtain ⟨current, hall, hfree, -⟩ := hturn
    refine ⟨hidle, ?_, honly⟩
    rw [hall, hfree hidle, List.append_nil]
  · have hstep := step_any last backend move
    refine ⟨hstep.registry_of_ended hended, ?_⟩
    rw [← isRunning_congr _ hkey]
    exact hstep.isRunning_of_ended hended

/-- The premise holds for a runner that is asked twice for a document.  The second
request is started after the job of the first has ended. -/
theorem first_in_first_out_two_requests :
    let key : DocumentKey := ⟨⟨""⟩, ""⟩
    let turn : Turn := ⟨.zero, false⟩
    let backend : Backend := fun _ => some (.returned (.ok .preamble))
    let setup : List Registry.Command := [.putProject "" [], .openDocument key]
    let moves : List Move :=
      [.act (.enqueue .buildPreamble key), .act (.process turn),
        .act (.enqueue .updateAnnotations key), .turn (.job 0) turn]
    ∃ m, create? (.default 1) (Registry.new.run setup) = some m ∧
      Event.started (.make .updateAnnotations key m.registry.view) ∈
        ((m.run backend moves).1.move backend (.act (.process turn))).2 ∧
      startedOf key (m.run backend moves).2 = endedOf key (m.run backend moves).2 := by
  intro key turn backend setup moves
  obtain ⟨m, hm, hstarted⟩ : ∃ m, create? (.default 1) (Registry.new.run setup) = some m ∧
      Event.started (.make .updateAnnotations key m.registry.view) ∈
        ((m.run backend moves).1.move backend (.act (.process turn))).2 :=
    ⟨_, rfl, by decide +kernel⟩
  refine ⟨m, hm, hstarted, ?_⟩
  exact ((first_in_first_out hm backend moves key).2.1 _ _ hstarted key.same_refl).2.1

end Runner

end AnalysisJobs
