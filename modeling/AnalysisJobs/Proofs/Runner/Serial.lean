import AnalysisJobs.Proofs.Runner.Accounting
/-!
# No document has two jobs

The table of running documents has a document exactly while a job for it goes on.
For the order of events this means that jobs for one document follow each other:
whenever one is started, every earlier one has ended.  `Serial` says so of the
events of a step, counting the jobs that the step begins with, and the balance of
the step carries the count to the next one.
-/

namespace AnalysisJobs

def startedFor (key : DocumentKey) (events : List Event) : Nat :=
  (events.filterMap Event.started?).countP fun r => r.key.Same key

def endedFor (key : DocumentKey) (events : List Event) : Nat :=
  (events.filterMap Event.ended?).countP fun e => e.1.key.Same key

theorem startedFor_append (key : DocumentKey) (before after : List Event) :
    startedFor key (before ++ after) = startedFor key before + startedFor key after := by
  rw [startedFor, List.filterMap_append, List.countP_append, startedFor, startedFor]

theorem endedFor_append (key : DocumentKey) (before after : List Event) :
    endedFor key (before ++ after) = endedFor key before + endedFor key after := by
  rw [endedFor, List.filterMap_append, List.countP_append, endedFor, endedFor]

namespace Runner

variable {crashes : Prop} {m n : Runner}

def inFlightFor (m : Runner) (key : DocumentKey) : Nat :=
  m.inFlight.countP fun r => r.key.Same key

/-- Whenever a job is started, those for its document that `m` has and those that
were started before have ended. -/
def Serial (m : Runner) (events : List Event) : Prop :=
  ∀ before request after, events = before ++ .started request :: after →
    m.inFlightFor request.key + startedFor request.key before = endedFor request.key before

theorem Flow.inFlightFor {asked : List Request} {events : List Event} (h : Flow m asked events n)
    (key : DocumentKey) : m.inFlightFor key + startedFor key events =
      n.inFlightFor key + endedFor key events := by
  have hcarried := h.carried.countP_eq fun r => r.key.Same key
  rw [List.countP_append, List.countP_append, List.countP_map] at hcarried
  exact hcarried

theorem Serial.append {l : Runner} {asked : List Request} {first second : List Event}
    (hfirst : Serial l first) (hflow : Flow l asked first m) (hsecond : Serial m second) :
    Serial l (first ++ second) := by
  intro before request after hsplit
  rcases List.append_eq_append_iff.1 hsplit with ⟨middle, rfl, hlater⟩ | ⟨middle, rfl, hearlier⟩
  · have hbalance := hflow.inFlightFor request.key
    have hstart := hsecond middle request after hlater
    rw [startedFor_append, endedFor_append]
    omega
  · cases middle with
    | nil =>
      -- the start is the first event of the second part
      rw [List.append_nil] at hflow
      have hbalance := hflow.inFlightFor request.key
      have hstart := hsecond [] request after hearlier.symm
      simp only [startedFor, endedFor, List.filterMap_nil, List.countP_nil] at hstart hbalance ⊢
      omega
    | cons e middle =>
      obtain ⟨rfl, rfl⟩ := List.cons.inj hearlier
      exact hfirst before request middle rfl

theorem serial_of_started_eq_nil {events : List Event}
    (h : events.filterMap Event.started? = []) : Serial m events := by
  intro before request after hsplit
  rw [hsplit, List.filterMap_append] at h
  simp [Event.started?] at h

theorem serial_of_quiet {events : List Event} (hquiet : ∀ e ∈ events, e.Quiet) :
    Serial m events :=
  serial_of_started_eq_nil (filterMap_quiet seesFates_started hquiet)

theorem Exclusive.serial_passOver (h : m.Exclusive crashes) (turn : Turn) :
    Serial m (m.passOver turn).2.2 := by
  intro before request after hsplit
  have hbatch : m.nextPass.batch = before.filterMap Event.started? ++
      request :: after.filterMap Event.started? := by
    rw [← started_passOver m turn, hsplit, List.filterMap_append]
    rfl
  have hmem : request ∈ m.nextPass.batch := by
    rw [hbatch]
    exact List.mem_append_right _ List.mem_cons_self
  have hidle : m.inFlightFor request.key = 0 := by
    refine List.countP_eq_zero.2 fun r hr hsame => ?_
    obtain ⟨j, hj, rfl⟩ := List.mem_map.1 hr
    have hrunning := h.isRunning_of_mem (j.id, j.request) (List.mem_map_of_mem hj)
    rw [isRunning_congr m (of_decide_eq_true hsame), Queue.not_running_of_mem_batch hmem]
      at hrunning
    cases hrunning
  have hstarted : startedFor request.key before = 0 := by
    refine List.countP_eq_zero.2 fun r hr hsame => ?_
    have hpairwise := Queue.pairwise_batch m.queue m.registry.view m.isRunning
    rw [show (m.queue.pass m.registry.view m.isRunning).batch = _ from hbatch] at hpairwise
    exact (List.pairwise_append.1 hpairwise).2.2 r hr request List.mem_cons_self
      (of_decide_eq_true hsame)
  have hended : endedFor request.key before = 0 := by
    have hnone := ended_passOver m turn
    rw [hsplit, List.filterMap_append, List.append_eq_nil_iff] at hnone
    rw [endedFor, hnone.1, List.countP_nil]
  rw [hidle, hstarted, hended]

theorem Passes.serial {events : List Event} (hpasses : Passes crashes m events n)
    (h : m.Exclusive crashes) : Serial m events := by
  induction hpasses with
  | none _ hquiet => exact serial_of_quiet hquiet
  | pass turn hsame hquiet _ ih =>
    have hexclusive := h.of_sameWork hsame
    have hfirst := (serial_of_quiet hquiet).append (hsame.flow hquiet)
      (hexclusive.serial_passOver turn)
    exact hfirst.append ((hsame.flow hquiet).append (flow_passOver _ turn))
      (ih (hexclusive.passOver turn))

theorem Step.serial {move : Move} {events : List Event} (hstep : Step crashes m move events n)
    (h : m.Exclusive crashes) : Serial m events := by
  rcases hstep.passes_or_passive with hpasses | hpassive
  · exact hpasses.serial h
  · exact serial_of_started_eq_nil
      (List.filterMap_eq_nil_iff.2 fun e he => (hpassive e he).2)

/-! ## Runs -/

/-- Jobs that go on at the same time are for different documents, a document is in
the table exactly while a job for it has not ended, and none is started for it
before all earlier ones ended. -/
theorem one_job_per_document {settings : Settings} {registry : Registry}
    (hm : create? settings registry = some m) {backend : Backend} {moves : List Move}
    (hreturns : CallsReturn backend moves) :
    let events := (m.run backend moves).2
    let last := (m.run backend moves).1
    (last.jobs.Pairwise fun i j => ¬ i.request.key.Same j.request.key) ∧
      (∀ key, last.isRunning key = true ↔ ∃ j ∈ last.jobs, j.request.key.Same key) ∧
      (∀ key, last.isRunning key = true ↔ endedFor key events < startedFor key events) ∧
      ∀ before request after, events = before ++ .started request :: after →
        startedFor request.key before = endedFor request.key before := by
  intro events last
  have hnew := isNew_of_create? hm
  have hidle (key : DocumentKey) : m.inFlightFor key = 0 := by
    rw [inFlightFor, inFlight, hnew.jobs]
    rfl
  obtain ⟨hexclusive, hflow, hserial⟩ : last.Exclusive False ∧
      Flow m (m.requested backend moves) events last ∧ Serial m events := by
    have hcalm : m.Calm False := calm_of_jobs_eq_nil hnew.jobs
    refine run_induction
      (P := fun before events n => n.Exclusive False ∧
        Flow m (m.requested backend before) events n ∧ Serial m events)
      (fun _ => hreturns) hcalm ?_ ?_
    · exact ⟨exclusive_of_isNew hnew, flow_refl m, serial_of_quiet (by simp)⟩
    · rintro before events n move more last hn ⟨hexclusive, hflow, hserial⟩ hstep
      exact ⟨hstep.exclusive hexclusive, hstep.flow_run hn hflow hexclusive,
        hserial.append hflow (hstep.serial hexclusive)⟩
  have hrunning (key : DocumentKey) :
      last.isRunning key = true ↔ ∃ j ∈ last.jobs, j.request.key.Same key := by
    constructor
    · intro hkey
      obtain ⟨e, he, hsame⟩ := (hexclusive.exists_mem key hkey).resolve_left id
      obtain ⟨j, hj, rfl⟩ := List.mem_map.1 he
      exact ⟨j, hj, hsame⟩
    · rintro ⟨j, hj, hsame⟩
      rw [← isRunning_congr last hsame]
      exact hexclusive.isRunning_of_mem (j.id, j.request) (List.mem_map_of_mem hj)
  refine ⟨?_, hrunning, fun key => ?_, fun before request after hsplit => ?_⟩
  · exact (List.pairwise_map.1 hexclusive.apart).imp fun h => h.2
  · have hbalance := hflow.inFlightFor key
    rw [hidle, Nat.zero_add] at hbalance
    rw [hrunning, hbalance, inFlightFor, inFlight, List.countP_map]
    have hpos : 0 < last.jobs.countP ((fun r => r.key.Same key) ∘ Job.request) ↔
        ∃ j ∈ last.jobs, j.request.key.Same key := by
      simp [List.countP_pos_iff]
    rw [← hpos]
    omega
  · have hstart := hserial before request after hsplit
    rwa [hidle, Nat.zero_add] at hstart

/-- The premises hold where one of two requests for a document has a job whose call
goes on, and its document is in the table. -/
theorem one_job_per_document_call_going_on :
    let key : DocumentKey := ⟨⟨""⟩, ""⟩
    let turn : Turn := ⟨.zero, false⟩
    let backend : Backend := fun _ => none
    let moves : List Move :=
      [.act (.command (.putProject "" [])), .act (.command (.openDocument key)),
        .act (.enqueue .buildPreamble key), .act (.process turn), .turn (.job 0) turn,
        .act (.enqueue .updateAnnotations key), .act (.process turn)]
    ∃ m, create? (.default 1) .new = some m ∧ CallsReturn backend moves ∧
      (m.run backend moves).1.isRunning key = true := by
  intro key turn backend moves
  have hreturns : CallsReturn backend moves :=
    ⟨by simp [backend], by simp [moves, Move.Returns]⟩
  have hm : create? (.default 1) .new = some _ := rfl
  refine ⟨_, hm, hreturns, ?_⟩
  rw [(one_job_per_document hm hreturns).2.2.1 key]
  decide +kernel

end Runner

end AnalysisJobs
