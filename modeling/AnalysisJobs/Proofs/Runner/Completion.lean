import AnalysisJobs.Proofs.Registry.Stamps
import AnalysisJobs.Proofs.Runner.Accounting
/-!
# What the end of a job changes

A job that ends may mark its document as parsed or as failed, and does so only if
the copy that it ran for is still open.  Between the moment when its request was made
and its end, the registry goes through the commands of the moves and through the
effects of other jobs, and these never open or close a document.
-/

namespace AnalysisJobs

namespace Registry

/-- Of what `reg` holds, only the document of `key` and the count of failures may be
different in `next`. -/
structure ChangesOnly (key : DocumentKey) (reg next : Registry) : Prop where
  projects : next.projects = reg.projects
  buffers : next.buffers = reg.buffers
  keys : next.documents.keys = reg.documents.keys
  find? : ∀ other, ¬ key.Same other → next.documents.find? other = reg.documents.find? other
  counts : ∃ more, more ≤ 1 ∧ next.documents.counts =
    { reg.documents.counts with failures := reg.documents.counts.failures + more }

theorem ChangesOnly.refl (key : DocumentKey) (reg : Registry) : ChangesOnly key reg reg :=
  ⟨rfl, rfl, rfl, fun _ _ => rfl, 0, Nat.zero_le 1, rfl⟩

theorem changesOnly_markParsed (key : DocumentKey) (revision : UInt32) (reg : Registry) :
    ChangesOnly key reg (reg.onDocuments (.markParsed key revision)) where
  projects := rfl
  buffers := rfl
  keys := Documents.keys_modify reg.documents key _
  find? other h := by
    rw [onDocuments, Documents.apply, Documents.find?_markParsed, if_neg h]
  counts := ⟨0, Nat.zero_le 1, rfl⟩

theorem changesOnly_setFailed (key : DocumentKey) (failed : Bool) (reg : Registry) :
    ChangesOnly key reg (reg.onDocuments (.setFailed key failed)) where
  projects := rfl
  buffers := rfl
  keys := Documents.keys_setFailed reg.documents key failed
  find? other h := by
    rw [onDocuments, Documents.apply, Documents.find?_setFailed, if_neg h]
  counts := Documents.counts_setFailed reg.documents key failed

end Registry

namespace Runner

open Registry

variable {crashes : Prop} {m n : Runner}

/-! ## What moves do to the registry -/

/-- The move closes the document or opens it, perhaps again. -/
def Move.Replaces (key : DocumentKey) : Move → Prop
  | .act (.command c) => copyEffect key c ≠ .kept
  | _ => False

theorem Passes.registry {events : List Event} (h : Passes crashes m events n) :
    n.registry = m.registry := by
  induction h with
  | none hsame => exact hsame.registry
  | pass turn hsame _ _ ih =>
    obtain ⟨running, ready, heq, -⟩ := passOver_eq _ turn
    rw [ih, heq]
    exact hsame.registry

theorem fst_learn (reg : Registry) (request : Request) (result : Result) :
    (learn reg request result).1 =
      match lesson request result with
      | none => reg
      | some op =>
        if reg.documents.isOpenSince request.key request.openedAt then reg.onDocuments op
        else reg := by
  unfold learn
  cases lesson request result with
  | none => rfl
  | some op =>
    dsimp only
    split <;> rfl

theorem fst_learn_of_gone {reg : Registry} {request : Request} (result : Result)
    (h : ¬ reg.documents.isOpenSince request.key request.openedAt = true) :
    (learn reg request result).1 = reg := by
  rw [fst_learn]
  split
  · rfl
  · rw [if_neg h]

theorem fst_learn_of_isOpenSince {reg : Registry} {request : Request} (result : Result)
    (h : reg.documents.isOpenSince request.key request.openedAt = true) :
    (learn reg request result).1 =
      match result with
      | .ok _ =>
        if request.kind.producesParse then
          reg.onDocuments (.markParsed request.key request.revision)
        else reg
      | .failed (.parseFailed ..) => reg.onDocuments (.setFailed request.key true)
      | .failed _ => reg := by
  rw [fst_learn]
  cases result with
  | ok output =>
    by_cases hparse : request.kind.producesParse = true
    · simp only [lesson, if_pos hparse, if_pos h]
    · simp only [lesson, if_neg hparse]
  | failed failure =>
    cases failure with
    | parseFailed path message => simp only [lesson, if_pos h]
    | cancelled | backend => rfl

theorem changesOnly_learn (reg : Registry) (request : Request) (result : Result) :
    ChangesOnly request.key reg (learn reg request result).1 := by
  by_cases h : reg.documents.isOpenSince request.key request.openedAt = true
  · rw [fst_learn_of_isOpenSince result h]
    split
    · split
      · exact changesOnly_markParsed request.key request.revision reg
      · exact .refl request.key reg
    · exact changesOnly_setFailed request.key true reg
    · exact .refl request.key reg
  · rw [fst_learn_of_gone result h]
    exact .refl request.key reg

theorem changeEffect_of_lesson {request : Request} {result : Result} {op : Documents.Op}
    (h : lesson request result = some op) (key : DocumentKey) : changeEffect key op = .kept := by
  unfold lesson at h
  split at h
  · split at h <;> cases h
    rfl
  · cases h
    rfl
  · cases h

theorem learn_eq_run (reg : Registry) (request : Request) (result : Result) :
    ∃ commands, (learn reg request result).1 = reg.run commands ∧
      ∀ key, ∀ c ∈ commands, copyEffect key c = .kept := by
  rw [fst_learn]
  split
  · exact ⟨[], rfl, by simp⟩
  · rename_i op hop
    split
    · refine ⟨[.onDocuments op], rfl, fun key c hc => ?_⟩
      obtain rfl := List.mem_singleton.1 hc
      exact changeEffect_of_lesson hop key
    · exact ⟨[], rfl, by simp⟩

theorem registry_conclude (m : Runner) (job : Job) (turn : Turn) (result : Result) :
    (m.conclude job turn result).1.registry = (learn m.registry job.request result).1 := by
  obtain ⟨ready, wakeup, dispatcher, heq⟩ := conclude_eq m job turn result
  rw [heq]

def Move.commands : Move → List Command
  | .act (.command c) => [c]
  | _ => []

theorem Move.replaces_iff {move : Move} {key : DocumentKey} :
    move.Replaces key ↔ ∃ c ∈ move.commands, copyEffect key c ≠ .kept := by
  unfold Move.Replaces Move.commands
  split <;> simp

/-- A move changes the registry by commands of the caller, by what a job that ends learned,
or not at all. -/
theorem Step.registry_cases {move : Move} {events : List Event}
    (hstep : Step crashes m move events n) :
    n.registry = m.registry.run move.commands ∨
      move.commands = [] ∧ ∃ e ∈ m.roster, e ∉ n.roster ∧ ∃ result,
        n.registry = (learn m.registry e.2 result).1 := by
  cases hstep with
  | command | dropReceiver => exact .inl rfl
  | add request hasked hsame =>
    have hnone : move.commands = [] := by
      unfold Move.commands
      split
      · cases hasked
      · rfl
    rw [hnone]
    exact .inl hsame.registry
  | process turn hpasses | finishProcess turn hpasses | dispatcher turn hpasses =>
    exact .inl hpasses.registry
  | job id turn hjob =>
    cases hjob with
    | goesOn hsame | dies _ hsame => exact .inl hsame.registry
    | @ends last job _ turn result hsame _ _ hmem =>
      refine .inr ⟨rfl, (job.id, job.request), hmem, ?_, result, ?_⟩
      · simp [roster_conclude]
      · rw [registry_conclude, hsame.registry]
  | beginProcess hsame | answer _ _ hsame | startDispatcher hsame | shutDown hsame =>
    exact .inl hsame.registry

/-- A move performs commands on the registry, and exactly if it replaces the copy of a
document, one of them does. -/
theorem Step.registry {move : Move} {events : List Event} (hstep : Step crashes m move events n) :
    ∃ commands, n.registry = m.registry.run commands ∧
      ∀ key, (∀ c ∈ commands, copyEffect key c = .kept) ↔ ¬ move.Replaces key := by
  rcases hstep.registry_cases with hrun | ⟨hnone, e, -, -, result, hlearned⟩
  · refine ⟨move.commands, hrun, fun key => ?_⟩
    simp only [Move.replaces_iff, not_exists, not_and, ne_eq, Decidable.not_not]
  · obtain ⟨commands, hrun, hkept⟩ := learn_eq_run m.registry e.2 result
    refine ⟨commands, hlearned.trans hrun, fun key => ⟨fun _ => ?_, fun _ => hkept key⟩⟩
    simp [Move.replaces_iff, hnone]

theorem registry_run (m : Runner) (backend : Backend) (moves : List Move) :
    ∃ commands, (m.run backend moves).1.registry = m.registry.run commands ∧
      ∀ key, (∀ c ∈ commands, copyEffect key c = .kept) ↔
        ∀ move ∈ moves, ¬ move.Replaces key := by
  induction moves generalizing m with
  | nil => exact ⟨[], rfl, by simp⟩
  | cons move rest ih =>
    obtain ⟨first, hfirst, hmove⟩ := (step_any m backend move).registry
    obtain ⟨second, hsecond, hrest⟩ := ih (m.move backend move).1
    refine ⟨first ++ second, ?_, fun key => ?_⟩
    · rw [run_cons, hsecond, hfirst, Registry.run_append]
    · rw [List.forall_mem_append, List.forall_mem_cons, hmove, hrest]

theorem copyStamp_run_of_kept (m : Runner) (backend : Backend) {key : DocumentKey}
    {moves : List Move} (h : ∀ move ∈ moves, ¬ move.Replaces key) :
    copyStamp key (m.run backend moves).1.registry = copyStamp key m.registry := by
  obtain ⟨commands, hrun, hreplaces⟩ := registry_run m backend moves
  rw [hrun]
  refine (tracked_copy key).run_kept ?_
  rw [effects_of_forall, List.forall_mem_map]
  exact (hreplaces key).2 h

theorem isOpen_run_of_kept (m : Runner) (backend : Backend) {key : DocumentKey}
    {moves : List Move} (h : ∀ move ∈ moves, ¬ move.Replaces key) :
    (m.run backend moves).1.registry.documents.isOpen key = m.registry.documents.isOpen key := by
  rw [← isSome_copyStamp, copyStamp_run_of_kept m backend h, isSome_copyStamp]

/-- At any point of a run a document is open since a snapshot exactly if it was open then
and no move since has replaced its copy. -/
theorem isOpenSince_run_iff {settings : Settings} {setup : List Command}
    (hm : create? settings (new.run setup) = some m) (backend : Backend)
    (before after : List Move) (key : DocumentKey)
    (hclock : ((m.run backend before).1.run backend after).1.registry.clock.taken <
      UInt64.size) :
    ((m.run backend before).1.run backend after).1.registry.documents.isOpenSince key
        ((copyStamp key (m.run backend before).1.registry).getD .origin) = true ↔
      (m.run backend before).1.registry.documents.isOpen key = true ∧
        ∀ move ∈ after, ¬ move.Replaces key := by
  obtain ⟨commands, hasked, -⟩ := registry_run m backend before
  obtain ⟨later, hnow, hreplaces⟩ := registry_run (m.run backend before).1 backend after
  rw [registry_of_create? hm, ← Registry.run_append] at hasked
  rw [hnow, hasked] at hclock ⊢
  rw [isOpenSince_iff hclock, hreplaces]

/-! ## Moves that end a job -/

theorem Passes.ended_eq_nil {events : List Event} (h : Passes crashes m events n) :
    events.filterMap Event.ended? = [] := by
  induction h with
  | none _ hquiet => exact filterMap_quiet seesFates_ended hquiet
  | pass turn _ hquiet _ ih =>
    rw [List.filterMap_append, List.filterMap_append, filterMap_quiet seesFates_ended hquiet,
      ended_passOver, ih]
    rfl

/-- A move that tells of the end of a job is a turn of this job. -/
theorem Step.conclude_of_ended {move : Move} {events : List Event}
    (hstep : Step crashes m move events n) {request : Request} {elapsed : Duration}
    {result : Result} (hended : Event.ended request elapsed result ∈ events) :
    ∃ l job turn given, move = .turn (.job job.id) given ∧
      (job.id, job.request) ∈ m.roster ∧ job.request = request ∧ SameWork crashes m l ∧
      n = (l.conclude job turn result).1 := by
  have hmem : (request, elapsed, result) ∈ events.filterMap Event.ended? :=
    List.mem_filterMap.2 ⟨_, hended, rfl⟩
  have hnot {events : List Event} (hquiet : ∀ e ∈ events, e.Quiet)
      (h : Event.ended request elapsed result ∈ events) : False := hquiet _ h
  cases hstep with
  | command c => exact (hnot (m.registry.quiet_events c) hended).elim
  | process turn hpasses | finishProcess turn hpasses | dispatcher turn hpasses =>
    rw [hpasses.ended_eq_nil] at hmem
    cases hmem
  | job id given hjob =>
    cases hjob with
    | goesOn _ hquiet | dies _ _ hquiet => exact (hnot hquiet hended).elim
    | @ends l job events turn result' hsame hquiet hid hroster =>
      rw [List.filterMap_append, filterMap_quiet seesFates_ended hquiet, ended_conclude,
        List.nil_append, List.mem_singleton] at hmem
      obtain ⟨rfl, rfl, rfl⟩ : request = job.request ∧ elapsed = turn.elapsed ∧
          result = result' := by simpa using hmem
      exact ⟨l, job, turn, given, hid ▸ rfl, hroster, rfl, hsame, rfl⟩
  | add => simp at hended
  | shutDown =>
    split at hended <;> simp at hended
  | beginProcess | answer | startDispatcher | dropReceiver => cases hended

theorem Step.registry_of_ended {move : Move} {events : List Event}
    (hstep : Step crashes m move events n) {request : Request} {elapsed : Duration}
    {result : Result} (hended : Event.ended request elapsed result ∈ events) :
    n.registry = (learn m.registry request result).1 := by
  obtain ⟨l, job, turn, given, -, -, rfl, hsame, rfl⟩ := hstep.conclude_of_ended hended
  rw [registry_conclude, hsame.registry]

theorem Step.isRunning_of_ended {move : Move} {events : List Event}
    (hstep : Step crashes m move events n) {request : Request} {elapsed : Duration}
    {result : Result} (hended : Event.ended request elapsed result ∈ events) :
    n.isRunning request.key = false := by
  obtain ⟨l, job, turn, given, -, -, rfl, -, rfl⟩ := hstep.conclude_of_ended hended
  refine Bool.eq_false_iff.2 fun hbusy => ?_
  exact ((isRunning_conclude l job turn result job.request.key).1 hbusy).2 job.request.key.same_refl

/-- The end of a job whose request was made in this run teaches the registry only if
the copy of the document that was open then has been open since, and what it teaches
is about this document alone. -/
theorem end_of_job {settings : Settings} {setup : List Command}
    (hm : create? settings (new.run setup) = some m) (backend : Backend)
    (before after : List Move) (move : Move) (kind : Kind) (key : DocumentKey)
    (line column : UInt32) (ticket : UInt64) {elapsed : Duration} {result : Result} :
    let asked := (m.run backend before).1
    let now := (asked.run backend after).1
    let last := (now.move backend move).1
    let request := (Request.make kind key asked.registry.view).withPosition line column ticket
    let isSameCopy := asked.registry.documents.isOpen key = true ∧
      ∀ move ∈ after, ¬ move.Replaces key
    now.registry.clock.taken < UInt64.size →
    Event.ended request elapsed result ∈ (now.move backend move).2 →
      (¬ isSameCopy → last.registry = now.registry) ∧
      (isSameCopy → last.registry =
        match result with
        | .ok _ =>
          if kind.producesParse then
            now.registry.onDocuments (.markParsed key request.revision)
          else now.registry
        | .failed (.parseFailed ..) => now.registry.onDocuments (.setFailed key true)
        | .failed _ => now.registry) ∧
      now.registry.ChangesOnly key last.registry := by
  intro asked now last request isSameCopy hclock hended
  have hlearned : last.registry = (learn now.registry request result).1 :=
    (step_any now backend move).registry_of_ended hended
  obtain ⟨commands, hasked, -⟩ := registry_run m backend before
  obtain ⟨later, hnow, hreplaces⟩ := registry_run asked backend after
  rw [registry_of_create? hm, ← Registry.run_append] at hasked
  have hsince : now.registry.documents.isOpenSince key request.openedAt = true ↔
      isSameCopy := by
    rw [hnow, hasked] at hclock
    have hiff := isOpenSince_iff hclock key
    rw [← hasked, ← hnow, hreplaces] at hiff
    exact hiff
  refine ⟨fun hnot => ?_, fun hsame => ?_, ?_⟩
  · exact hlearned.trans (fst_learn_of_gone result (mt hsince.1 hnot))
  · exact hlearned.trans (fst_learn_of_isOpenSince result (hsince.2 hsame))
  · rw [hlearned]
    exact changesOnly_learn now.registry request result

/-- The premises hold where the preamble of a document is built while the document
stays open, and then the document counts as parsed. -/
theorem end_of_job_preamble_built :
    let key : DocumentKey := ⟨⟨""⟩, ""⟩
    let turn : Turn := ⟨.zero, false⟩
    let backend : Backend := fun _ => some (.returned (.ok .preamble))
    let setup : List Command := [.putProject "" [], .openDocument key]
    let after : List Move := [.act (.enqueue .buildPreamble key), .act (.process turn)]
    ∃ m, create? (.default 1) (new.run setup) = some m ∧
      (m.run backend after).1.registry.clock.taken < UInt64.size ∧
      Event.ended (.make .buildPreamble key m.registry.view) .zero (.ok .preamble) ∈
        ((m.run backend after).1.move backend (.turn (.job 0) turn)).2 ∧
      ((m.run backend after).1.move backend (.turn (.job 0) turn)).1.registry =
        (m.run backend after).1.registry.onDocuments
          (.markParsed key (Request.make .buildPreamble key m.registry.view).revision) := by
  intro key turn backend setup after
  obtain ⟨m, hm, hclock, hended⟩ : ∃ m, create? (.default 1) (new.run setup) = some m ∧
      (m.run backend after).1.registry.clock.taken < UInt64.size ∧
      Event.ended (.make .buildPreamble key m.registry.view) .zero (.ok .preamble) ∈
        ((m.run backend after).1.move backend (.turn (.job 0) turn)).2 :=
    ⟨_, rfl, by decide +kernel, by decide +kernel⟩
  have hopen : m.registry.documents.isOpen key = true := by
    rw [registry_of_create? hm]
    decide
  refine ⟨m, hm, hclock, hended, ?_⟩
  exact (end_of_job hm backend [] after (.turn (.job 0) turn) .buildPreamble key 0 0 0
    hclock hended).2.1 ⟨hopen, by simp [after, Move.Replaces]⟩

end Runner

end AnalysisJobs
