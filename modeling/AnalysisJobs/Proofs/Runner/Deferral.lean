import AnalysisJobs.Proofs.Queue.Verdicts
import AnalysisJobs.Proofs.Registry.Display
import AnalysisJobs.Proofs.Runner.Wakeups
/-!
# Requests that wait to be shown

No change of the registry wakes the dispatcher.  A request that was deferred therefore stays
in the queue when the editor shows its document, and the next pass takes it.  Nothing else
becomes dispatchable behind the dispatcher's back: a pass without a bound on its batch leaves
only what is deferred or has a job before it, the end of a job wakes the dispatcher, and a
hidden copy stays hidden until a notification lists its path.
-/

namespace AnalysisJobs.Runner

open Registry

variable {crashes : Prop} {m n : Runner} {backend : Backend} {view : View} {r : Request}
  {key : DocumentKey}

/-- The request could be started at once: it is fresh, its document has no job, and the editor
shows it. -/
structure Dispatchable (m : Runner) (r : Request) : Prop where
  fresh : r.staleness m.registry.view = none
  idle : m.isRunning r.key = false
  shown : r.priority m.registry.view ≠ .hidden

/-! ## What a pass without a bound leaves -/

/-- Whatever waits is for a document that has a job, or is deferred by what `view` shows. -/
def Exhausted (view : View) (m : Runner) : Prop :=
  ∀ r ∈ m.queue.pending, m.isRunning r.key = true ∨ Deferred m.queue.settings view r

theorem exhausted_passOver (hroom : m.queue.settings.maxBatch = none) (turn : Turn) :
    (m.passOver turn).1.Exhausted m.registry.view := by
  obtain ⟨running, ready, heq, hrunning⟩ := passOver_eq m turn
  rw [heq]
  intro r hr
  rcases mem_left_select_cases hr with hfull | (⟨k, hk, -⟩ | ⟨s, hs, hsame⟩) | hbusy | hdeferred
  · rw [hroom] at hfull
    cases hfull
  · cases hk
  · have htaken : (m.nextPass.batch.any fun s => s.key.Same r.key) = true :=
      List.any_eq_true.2 ⟨s, hs, decide_eq_true hsame⟩
    refine .inl ((hrunning r.key).trans ?_)
    rw [htaken, Bool.or_true]
  · refine .inl ((hrunning r.key).trans ?_)
    rw [hbusy, Bool.true_or]
  · exact .inr hdeferred

theorem Exhausted.deferred (h : m.Exhausted view) (hr : r ∈ m.queue.pending)
    (hidle : m.isRunning r.key = false) : Deferred m.queue.settings view r :=
  (h r hr).resolve_left (Bool.eq_false_iff.1 hidle)

theorem Exhausted.congr (h : m.Exhausted view) (hqueue : n.queue = m.queue)
    (hsame : SameJobs m n) : n.Exhausted view := by
  intro r hr
  rw [hqueue] at hr ⊢
  rw [hsame.isRunning]
  exact h r hr

theorem EndsInPass.exhausted (h : EndsInPass crashes m n)
    (hroom : m.queue.settings.maxBatch = none) : n.Exhausted m.registry.view := by
  obtain ⟨events, last, turn, hpasses, hsame⟩ := h
  have hlast := exhausted_passOver (hpasses.settings ▸ hroom) turn
  rw [hpasses.registry] at hlast
  exact hlast.congr hsame.queue hsame.sameJobs

/-- A dispatcher that waits has exhausted the queue, as far as the last pass could see. -/
theorem exhausted_of_idle {settings : Settings} {registry : Registry}
    (hm : create? settings registry = some m) (hroom : settings.maxBatch = none)
    {moves : List Move} (hreturns : CallsReturn backend moves)
    (hopen : Move.act .shutDown ∉ moves)
    (hidle : (m.run backend moves).1.dispatcher = .idle) :
    ∃ seen, m.LastSeen backend moves seen ∧ (m.run backend moves).1.Exhausted seen.view := by
  induction moves using List.reverseRecOn with
  | nil =>
    unfold create? at hm
    split at hm <;> cases hm
    cases hidle
  | append_singleton before move ih =>
    rw [List.mem_append, List.mem_singleton, not_or] at hopen
    obtain ⟨hearlier, hlast⟩ := hreturns.of_concat
    have hmove : move ≠ .act .shutDown := fun hshut => hopen.2 hshut.symm
    have hwatchful := watchful_run hm (by simp [hroom]) hearlier hopen.1
    have hstep := step_move (fun r hr => hreturns.1 r hr) hwatchful.calm fun _ => hlast
    rw [run_concat] at hidle ⊢
    rcases idle_move hwatchful.attentive hwatchful.atWork.isShutDown backend hmove hidle with
      ⟨hbefore, hasked, hnone⟩ | hpass
    · obtain ⟨seen, hseen, hexhausted⟩ := ih hearlier hopen.1 hbefore
      obtain ⟨hqueue, hsame⟩ := hstep.undisturbed hasked hnone hidle
      exact ⟨seen, hseen.concat hnone, hexhausted.congr hqueue hsame⟩
    · have hends : EndsInPass False (m.run backend before).1 _ := endsInPass_move hpass
      exact ⟨_, lastSeen_of_isPass hpass, hends.exhausted (hwatchful.settings ▸ hroom)⟩

/-! ## What becomes visible between passes -/

/-- The caller says that the editor shows the files of a path. -/
def Move.Shows (path : Path) : Move → Prop
  | .act (.command c) => c.Shows path
  | _ => False

theorem Move.not_shows_of_mem_commands {move : Move} {path : Path} (h : ¬ move.Shows path)
    {c : Command} (hc : c ∈ move.commands) : ¬ c.Shows path := by
  unfold Move.commands at hc
  split at hc
  · obtain rfl := List.mem_singleton.1 hc
    exact h
  · cases hc

theorem not_shows_of_lesson {request : Request} {result : Result} {op : Documents.Op}
    (h : lesson request result = some op) (path : Path) : ¬ op.Shows path := by
  unfold lesson at h
  split at h
  · split at h <;> cases h
    exact id
  · cases h
    exact id
  · cases h

theorem hidden_learn {reg : Registry} (h : HiddenCopy key (reg.documents.find? key))
    (request : Request) (result : Result) :
    HiddenCopy key ((learn reg request result).1.documents.find? key) := by
  rw [fst_learn]
  split
  · exact h
  · rename_i op hop
    split
    · refine hidden_after (c := .onDocuments op) h ?_
      rintro ⟨change, hchange, hshows⟩
      obtain rfl := List.mem_singleton.1 hchange
      exact not_shows_of_lesson hop key.path hshows
    · exact h

theorem Step.hidden {move : Move} {events : List Event} (hstep : Step crashes m move events n)
    (h : HiddenCopy key (m.registry.documents.find? key)) (hmove : ¬ move.Shows key.path) :
    HiddenCopy key (n.registry.documents.find? key) := by
  rcases hstep.registry_cases with hrun | ⟨-, e, -, -, result, hlearned⟩
  · rw [hrun]
    exact hidden_run h fun c hc => Move.not_shows_of_mem_commands hmove hc
  · rw [hlearned]
    exact hidden_learn h e.2 result

theorem hidden_moves {moves : List Move} (h : HiddenCopy key (m.registry.documents.find? key))
    (hmoves : ∀ move ∈ moves, ¬ move.Shows key.path) :
    HiddenCopy key ((m.run backend moves).1.registry.documents.find? key) := by
  induction moves generalizing m with
  | nil => exact h
  | cons move rest ih =>
    obtain ⟨hmove, hrest⟩ := List.forall_mem_cons.1 hmoves
    exact ih ((step_any m backend move).hidden h hmove) hrest

/-- A document that a pass saw hidden stays hidden until the caller lists its path. -/
theorem hidden_since_pass {settings : Settings} {setup : List Command}
    (hm : create? settings (new.run setup) = some m) {before after : List Move} {pass : Move}
    (hpass : ∃ e ∈ ((m.run backend before).1.move backend pass).2, e.IsPass)
    (hhidden : r.priority (m.run backend before).1.registry.view = .hidden)
    (hunseen : ∀ move ∈ after, ¬ move.Shows r.key.path) :
    r.priority (m.run backend (before ++ pass :: after)).1.registry.view = .hidden := by
  obtain ⟨commands, hregistry, -⟩ := registry_run m backend before
  rw [registry_of_create? hm, ← Registry.run_append] at hregistry
  have hbefore :
      HiddenCopy r.key ((m.run backend before).1.registry.documents.find? r.key) := by
    rw [hregistry] at hhidden ⊢
    exact hiddenCopy_run (setup ++ commands) hhidden
  have hends : EndsInPass True (m.run backend before).1 _ := endsInPass_move hpass
  rw [← hends.registry] at hbefore
  rw [run_append, run_cons]
  exact (hidden_moves hbefore hunseen).priority

/-! ## The next pass -/

theorem Dispatchable.exists_dispatch (h : m.Dispatchable r) (hr : r ∈ m.queue.pending)
    (hopen : m.isShutDown = false) (hroom : m.queue.settings.maxBatch = none) (turn : Turn) :
    ∃ s ∈ (m.dispatch turn).2.1, s.key.Same r.key := by
  have heligible : m.Eligible r := ⟨hr, h.fresh, fun hdeferred => h.shown hdeferred.2⟩
  rcases heligible.exists_dispatch hopen turn with htaken | hrunning | hfull
  · exact htaken
  · rw [h.idle] at hrunning
    cases hrunning
  · rw [hroom] at hfull
    cases hfull

theorem Dispatchable.congr (h : m.Dispatchable r) (hregistry : n.registry = m.registry)
    (hrunning : n.running = m.running) : n.Dispatchable r where
  fresh := hregistry ▸ h.fresh
  idle := (isRunning_of_running_eq hrunning r.key).trans h.idle
  shown := hregistry ▸ h.shown

theorem add_of_idle (hidle : m.dispatcher = .idle) (request : Request) :
    ∃ ready, m.add request =
      { m with queue := m.queue.add request, dispatcher := .woken, ready := ready } ∧
        Task.dispatcher ∈ ready := by
  have hnotify : m.add request =
      schedule { m with queue := m.queue.add request, dispatcher := .woken } .dispatcher := by
    rw [add, notify, hidle]
  have hmem := mem_ready_schedule
    { m with queue := m.queue.add request, dispatcher := .woken } .dispatcher
  obtain ⟨ready, heq⟩ := schedule_eq
    { m with queue := m.queue.add request, dispatcher := .woken } .dispatcher
  rw [heq] at hnotify hmem
  exact ⟨ready, hnotify, hmem⟩

theorem started_of_woken (hwoken : m.dispatcher = .woken) (hmem : .dispatcher ∈ m.ready)
    (hopen : m.isShutDown = false) (turn : Turn) {s : Request} (hs : s ∈ m.nextPass.batch) :
    .started s ∈ (m.taskTurn backend .dispatcher turn).2 := by
  have hstarted :
      .started s ∈ (dispatch { m with ready := m.ready.erase .dispatcher } turn).2.2 := by
    rw [dispatch_of_not_isShutDown (m := { m with ready := m.ready.erase .dispatcher }) hopen]
    exact List.mem_append_right _ (List.mem_map_of_mem hs)
  rw [taskTurn, if_pos hmem]
  dsimp only
  rw [dispatcherTurn_of_woken (m := { m with ready := m.ready.erase .dispatcher }) hwoken]
  exact List.mem_append_left _ hstarted

/-- Whatever request is added wakes a dispatcher that waits, and in its turn it comes to the
others too. -/
theorem Dispatchable.started_of_add (h : m.Dispatchable r) (hr : r ∈ m.queue.pending)
    (hopen : m.isShutDown = false) (hroom : m.queue.settings.maxBatch = none)
    (hidle : m.dispatcher = .idle) (request : Request) (backend : Backend) (turn : Turn) :
    ∃ s, s.key.Same r.key ∧
      .started s ∈ ((m.add request).taskTurn backend .dispatcher turn).2 := by
  obtain ⟨ready, hadd, hmem⟩ := add_of_idle hidle request
  have hdispatchable : (m.add request).Dispatchable r := by
    rw [hadd]
    exact h.congr rfl rfl
  have hpending : r ∈ (m.add request).queue.pending := by
    rw [hadd]
    exact List.mem_append_left _ hr
  have hstill : (m.add request).isShutDown = false := by rw [hadd, hopen]
  have hunbounded : (m.add request).queue.settings.maxBatch = none := by
    rw [hadd]
    exact hroom
  obtain ⟨s, hs, hsame⟩ := hdispatchable.exists_dispatch hpending hstill hunbounded turn
  rw [requests_dispatch hstill] at hs
  refine ⟨s, hsame, started_of_woken (by rw [hadd]) ?_ hstill turn hs⟩
  rw [hadd]
  exact hmem

/-! ## Runs -/

/-- Where nothing is ready after a run with a dispatcher and no bound on its batches, only what
the editor shows since the last pass makes a request that waits dispatchable: this pass saw its
document hidden and deferred it, and the caller listed its path since.  The next pass starts
something for its document, and it comes at the latest with the next request that is added. -/
theorem dispatchable_only_if_shown_since {settings : Settings} {setup : List Command}
    (hm : create? settings (new.run setup) = some m) (hroom : settings.maxBatch = none)
    {moves : List Move} (hreturns : CallsReturn backend moves)
    (hstarted : Move.act .startDispatcher ∈ moves) (hopen : Move.act .shutDown ∉ moves) :
    let last := (m.run backend moves).1
    last.ready = [] →
      ∃ before pass after, moves = before ++ pass :: after ∧
        (∃ e ∈ ((m.run backend before).1.move backend pass).2, e.IsPass) ∧
        (∀ e ∈ (((m.run backend before).1.move backend pass).1.run backend after).2,
          ¬ e.IsPass) ∧
        ∀ r ∈ last.queue.pending, last.Dispatchable r →
          Deferred settings (m.run backend before).1.registry.view r ∧
            (∃ move ∈ after, move.Shows r.key.path) ∧
            ∀ turn, (∃ s ∈ (last.dispatch turn).2.1, s.key.Same r.key) ∧
              ∀ request, ∃ s, s.key.Same r.key ∧
                .started s ∈ ((last.add request).taskTurn backend .dispatcher turn).2 := by
  intro last hready
  have hwatchful : Watchful settings (Move.act .startDispatcher ∈ moves)
      (m.LastSeen backend moves) last := watchful_run hm (by simp [hroom]) hreturns hopen
  have hidle : last.dispatcher = .idle :=
    hwatchful.attentive.idle_of_ready_eq_nil hstarted hready
  have hstill : last.isShutDown = false := hwatchful.atWork.isShutDown
  have hunbounded : last.queue.settings.maxBatch = none := hwatchful.settings ▸ hroom
  obtain ⟨seen, ⟨before, pass, after, rfl, rfl, hpass, hnone⟩, hexhausted⟩ :=
    exhausted_of_idle hm hroom hreturns hopen hidle
  refine ⟨before, pass, after, rfl, hpass, hnone, fun r hr h => ?_⟩
  have hdeferred : Deferred settings (m.run backend before).1.registry.view r :=
    hwatchful.settings ▸ hexhausted.deferred hr h.idle
  refine ⟨hdeferred, ?_, fun turn => ⟨?_, ?_⟩⟩
  · by_contra hunseen
    push Not at hunseen
    exact h.shown (hidden_since_pass hm hpass hdeferred.2 hunseen)
  · exact h.exists_dispatch hr hstill hunbounded turn
  · exact fun request => h.started_of_add hr hstill hunbounded hidle request backend turn

/-- The premises hold where a request waits for a hidden document when the caller shows it: the
request waits on, and a pass would start a job for its document. -/
theorem dispatchable_only_if_shown_since_one_request :
    let key : DocumentKey := ⟨⟨""⟩, ""⟩
    let turn : Turn := ⟨.zero, false⟩
    let backend : Backend := fun _ => some (.returned (.ok (.completions 0 0)))
    let settings : Settings := { Settings.default 1 with deferHidden := true }
    let moves : List Move :=
      [.act (.command (.putProject "" [])), .act (.command (.openDocument key)),
        .act .startDispatcher, .turn .dispatcher turn, .act (.enqueue .completeCode key),
        .turn .dispatcher turn,
        .act (.command (.showActivity ⟨some key.path, [key.path]⟩))]
    ∃ m, create? settings (new.run []) = some m ∧ CallsReturn backend moves ∧
      let last := (m.run backend moves).1
      last.ready = [] ∧ ∃ r ∈ last.queue.pending, last.Dispatchable r ∧
        (∃ s ∈ (last.dispatch turn).2.1, s.key.Same r.key) ∧
          ∀ request, ∃ s, s.key.Same r.key ∧
            .started s ∈ ((last.add request).taskTurn backend .dispatcher turn).2 := by
  intro key turn backend settings moves
  have hreturns : CallsReturn backend moves :=
    ⟨by simp [backend], by simp [moves, Move.Returns]⟩
  have hm : create? settings (new.run []) = some _ := rfl
  refine ⟨_, hm, hreturns, ?_⟩
  intro last
  have hready : last.ready = [] := by decide +kernel
  obtain ⟨r, hr, hfresh, hidle, hshown⟩ : ∃ r ∈ last.queue.pending,
      r.staleness last.registry.view = none ∧ last.isRunning r.key = false ∧
        r.priority last.registry.view ≠ .hidden := by
    decide +kernel
  have hdispatchable : last.Dispatchable r := ⟨hfresh, hidle, hshown⟩
  obtain ⟨before, pass, after, -, -, -, hall⟩ := dispatchable_only_if_shown_since hm rfl hreturns
    (by simp [moves]) (by simp [moves]) hready
  exact ⟨hready, r, hr, hdispatchable, (hall r hr hdispatchable).2.2 turn⟩

/-- Nothing is ready, no job goes on, and the only request that waits is dispatchable: the last
thing that happened is that the caller showed its document. -/
theorem dispatchable_left_behind :
    let key : DocumentKey := ⟨⟨""⟩, ""⟩
    let turn : Turn := ⟨.zero, false⟩
    let backend : Backend := fun _ => some (.returned (.ok (.completions 0 0)))
    let settings : Settings := { Settings.default 1 with deferHidden := true }
    let moves : List Move :=
      [.act (.command (.putProject "" [])), .act (.command (.openDocument key)),
        .act .startDispatcher, .turn .dispatcher turn, .act (.enqueue .completeCode key),
        .turn .dispatcher turn,
        .act (.command (.showActivity ⟨some key.path, [key.path]⟩))]
    settings.deferHidden = true ∧ settings.maxBatch = none ∧ CallsReturn backend moves ∧
      Move.act .startDispatcher ∈ moves ∧ Move.act .shutDown ∉ moves ∧
        ∃ m, create? settings (new.run []) = some m ∧
          let last := (m.run backend moves).1
          last.ready = [] ∧ last.jobs = [] ∧
            ∃ r ∈ last.queue.pending, last.Dispatchable r := by
  intro key turn backend settings moves
  have hm : create? settings (new.run []) = some _ := rfl
  refine ⟨rfl, rfl, ⟨by simp [backend], by simp [moves, Move.Returns]⟩, by simp [moves],
    by simp [moves], _, hm, ?_⟩
  intro last
  obtain ⟨r, hr, hfresh, hidle, hshown⟩ : ∃ r ∈ last.queue.pending,
      r.staleness last.registry.view = none ∧ last.isRunning r.key = false ∧
        r.priority last.registry.view ≠ .hidden := by
    decide +kernel
  exact ⟨by decide +kernel, by decide +kernel, r, hr, hfresh, hidle, hshown⟩

end AnalysisJobs.Runner
