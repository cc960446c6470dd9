import AnalysisJobs.Proofs.Runner.Passes
import Mathlib.Data.List.Induction
/-!
# No wake-up is lost

The dispatcher waits only after a pass, and a pass leaves nothing behind that somebody else
will not come back to: a request beyond the batch or for a busy document has a job before
it, and the end of this job wakes the dispatcher.  Hidden documents alone have to wait for
the next occasion.  `Watchful` is this invariant; it holds from the start, because a
wake-up that comes too early is remembered and the dispatcher begins with it.
-/

namespace AnalysisJobs

namespace Runner

variable {crashes : Prop} {m n : Runner} {backend : Backend}

/-- The runner was not shut down, its passes may take something and its calls return. -/
structure AtWork (m : Runner) : Prop where
  isShutDown : m.isShutDown = false
  maxBatch : m.queue.settings.maxBatch ≠ some 0
  exclusive : m.Exclusive False

theorem AtWork.of_step (h : m.AtWork) {move : Move} {events : List Event}
    (hstep : Step False m move events n) (hmove : move ≠ .act .shutDown) : n.AtWork where
  isShutDown := (hstep.isShutDown hmove).trans h.isShutDown
  maxBatch := by
    rw [hstep.settings]
    exact h.maxBatch
  exclusive := hstep.exclusive h.exclusive

/-! ## What a pass leaves -/

/-- Unless a job goes on, every request that waits is for a document that `view` hides, and
such requests are deferred. -/
def Settled (view : View) (m : Runner) : Prop :=
  m.jobs = [] → ∀ r ∈ m.queue.pending,
    m.queue.settings.deferHidden = true ∧ r.priority view = .hidden

theorem AtWork.settled_passOver (h : m.AtWork) (turn : Turn) :
    (m.passOver turn).1.Settled m.registry.view := by
  obtain ⟨running, ready, heq, -⟩ := passOver_eq m turn
  rw [heq]
  intro hjobs r hr
  obtain ⟨hold, hnew⟩ := List.append_eq_nil_iff.1 hjobs
  have hbatch : m.nextPass.batch = [] := by
    rw [← map_request_newJobs m.spawned m.nextPass.batch, hnew, List.map_nil]
  rcases of_mem_left_select h.maxBatch hbatch hr with hrunning | hhidden
  · obtain ⟨e, he, -⟩ := (h.exclusive.exists_mem r.key hrunning).resolve_left id
    rw [roster, hold] at he
    cases he
  · exact hhidden

theorem Settled.congr {view : View} (h : m.Settled view) (hqueue : n.queue = m.queue)
    (hroster : n.roster = m.roster) : n.Settled view := by
  intro hjobs
  rw [hqueue]
  apply h
  rw [roster, hjobs] at hroster
  exact List.map_eq_nil_iff.1 hroster.symm

theorem EndsInPass.settled (h : EndsInPass False m n) (hwork : m.AtWork) :
    n.Settled m.registry.view := by
  obtain ⟨events, last, turn, hpasses, hsame⟩ := h
  have hlast := (hwork.of_step (.finishProcess turn hpasses) (by simp)).settled_passOver turn
  rw [hpasses.registry] at hlast
  exact hlast.congr hsame.queue hsame.roster

/-! ## Turns of the dispatcher -/

theorem idle_dispatcherRound (hopen : m.isShutDown = false) (turn : Turn) :
    (m.dispatcherRound turn).1.dispatcher = .idle := by
  rw [dispatcherRound, if_neg (by simp [hopen])]

theorem pass_dispatcherTurn (hopen : m.isShutDown = false)
    (hwork : m.dispatcher = .woken ∨ m.dispatcher = .starting ∧ m.wakeup = true)
    (turn : Turn) :
    (m.dispatcherTurn turn).1.dispatcher = .idle ∧
      ∃ e ∈ (m.dispatcherTurn turn).2, e.IsPass := by
  rcases hwork with hwoken | ⟨hstarting, hwakeup⟩
  · rw [dispatcherTurn_of_woken hwoken]
    have hstill : (m.dispatch turn).1.isShutDown = false :=
      (passes_dispatch m turn : Passes False _ _ _).isShutDown.trans hopen
    obtain ⟨e, he, hpass⟩ := exists_isPass_dispatch hopen turn
    exact ⟨idle_dispatcherRound hstill turn, e, List.mem_append_left _ he, hpass⟩
  · unfold dispatcherTurn
    rw [hstarting]
    obtain ⟨e, he, hpass⟩ := exists_isPass_passOver { m with wakeup := false } turn
    refine ⟨idle_dispatcherRound hopen turn, e, List.mem_cons_of_mem _ ?_, hpass⟩
    rw [dispatcherRound_of_wakeup hopen hwakeup]
    exact he

/-! ## Moves -/

theorem dispatcher_conclude_ne_idle (m : Runner) (job : Job) (turn : Turn) (result : Result) :
    (m.conclude job turn result).1.dispatcher ≠ .idle := dispatcher_notify_ne_idle _

/-- Only a new request, a pass or the end of a job changes what waits and what goes on, and the
dispatcher does not wait after the first and the last. -/
theorem Step.undisturbed {move : Move} {events : List Event}
    (hstep : Step False m move events n) (hasked : m.asked move = [])
    (hnone : ∀ e ∈ events, ¬ e.IsPass) (hidle : n.dispatcher = .idle) :
    n.queue = m.queue ∧ SameJobs m n := by
  cases hstep with
  | command c | dropReceiver => exact ⟨rfl, rfl, rfl, rfl⟩
  | add request hrequest =>
    rw [hasked] at hrequest
    cases hrequest
  | process turn hpasses | finishProcess turn hpasses | dispatcher turn hpasses =>
    obtain ⟨hsame, -⟩ := hpasses.sameWork_of_no_pass hnone
    exact ⟨hsame.queue, hsame.sameJobs⟩
  | job id turn hjob =>
    cases hjob with
    | goesOn hsame => exact ⟨hsame.queue, hsame.sameJobs⟩
    | ends _ turn result => exact absurd hidle (dispatcher_conclude_ne_idle _ _ turn result)
    | dies hcrash => exact hcrash.elim
  | beginProcess hsame | answer _ _ hsame | startDispatcher hsame =>
    exact ⟨hsame.queue, hsame.sameJobs⟩
  | shutDown hsame => exact ⟨hsame.queue, hsame.roster, hsame.running, hsame.spawned⟩

/-! ## The dispatcher is attentive -/

/-- A dispatcher that was started, or has something to do, is going to have a turn. -/
structure Attentive (started : Prop) (m : Runner) : Prop where
  absent : m.dispatcher = .absent → ¬ started
  starting : m.dispatcher = .starting → Task.dispatcher ∈ m.ready ∧ m.wakeup = true
  woken : m.dispatcher = .woken → Task.dispatcher ∈ m.ready
  not_stopped : m.dispatcher ≠ .stopped

variable {started : Prop}

theorem attentive_of_idle (h : m.dispatcher = .idle) : m.Attentive started := by
  constructor <;> rw [h]
  all_goals simp

theorem Attentive.of_rouses (h : m.Attentive started) (hrouses : Rouses m n) :
    n.Attentive started := by
  rcases hrouses.dispatcher with hsame | ⟨-, hwoken, hready⟩
  · constructor <;> rw [hsame]
    · exact h.absent
    · exact fun hstarting => ⟨hrouses.ready (h.starting hstarting).1,
        hrouses.wakeup (h.starting hstarting).2⟩
    · exact fun hwoken => hrouses.ready (h.woken hwoken)
    · exact h.not_stopped
  · constructor <;> rw [hwoken]
    · exact fun hnot => Dispatcher.noConfusion hnot
    · exact fun hnot => Dispatcher.noConfusion hnot
    · exact fun _ => hready
    · exact Dispatcher.noConfusion

theorem Attentive.idle_of_ready_eq_nil (h : m.Attentive started) (hstarted : started)
    (hready : m.ready = []) : m.dispatcher = .idle := by
  have hnone : Task.dispatcher ∉ m.ready := by simp [hready]
  cases hdispatcher : m.dispatcher with
  | absent => exact absurd hstarted (h.absent hdispatcher)
  | starting => exact absurd (h.starting hdispatcher).1 hnone
  | idle => rfl
  | woken => exact absurd (h.woken hdispatcher) hnone
  | stopped => exact absurd hdispatcher h.not_stopped

theorem notify_of_ne_idle (h : m.dispatcher ≠ .idle) : m.notify = { m with wakeup := true } := by
  unfold notify
  split
  · contradiction
  · rfl

theorem Attentive.startDispatcher (h : m.Attentive started) :
    m.startDispatcher.Attentive True := by
  unfold Runner.startDispatcher
  split
  · rw [notify_of_ne_idle (by simp)]
    constructor <;> simp [mem_ready_schedule]
  · rename_i habsent
    exact ⟨fun hnone => absurd hnone habsent, h.starting, h.woken, h.not_stopped⟩

theorem idle_of_startDispatcher (h : m.startDispatcher.dispatcher = .idle) :
    m.dispatcher = .idle := by
  unfold startDispatcher at h
  split at h
  · rw [notify_of_ne_idle (by simp)] at h
    simp at h
  · exact h

theorem Attentive.cases_dispatcher (h : m.Attentive started) :
    (m.dispatcher = .absent ∨ m.dispatcher = .idle) ∨
      (m.dispatcher = .woken ∨ m.dispatcher = .starting ∧ m.wakeup = true) := by
  cases hdispatcher : m.dispatcher with
  | absent | idle | woken => simp
  | starting => exact .inr (.inr ⟨rfl, (h.starting hdispatcher).2⟩)
  | stopped => exact absurd hdispatcher h.not_stopped

theorem dispatcherTurn_of_nothing (h : m.dispatcher = .absent ∨ m.dispatcher = .idle)
    (turn : Turn) : m.dispatcherTurn turn = (m, []) := by
  unfold dispatcherTurn
  rcases h with h | h <;> rw [h]

theorem Attentive.turn (h : m.Attentive started) (hopen : m.isShutDown = false)
    (backend : Backend) (turn : Turn) :
    (m.taskTurn backend .dispatcher turn).1.Attentive started ∧
      ((m.taskTurn backend .dispatcher turn).1.dispatcher = .idle →
        m.dispatcher = .idle ∧ (∀ e ∈ (m.taskTurn backend .dispatcher turn).2, ¬ e.IsPass) ∨
          ∃ e ∈ (m.taskTurn backend .dispatcher turn).2, e.IsPass) := by
  unfold taskTurn
  split
  · dsimp only
    rcases h.cases_dispatcher with hnothing | hwoken
    · rw [dispatcherTurn_of_nothing (m := { m with ready := m.ready.erase .dispatcher }) hnothing]
      refine ⟨?_, fun hidle => .inl ⟨hidle, by simp⟩⟩
      rcases hnothing with habsent | hidle
      · refine ⟨h.absent, fun hnot => ?_, fun hnot => ?_, h.not_stopped⟩ <;>
          exact Dispatcher.noConfusion (habsent.symm.trans hnot)
      · exact attentive_of_idle hidle
    · obtain ⟨hidle, hpass⟩ := pass_dispatcherTurn
        (m := { m with ready := m.ready.erase .dispatcher }) hopen hwoken turn
      exact ⟨attentive_of_idle hidle, fun _ => .inr hpass⟩
  · exact ⟨h, fun hidle => .inl ⟨hidle, by simp⟩⟩

theorem Attentive.mono {started' : Prop} (h : m.Attentive started)
    (himp : started' → started) : m.Attentive started' :=
  ⟨fun habsent hstarted => h.absent habsent (himp hstarted), h.starting, h.woken, h.not_stopped⟩

theorem attentive_move (h : m.Attentive started) (hopen : m.isShutDown = false)
    (backend : Backend) {move : Move} (hmove : move ≠ .act .shutDown) :
    (m.move backend move).1.Attentive (started ∨ move = .act .startDispatcher) := by
  have hother (hnot : move ≠ .act .startDispatcher)
      (hkept : (m.move backend move).1.Attentive started) :
      (m.move backend move).1.Attentive (started ∨ move = .act .startDispatcher) :=
    hkept.mono fun hor => hor.resolve_right hnot
  have hleaves (hleave : move.LeavesDispatcher) (hnot : move ≠ .act .startDispatcher) :=
    hother hnot (h.of_rouses (rouses_move m backend hleave).1)
  cases move with
  | act a =>
    cases a with
    | process turn => exact hother (by simp) (h.of_rouses (changes_dispatch m turn).rouses)
    | finishProcess turn => exact hother (by simp) (h.of_rouses (rouses_finishProcess m turn))
    | startDispatcher => exact h.startDispatcher.mono fun _ => trivial
    | shutDown => exact absurd rfl hmove
    | command | add | enqueue | beginProcess | answer | dropReceiver =>
      exact hleaves trivial (by simp)
  | turn task turn =>
    cases task with
    | job id => exact hleaves trivial (by simp)
    | dispatcher => exact hother (by simp) (h.turn hopen backend turn).1

/-- The dispatcher waits after a move if it waited before and nothing came up, or because
the queue has just been passed over. -/
theorem idle_move (h : m.Attentive started) (hopen : m.isShutDown = false) (backend : Backend)
    {move : Move} (hmove : move ≠ .act .shutDown)
    (hidle : (m.move backend move).1.dispatcher = .idle) :
    (m.dispatcher = .idle ∧ m.asked move = [] ∧
        ∀ e ∈ (m.move backend move).2, ¬ e.IsPass) ∨
      ∃ e ∈ (m.move backend move).2, e.IsPass := by
  have hleaves (hleave : move.LeavesDispatcher) (hasked : m.asked move = []) :
      m.dispatcher = .idle ∧ m.asked move = [] ∧
        ∀ e ∈ (m.move backend move).2, ¬ e.IsPass := by
    obtain ⟨hrouses, hnone⟩ := rouses_move m backend hleave
    exact ⟨hrouses.idle hidle, hasked, hnone⟩
  cases move with
  | act a =>
    cases a with
    | process turn => exact .inr (exists_isPass_dispatch hopen turn)
    | finishProcess turn =>
      simp only [Runner.move, act, finishProcess] at hidle ⊢
      split at hidle
      · rename_i hbegun
        rw [if_pos hbegun]
        exact .inr (exists_isPass_passOver _ turn)
      · rename_i hnone
        rw [if_neg hnone]
        exact .inl ⟨hidle, rfl, by simp⟩
    | startDispatcher => exact .inl ⟨idle_of_startDispatcher hidle, rfl, by simp [move, act]⟩
    | shutDown => exact absurd rfl hmove
    | add | enqueue => exact absurd hidle (dispatcher_notify_ne_idle _)
    | command | beginProcess | answer | dropReceiver => exact .inl (hleaves trivial rfl)
  | turn task turn =>
    cases task with
    | job id => exact .inl (hleaves trivial rfl)
    | dispatcher =>
      refine ((h.turn hopen backend turn).2 hidle).imp_left ?_
      rintro ⟨hbefore, hnone⟩
      exact ⟨hbefore, rfl, hnone⟩

/-! ## Runs -/

/-- The registry that the last pass of a run saw. -/
def LastSeen (m : Runner) (backend : Backend) (moves : List Move) (seen : Registry) : Prop :=
  ∃ before move after, moves = before ++ move :: after ∧
    seen = (m.run backend before).1.registry ∧
    (∃ e ∈ ((m.run backend before).1.move backend move).2, e.IsPass) ∧
    ∀ e ∈ (((m.run backend before).1.move backend move).1.run backend after).2, ¬ e.IsPass

theorem LastSeen.concat {moves : List Move} {seen : Registry}
    (h : m.LastSeen backend moves seen) {move : Move}
    (hnone : ∀ e ∈ ((m.run backend moves).1.move backend move).2, ¬ e.IsPass) :
    m.LastSeen backend (moves ++ [move]) seen := by
  obtain ⟨before, pass, after, rfl, hseen, hpass, hlater⟩ := h
  refine ⟨before, pass, after ++ [move], by rw [List.append_assoc]; rfl, hseen, hpass, ?_⟩
  rw [run_append, run_cons] at hnone
  rw [run_concat]
  exact List.forall_mem_append.2 ⟨hlater, hnone⟩

theorem lastSeen_of_isPass {moves : List Move} {move : Move}
    (hpass : ∃ e ∈ ((m.run backend moves).1.move backend move).2, e.IsPass) :
    m.LastSeen backend (moves ++ [move]) (m.run backend moves).1.registry :=
  ⟨moves, move, [], rfl, rfl, hpass, by simp⟩

/-- The dispatcher is attentive, and it waits only after a pass that left nothing behind
that could be started now. -/
structure Watchful (settings : Settings) (started : Prop) (saw : Registry → Prop) (m : Runner) :
    Prop where
  atWork : m.AtWork
  calm : m.Calm False
  settings : m.queue.settings = settings
  attentive : m.Attentive started
  settled : m.dispatcher = .idle → ∃ seen, saw seen ∧ m.Settled seen.view

theorem watchful_of_create? {settings : Settings} {registry : Registry}
    (hm : create? settings registry = some m) (hroom : settings.maxBatch ≠ some 0)
    (saw : Registry → Prop) : Watchful settings False saw m := by
  have hnew := isNew_of_create? hm
  have hexclusive : m.Exclusive False := exclusive_of_isNew hnew
  have hcalm : m.Calm False := calm_of_jobs_eq_nil hnew.jobs
  unfold create? at hm
  split at hm
  · cases hm
    exact ⟨⟨rfl, hroom, hexclusive⟩, hcalm, rfl, ⟨fun _ => id, by simp, by simp, by simp⟩, by simp⟩
  · cases hm

theorem Watchful.move {settings : Settings} {moves : List Move}
    (h : Watchful settings started (m.LastSeen backend moves) (m.run backend moves).1)
    (hbackend : ∀ r, backend r ≠ some .crashed) {move : Move} (hreturns : move.Returns)
    (hmove : move ≠ .act .shutDown) :
    Watchful settings (started ∨ move = .act .startDispatcher)
      (m.LastSeen backend (moves ++ [move])) (m.run backend (moves ++ [move])).1 := by
  have hstep := step_move (fun r hr => hbackend r hr) h.calm fun _ => hreturns
  rw [run_concat]
  constructor
  · exact h.atWork.of_step hstep hmove
  · exact hstep.calm h.calm
  · exact hstep.settings.trans h.settings
  · exact attentive_move h.attentive h.atWork.isShutDown backend hmove
  · intro hidle
    rcases idle_move h.attentive h.atWork.isShutDown backend hmove hidle with
      ⟨hbefore, hasked, hnone⟩ | hpass
    · obtain ⟨seen, hseen, hsettled⟩ := h.settled hbefore
      obtain ⟨hqueue, hsame⟩ := hstep.undisturbed hasked hnone hidle
      exact ⟨seen, hseen.concat hnone, hsettled.congr hqueue hsame.roster⟩
    · exact ⟨_, lastSeen_of_isPass hpass, (endsInPass_move hpass).settled h.atWork⟩

theorem watchful_run {settings : Settings} {registry : Registry}
    (hm : create? settings registry = some m) (hroom : settings.maxBatch ≠ some 0)
    {moves : List Move} (hreturns : CallsReturn backend moves)
    (hopen : Move.act .shutDown ∉ moves) :
    Watchful settings (Move.act .startDispatcher ∈ moves) (m.LastSeen backend moves)
      (m.run backend moves).1 := by
  induction moves using List.reverseRecOn with
  | nil => simpa using watchful_of_create? hm hroom (m.LastSeen backend [])
  | append_singleton before move ih =>
    rw [List.mem_append, List.mem_singleton, not_or] at hopen
    obtain ⟨hearlier, hlast⟩ := hreturns.of_concat
    have hafter := (ih hearlier hopen.1).move hreturns.1 hlast fun hmove => hopen.2 hmove.symm
    rw [List.mem_append, List.mem_singleton, eq_comm (a := Move.act .startDispatcher)]
    exact hafter

/-- Once the dispatcher was started, whatever is still queued where nothing is ready and no
job goes on was hidden in the last pass, and such requests are to be deferred. -/
theorem only_hidden_left_behind {settings : Settings} {registry : Registry}
    (hm : create? settings registry = some m) (hroom : settings.maxBatch ≠ some 0)
    {moves : List Move} (hreturns : CallsReturn backend moves)
    (hstarted : Move.act .startDispatcher ∈ moves) (hopen : Move.act .shutDown ∉ moves) :
    let last := (m.run backend moves).1
    last.ready = [] → last.jobs = [] →
      (∃ seen, m.LastSeen backend moves seen ∧ ∀ r ∈ last.queue.pending,
        settings.deferHidden = true ∧ r.priority seen.view = .hidden) ∧
      (settings.deferHidden = false → last.queue.pending = []) := by
  intro last hready hjobs
  have hwatchful : Watchful settings (Move.act .startDispatcher ∈ moves)
      (m.LastSeen backend moves) last := watchful_run hm hroom hreturns hopen
  have hidle : last.dispatcher = .idle :=
    hwatchful.attentive.idle_of_ready_eq_nil hstarted hready
  obtain ⟨seen, hseen, hsettled⟩ := hwatchful.settled hidle
  have hleft := hsettled hjobs
  rw [hwatchful.settings] at hleft
  refine ⟨⟨seen, hseen, hleft⟩, fun hshown => List.eq_nil_iff_forall_not_mem.2 fun r hr => ?_⟩
  have hdefer := (hleft r hr).1
  rw [hshown] at hdefer
  cases hdefer

/-- The premises hold where a request for a document that nobody looks at is queued before
the dispatcher starts, and it is left behind as one for a hidden document. -/
theorem only_hidden_left_behind_one_request :
    let key : DocumentKey := ⟨⟨""⟩, ""⟩
    let turn : Turn := ⟨.zero, false⟩
    let backend : Backend := fun _ => some (.returned (.ok .preamble))
    let settings : Settings := { Settings.default 1 with deferHidden := true }
    let moves : List Move :=
      [.act (.command (.putProject "" [])), .act (.command (.openDocument key)),
        .act (.enqueue .buildPreamble key), .act .startDispatcher, .turn .dispatcher turn]
    ∃ m, create? settings .new = some m ∧ CallsReturn backend moves ∧
      (m.run backend moves).1.queue.pending.length = 1 ∧
      ∃ seen, m.LastSeen backend moves seen ∧
        ∀ r ∈ (m.run backend moves).1.queue.pending, r.priority seen.view = .hidden := by
  intro key turn backend settings moves
  have hreturns : CallsReturn backend moves :=
    ⟨by simp [backend], by simp [moves, Move.Returns]⟩
  have hm : create? settings .new = some _ := rfl
  refine ⟨_, hm, hreturns, by decide +kernel, ?_⟩
  obtain ⟨⟨seen, hseen, hleft⟩, -⟩ := only_hidden_left_behind hm (by decide) hreturns
    (by simp [moves]) (by simp [moves]) (by decide +kernel) (by decide +kernel)
  exact ⟨seen, hseen, fun r hr => (hleft r hr).2⟩

end Runner

end AnalysisJobs
