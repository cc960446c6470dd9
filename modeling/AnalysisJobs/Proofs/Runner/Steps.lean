import AnalysisJobs.Proofs.Runner.Work
/-!
# Steps of a runner

What one move of a run does to the work.  The turn of a job lets it go on, end or
crash; a turn of the dispatcher is a sequence of passes; a caller's action changes
one thing.  `step_move` collects this in one relation, and `run_induction` carries
an invariant of the work, which may speak of the moves and events so far, through
a run.
-/

namespace AnalysisJobs.Runner

variable {crashes : Prop} {m n : Runner}

/-! ## Turns of jobs -/

theorem job?_conclude (m : Runner) (job : Job) (turn : Turn) (result : Result) :
    (m.conclude job turn result).1.job? job.id = none := by
  obtain ⟨ready, wakeup, dispatcher, h⟩ := conclude_eq m job turn result
  rw [h]
  simp [job?]

theorem job?_forget (m : Runner) (id : Nat) : (m.forget id).job? id = none := by
  simp [job?, forget]

/-- What a turn of the job `id` comes to. -/
inductive JobStep (crashes : Prop) (m : Runner) (id : Nat) : List Event → Runner → Prop
  | goesOn {n : Runner} {events : List Event}
      (hsame : SameWork crashes m n) (hquiet : ∀ e ∈ events, e.Quiet) :
      JobStep crashes m id events n
  | ends {n : Runner} {job : Job} (events : List Event) (turn : Turn) (result : Result)
      (hsame : SameWork crashes m n) (hquiet : ∀ e ∈ events, e.Quiet)
      (hid : job.id = id) (hmem : (job.id, job.request) ∈ m.roster) :
      JobStep crashes m id (events ++ (n.conclude job turn result).2)
        (n.conclude job turn result).1
  | dies {n : Runner} {events : List Event} (hcrash : crashes)
      (hsame : SameWork crashes m n) (hquiet : ∀ e ∈ events, e.Quiet) :
      JobStep crashes m id events (n.forget id)

theorem JobStep.prepend {l : Runner} {id : Nat} {after : List Event} (before : List Event)
    (hsame : SameWork crashes l m) (hquiet : ∀ e ∈ before, e.Quiet)
    (h : JobStep crashes m id after n) : JobStep crashes l id (before ++ after) n := by
  cases h with
  | goesOn hmn hafter =>
    exact .goesOn (hsame.trans hmn) (List.forall_mem_append.2 ⟨hquiet, hafter⟩)
  | ends events turn result hmn hafter hid hmem =>
    rw [hsame.roster] at hmem
    rw [← List.append_assoc]
    exact .ends _ turn result (hsame.trans hmn) (List.forall_mem_append.2 ⟨hquiet, hafter⟩) hid hmem
  | dies hcrash hmn hafter =>
    exact .dies hcrash (hsame.trans hmn) (List.forall_mem_append.2 ⟨hquiet, hafter⟩)

theorem jobStep_endCall {job : Job} (hmem : (job.id, job.request) ∈ m.roster) (turn : Turn)
    {ending : Ending} (h : ending = .crashed → crashes) :
    JobStep crashes m job.id (m.endCall job turn ending).2 (m.endCall job turn ending).1 := by
  cases ending with
  | crashed => exact .dies (h rfl) (sameWork_releasePermit m) (by simp [endCall])
  | returned result =>
    exact .ends [] turn result (sameWork_releasePermit m) (by simp) rfl hmem

theorem jobStep_cancel {job : Job} (hmem : (job.id, job.request) ∈ m.roster) (turn : Turn) :
    JobStep crashes m job.id (m.cancel job turn).2 (m.cancel job turn).1 := by
  have hfreed : SameWork crashes m
      (if job.phase.holdsPermit then m.releasePermit
        else { m with waiters := m.waiters.filter (· ≠ job.id) }) := by
    split
    · exact sameWork_releasePermit m
    · exact sameWork_scheduling m _ _ _ _ _
  exact .ends [] turn (.failed .cancelled) hfreed (by simp) rfl hmem

section Turns

variable {backend : Backend}

/-- How the call of a job ends in the next turn of the job, if it ends in it. -/
def callEnding? (m : Runner) (backend : Backend) (job : Job) : Option Ending :=
  match job.phase with
  | .spawned => if 0 < m.permits then backend job.request else none
  | .granted => backend job.request
  | .answered ending => some ending
  | .waiting | .executing => none

theorem jobStep_call {job : Job} (hcrash : backend job.request = some .crashed → crashes)
    (hmem : (job.id, job.request) ∈ m.roster) (turn : Turn) :
    JobStep crashes m job.id (m.call backend job turn).2 (m.call backend job turn).1 := by
  have hbegan : ∀ e ∈ [Event.began job.request], e.Quiet := by simp [Event.Quiet]
  unfold call
  split
  · exact .goesOn (sameWork_setPhase m job.id (by simp)) hbegan
  · rename_i ending hending
    have hended : ending = .crashed → crashes := fun h => hcrash (h ▸ hending)
    exact (jobStep_endCall hmem turn hended).prepend _ (.refl m) hbegan

theorem jobStep_advance {job : Job}
    (hcrash : m.callEnding? backend job = some .crashed → crashes)
    (hjob : m.job? job.id = some job) (turn : Turn) :
    JobStep crashes m job.id (m.advance backend job turn).2 (m.advance backend job turn).1 := by
  have hmem := mem_roster_of_job? hjob
  unfold callEnding? at hcrash
  unfold advance
  split
  · split
    · rename_i hphase hpermits
      rw [hphase] at hcrash
      have hpermit : SameWork crashes m { m with permits := m.permits - 1 } :=
        sameWork_scheduling m _ _ _ _ _
      exact (jobStep_call (m := { m with permits := m.permits - 1 })
        (fun h => hcrash ((if_pos hpermits).trans h)) hmem turn).prepend [] hpermit (by simp)
    · have hwaits : SameWork crashes m { m with waiters := m.waiters ++ [job.id] } :=
        sameWork_scheduling m _ _ _ _ _
      exact .goesOn (hwaits.trans (sameWork_setPhase _ job.id (by simp))) (by simp)
  · rename_i hphase
    rw [hphase] at hcrash
    exact jobStep_call hcrash hmem turn
  · rename_i ending hphase
    rw [hphase] at hcrash
    exact jobStep_endCall hmem turn fun h => hcrash (congrArg some h)
  · exact .goesOn (.refl m) (by simp)
  · exact .goesOn (.refl m) (by simp)

theorem jobStep_jobTurn {id : Nat} {turn : Turn}
    (hcrash : ∀ job, m.job? id = some job → ¬ (m.isShutDown && turn.cancelFirst) = true →
      m.callEnding? backend job = some .crashed → crashes) :
    JobStep crashes m id (m.jobTurn backend id turn).2 (m.jobTurn backend id turn).1 := by
  unfold jobTurn
  split
  · exact .goesOn (.refl m) (by simp)
  · rename_i job hjob
    obtain rfl := id_of_job? hjob
    split
    · exact jobStep_cancel (mem_roster_of_job? hjob) turn
    · rename_i hfirst
      have hadvance := jobStep_advance (hcrash job hjob hfirst) hjob turn
      generalize m.advance backend job turn = advanced at hadvance
      obtain ⟨next, events⟩ := advanced
      dsimp only at hadvance ⊢
      split
      · -- only a job that went on is still there to be cancelled
        rename_i job' _ hjob'
        have hmem := mem_roster_of_job? hjob'
        have hid := id_of_job? hjob'
        cases hadvance with
        | goesOn hsame hquiet =>
          have hcancel : JobStep crashes next job'.id (next.cancel job' turn).2
              (next.cancel job' turn).1 := jobStep_cancel hmem turn
          rw [hid] at hcancel
          exact hcancel.prepend events hsame hquiet
        | ends before turn' result hsame hquiet hid' hmem' =>
          rw [← hid', job?_conclude] at hjob'
          cases hjob'
        | dies hcrash hsame hquiet =>
          rw [job?_forget] at hjob'
          cases hjob'
      · exact hadvance

end Turns

/-! ## Turns of the dispatcher -/

/-- Passes over the queue, one after the other, and nothing else. -/
inductive Passes (crashes : Prop) : Runner → List Event → Runner → Prop
  | none {m n : Runner} {events : List Event}
      (hsame : SameWork crashes m n) (hquiet : ∀ e ∈ events, e.Quiet) :
      Passes crashes m events n
  | pass {m n last : Runner} {before after : List Event} (turn : Turn)
      (hsame : SameWork crashes m n) (hquiet : ∀ e ∈ before, e.Quiet)
      (hrest : Passes crashes (n.passOver turn).1 after last) :
      Passes crashes m (before ++ (n.passOver turn).2.2 ++ after) last

theorem Passes.prepend {l : Runner} {after : List Event} (before : List Event)
    (hsame : SameWork crashes l m) (hquiet : ∀ e ∈ before, e.Quiet)
    (h : Passes crashes m after n) : Passes crashes l (before ++ after) n := by
  cases h with
  | none hmn hafter =>
    exact .none (hsame.trans hmn) (List.forall_mem_append.2 ⟨hquiet, hafter⟩)
  | pass turn hmn hbefore hrest =>
    rw [← List.append_assoc, ← List.append_assoc]
    exact .pass turn (hsame.trans hmn) (List.forall_mem_append.2 ⟨hquiet, hbefore⟩) hrest

theorem Passes.append {l : Runner} {before after : List Event}
    (hbefore : Passes crashes l before m) (hafter : Passes crashes m after n) :
    Passes crashes l (before ++ after) n := by
  induction hbefore with
  | none hsame hquiet => exact hafter.prepend _ hsame hquiet
  | pass turn hsame hquiet _ ih =>
    rw [List.append_assoc]
    exact .pass turn hsame hquiet (ih hafter)

theorem passes_passOver (m : Runner) (turn : Turn) :
    Passes crashes m (m.passOver turn).2.2 (m.passOver turn).1 := by
  have hpass : Passes crashes m ([] ++ (m.passOver turn).2.2 ++ []) (m.passOver turn).1 :=
    .pass turn (.refl m) (by simp) (.none (.refl _) (by simp))
  rwa [List.nil_append, List.append_nil] at hpass

theorem passes_dispatch (m : Runner) (turn : Turn) :
    Passes crashes m (m.dispatch turn).2.2 (m.dispatch turn).1 := by
  unfold dispatch
  split
  · exact .none (.refl m) (by simp)
  · exact passes_passOver m turn

theorem passes_finishProcess (m : Runner) (turn : Turn) :
    Passes crashes m (m.finishProcess turn).2.2 (m.finishProcess turn).1 := by
  unfold finishProcess
  split
  · exact (passes_passOver { m with begun := m.begun - 1 } turn).prepend []
      (sameWork_begun m _) (by simp)
  · exact .none (.refl m) (by simp)

theorem passes_dispatchRemembered (m : Runner) (turn : Turn) :
    Passes crashes m (m.dispatchRemembered turn).2 (m.dispatchRemembered turn).1 := by
  unfold dispatchRemembered
  split
  · have hwakeup : SameWork crashes m { m with wakeup := false } :=
      sameWork_scheduling m _ _ _ _ _
    exact (passes_dispatch { m with wakeup := false } turn).prepend [] hwakeup (by simp)
  · exact .none (.refl m) (by simp)

theorem passes_dispatcherRound (m : Runner) (turn : Turn) :
    Passes crashes m (m.dispatcherRound turn).2 (m.dispatcherRound turn).1 := by
  unfold dispatcherRound
  split
  · exact .none (sameWork_scheduling m _ _ _ _ _) (by simp [Event.Quiet])
  · have hidle (n : Runner) : Passes crashes n [] { n with dispatcher := .idle } :=
      .none (sameWork_scheduling n _ _ _ _ _) (by simp)
    have hround : Passes crashes m ((m.dispatchRemembered turn).2 ++ [])
        { (m.dispatchRemembered turn).1 with dispatcher := .idle } :=
      (passes_dispatchRemembered m turn).append (hidle _)
    rwa [List.append_nil] at hround

theorem passes_dispatcherTurn (m : Runner) (turn : Turn) :
    Passes crashes m (m.dispatcherTurn turn).2 (m.dispatcherTurn turn).1 := by
  unfold dispatcherTurn
  split
  · exact (passes_dispatcherRound m turn).prepend [.dispatcherStarted] (.refl m)
      (by simp [Event.Quiet])
  · exact (passes_dispatch m turn).append (passes_dispatcherRound _ turn)
  all_goals exact .none (.refl m) (by simp)

/-! ## Moves -/

def asked (m : Runner) : Move → List Request
  | .act (.add request) => [request]
  | .act (.enqueue kind key) => [m.newRequest kind key]
  | _ => []

/-- Whether every call that a move ends returns. -/
def Move.Returns : Move → Prop
  | .act (.answer _ ending) => ∀ r, ending r ≠ .crashed
  | _ => True

/-- What a move does to the work. -/
inductive Step (crashes : Prop) (m : Runner) : Move → List Event → Runner → Prop
  | command (c : Registry.Command) :
      Step crashes m (.act (.command c)) (m.registry.events c)
        { m with registry := m.registry.after c }
  | add {move : Move} {n : Runner} (request : Request) (hasked : m.asked move = [request])
      (hsame : SameWork crashes { m with queue := m.queue.add request } n) :
      Step crashes m move [.added request] n
  | process {n : Runner} {events : List Event} (turn : Turn)
      (hpasses : Passes crashes m events n) : Step crashes m (.act (.process turn)) events n
  | beginProcess {n : Runner} (hsame : SameWork crashes m n) :
      Step crashes m (.act .beginProcess) [] n
  | finishProcess {n : Runner} {events : List Event} (turn : Turn)
      (hpasses : Passes crashes m events n) :
      Step crashes m (.act (.finishProcess turn)) events n
  | dispatcher {n : Runner} {events : List Event} (turn : Turn)
      (hpasses : Passes crashes m events n) :
      Step crashes m (.turn .dispatcher turn) events n
  | job {n : Runner} {events : List Event} (id : Nat) (turn : Turn)
      (hjob : JobStep crashes m id events n) : Step crashes m (.turn (.job id) turn) events n
  | answer {n : Runner} (key : DocumentKey) (ending : Request → Ending)
      (hsame : SameWork crashes m n) : Step crashes m (.act (.answer key ending)) [] n
  | startDispatcher {n : Runner} (hsame : SameWork crashes m n) :
      Step crashes m (.act .startDispatcher) [] n
  | shutDown {n : Runner} (hsame : SameWork crashes { m with isShutDown := true } n) :
      Step crashes m (.act .shutDown) (if m.isShutDown then [] else [.shutDown]) n
  | dropReceiver : Step crashes m (.act .dropReceiver) [] { m with hasReceiver := false }

theorem sameWork_beginProcess (m : Runner) : SameWork crashes m m.beginProcess.1 := by
  unfold beginProcess
  split
  · exact .refl m
  · exact sameWork_begun m _

theorem step_act (m : Runner) {a : Action}
    (hreturns : ¬ crashes → Move.Returns (.act a)) :
    Step crashes m (.act a) (m.act a).2.2 (m.act a).1 := by
  cases a with
  | command c => exact .command c
  | add request => exact .add request rfl (sameWork_notify _)
  | enqueue kind key => exact .add (m.newRequest kind key) rfl (sameWork_notify _)
  | process turn => exact .process turn (passes_dispatch m turn)
  | beginProcess => exact .beginProcess (sameWork_beginProcess m)
  | finishProcess turn => exact .finishProcess turn (passes_finishProcess m turn)
  | answer key ending =>
    simp only [act]
    split
    · exact .answer key ending (.refl m)
    · refine .answer key ending (sameWork_answer m _ fun h => ?_)
      exact Classical.byContradiction fun hcalm => hreturns hcalm _ h
  | startDispatcher => exact .startDispatcher (sameWork_startDispatcher m)
  | shutDown => exact .shutDown (sameWork_shutDown m)
  | dropReceiver => exact .dropReceiver

theorem crashes_of_callEnding? {backend : Backend}
    (hbackend : ∀ r, backend r = some .crashed → crashes) (hcalm : m.Calm crashes) {job : Job}
    (hjob : job ∈ m.jobs) (h : m.callEnding? backend job = some .crashed) : crashes := by
  unfold callEnding? at h
  split at h
  · split at h
    · exact hbackend _ h
    · cases h
  · exact hbackend _ h
  · rename_i ending hphase
    exact hcalm job hjob (Option.some.inj h ▸ hphase)
  · cases h
  · cases h

theorem step_move {backend : Backend} (hbackend : ∀ r, backend r = some .crashed → crashes)
    (hcalm : m.Calm crashes) {move : Move} (hreturns : ¬ crashes → move.Returns) :
    Step crashes m move (m.move backend move).2 (m.move backend move).1 := by
  cases move with
  | act a => exact step_act m hreturns
  | turn task turn =>
    have hready : SameWork crashes m { m with ready := m.ready.erase task } :=
      sameWork_scheduling m _ _ _ _ _
    simp only [Runner.move, taskTurn]
    cases task with
    | job id =>
      refine .job id turn ?_
      split
      · refine JobStep.prepend [] hready (by simp) (jobStep_jobTurn fun job hjob _ => ?_)
        exact crashes_of_callEnding? hbackend hcalm (List.mem_of_find?_eq_some hjob)
      · exact .goesOn (.refl m) (by simp)
    | dispatcher =>
      refine .dispatcher turn ?_
      split
      · exact (passes_dispatcherTurn _ turn).prepend [] hready (by simp)
      · exact .none (.refl m) (by simp)

theorem step_any (m : Runner) (backend : Backend) (move : Move) :
    Step True m move (m.move backend move).2 (m.move backend move).1 :=
  step_move (fun _ _ => trivial) (fun _ _ _ => trivial) fun h => absurd trivial h

theorem Passes.calm {events : List Event} (h : Passes crashes m events n)
    (hcalm : m.Calm crashes) : n.Calm crashes := by
  induction h with
  | none hsame => exact hsame.calm hcalm
  | @pass _ n _ _ _ turn hsame _ _ ih =>
    obtain ⟨running, ready, heq, -⟩ := passOver_eq n turn
    apply ih
    rw [heq]
    intro j hj hphase
    rcases List.mem_append.1 hj with hold | hnew
    · exact hsame.calm hcalm j hold hphase
    · rw [phase_of_mem_newJobs hnew] at hphase
      cases hphase

theorem calm_conclude (hcalm : m.Calm crashes) (job : Job) (turn : Turn) (result : Result) :
    (m.conclude job turn result).1.Calm crashes := by
  obtain ⟨ready, wakeup, dispatcher, heq⟩ := conclude_eq m job turn result
  rw [heq]
  intro j hj
  exact hcalm j (List.mem_filter.1 hj).1

theorem Step.calm {move : Move} {events : List Event} (h : Step crashes m move events n)
    (hcalm : m.Calm crashes) : n.Calm crashes := by
  cases h with
  | command | dropReceiver => exact hcalm
  | add request _ hsame => exact hsame.calm hcalm
  | process turn hpasses | finishProcess turn hpasses | dispatcher turn hpasses =>
    exact hpasses.calm hcalm
  | job id turn hjob =>
    cases hjob with
    | goesOn hsame => exact hsame.calm hcalm
    | ends _ turn result hsame => exact calm_conclude (hsame.calm hcalm) _ turn result
    | dies _ hsame => exact fun j hj => hsame.calm hcalm j (List.mem_filter.1 hj).1
  | beginProcess hsame | answer _ _ hsame | startDispatcher hsame | shutDown hsame =>
    exact hsame.calm hcalm

theorem Passes.isShutDown {events : List Event} (h : Passes crashes m events n) :
    n.isShutDown = m.isShutDown := by
  induction h with
  | none hsame => exact hsame.isShutDown
  | @pass _ n _ _ _ turn hsame _ _ ih =>
    obtain ⟨running, ready, heq, -⟩ := passOver_eq n turn
    rw [ih, heq]
    exact hsame.isShutDown

theorem Passes.settings {events : List Event} (h : Passes crashes m events n) :
    n.queue.settings = m.queue.settings := by
  induction h with
  | none hsame => rw [hsame.queue]
  | @pass _ n _ _ _ turn hsame _ _ ih =>
    obtain ⟨running, ready, heq, -⟩ := passOver_eq n turn
    rw [ih, heq, ← hsame.queue]
    rfl

theorem Step.settings {move : Move} {events : List Event} (hstep : Step crashes m move events n) :
    n.queue.settings = m.queue.settings := by
  cases hstep with
  | command c | dropReceiver => rfl
  | add request _ hsame => rw [hsame.queue, Queue.add]
  | process turn hpasses | finishProcess turn hpasses | dispatcher turn hpasses =>
    exact hpasses.settings
  | job id turn hjob =>
    cases hjob with
    | goesOn hsame => rw [hsame.queue]
    | @ends l job events turn result hsame =>
      obtain ⟨ready, wakeup, dispatcher, heq⟩ := conclude_eq l job turn result
      rw [heq, hsame.queue]
    | dies _ hsame => exact congrArg Queue.settings hsame.queue
  | beginProcess hsame | answer _ _ hsame | startDispatcher hsame | shutDown hsame =>
    rw [hsame.queue]

theorem Step.isShutDown {move : Move} {events : List Event}
    (hstep : Step crashes m move events n) (hmove : move ≠ .act .shutDown) :
    n.isShutDown = m.isShutDown := by
  cases hstep with
  | command c | dropReceiver => rfl
  | add request _ hsame => exact hsame.isShutDown
  | process turn hpasses | finishProcess turn hpasses | dispatcher turn hpasses =>
    exact hpasses.isShutDown
  | job id turn hjob =>
    cases hjob with
    | goesOn hsame => exact hsame.isShutDown
    | @ends l job events turn result hsame =>
      obtain ⟨ready, wakeup, dispatcher, heq⟩ := conclude_eq l job turn result
      rw [heq]
      exact hsame.isShutDown
    | dies _ hsame => exact hsame.isShutDown
  | beginProcess hsame | answer _ _ hsame | startDispatcher hsame => exact hsame.isShutDown
  | shutDown => exact absurd rfl hmove

/-! ## Runs -/

theorem run_concat (m : Runner) (backend : Backend) (moves : List Move) (move : Move) :
    m.run backend (moves ++ [move]) = (((m.run backend moves).1.move backend move).1,
      (m.run backend moves).2 ++ ((m.run backend moves).1.move backend move).2) := by
  simp only [run_append, run_cons, run_nil, List.append_nil]

/-- Every call returns, whether the backend ends it at once or a move ends it. -/
def CallsReturn (backend : Backend) (moves : List Move) : Prop :=
  (∀ r, backend r ≠ some .crashed) ∧ ∀ move ∈ moves, move.Returns

theorem CallsReturn.of_append {backend : Backend} {before after : List Move}
    (h : CallsReturn backend (before ++ after)) :
    CallsReturn backend before ∧ CallsReturn backend after := by
  obtain ⟨hbefore, hafter⟩ := List.forall_mem_append.1 h.2
  exact ⟨⟨h.1, hbefore⟩, h.1, hafter⟩

theorem CallsReturn.of_cons {backend : Backend} {move : Move} {rest : List Move}
    (h : CallsReturn backend (move :: rest)) :
    CallsReturn backend [move] ∧ CallsReturn backend rest :=
  (show CallsReturn backend ([move] ++ rest) from h).of_append

theorem CallsReturn.of_concat {backend : Backend} {before : List Move} {move : Move}
    (h : CallsReturn backend (before ++ [move])) :
    CallsReturn backend before ∧ move.Returns :=
  ⟨h.of_append.1, h.of_append.2.2 move (List.mem_singleton_self move)⟩

/-- What holds before any move, and after each step if it held before it, holds
after a run.  The invariant may speak of the moves and events so far. -/
theorem run_induction {backend : Backend} {moves : List Move}
    {P : List Move → List Event → Runner → Prop}
    (hreturns : ¬ crashes → CallsReturn backend moves) (hcalm : m.Calm crashes)
    (hstart : P [] [] m)
    (hstep : ∀ {before events n move more last}, n = (m.run backend before).1 →
      P before events n → Step crashes n move more last →
        P (before ++ [move]) (events ++ more) last) :
    P moves (m.run backend moves).2 (m.run backend moves).1 := by
  have hbackend : ∀ r, backend r = some .crashed → crashes := fun r hr =>
    Classical.byContradiction fun hcrash => (hreturns hcrash).1 r hr
  have hlater : ∀ after before : List Move, before ++ after = moves →
      (m.run backend before).1.Calm crashes →
      P before (m.run backend before).2 (m.run backend before).1 →
      P moves (m.run backend moves).2 (m.run backend moves).1 := by
    intro after
    induction after with
    | nil =>
      intro before hsplit _ hbefore
      rw [List.append_nil] at hsplit
      exact hsplit ▸ hbefore
    | cons move rest ih =>
      intro before hsplit hcalm hbefore
      have hmem : move ∈ moves := by
        rw [← hsplit]
        exact List.mem_append_right before List.mem_cons_self
      have hmove := step_move hbackend hcalm fun hcrash => (hreturns hcrash).2 move hmem
      have hrun := run_concat m backend before move
      refine ih (before ++ [move]) (by rw [List.append_assoc]; exact hsplit) ?_ ?_
      · rw [hrun]
        exact hmove.calm hcalm
      · rw [hrun]
        exact hstep rfl hbefore hmove
  exact hlater moves [] (List.nil_append moves) hcalm hstart

theorem calm_of_jobs_eq_nil (h : m.jobs = []) : m.Calm crashes := by
  intro j hj
  rw [h] at hj
  cases hj

structure IsNew (m : Runner) : Prop where
  pending : m.queue.pending = []
  running : m.running = []
  jobs : m.jobs = []
  isShutDown : m.isShutDown = false
  hasReceiver : m.hasReceiver = true
  finished : m.finished = []

theorem isNew_of_create? {settings : Settings} {registry : Registry}
    (h : create? settings registry = some m) : m.IsNew := by
  unfold create? at h
  split at h
  · cases h
    exact ⟨rfl, rfl, rfl, rfl, rfl, rfl⟩
  · cases h

theorem registry_of_create? {settings : Settings} {registry : Registry}
    (h : create? settings registry = some m) : m.registry = registry := by
  unfold create? at h
  split at h
  · cases h
    rfl
  · cases h

end AnalysisJobs.Runner
