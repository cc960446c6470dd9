import AnalysisJobs.Proofs.Runner.Completion
import AnalysisJobs.Proofs.Runner.Dispatcher
/-!
# Moves with a pass

The dispatcher may pass over the queue twice in one turn, and what matters later is what the
last pass left.  A move that tells of a pass comes to its end by passes, and the last of them
leaves the work as it is after the move.
-/

namespace AnalysisJobs.Runner

variable {crashes : Prop} {m n : Runner} {backend : Backend}

theorem requests_dispatch (hopen : m.isShutDown = false) (turn : Turn) :
    (m.dispatch turn).2.1 = m.nextPass.batch := by
  rw [dispatch_of_not_isShutDown hopen]
  rfl

/-- A queued request that is fresh and does not wait for its document to be shown. -/
structure Eligible (m : Runner) (r : Request) : Prop where
  pending : r ∈ m.queue.pending
  fresh : r.staleness m.registry.view = none
  shown : ¬ (m.queue.settings.deferHidden = true ∧ r.priority m.registry.view = .hidden)

/-- A pass with room passes over an eligible request only if its document has a job or gets
one. -/
theorem Eligible.exists_dispatch {r : Request} (h : m.Eligible r) (hopen : m.isShutDown = false)
    (turn : Turn) :
    (∃ s ∈ (m.dispatch turn).2.1, s.key.Same r.key) ∨ m.isRunning r.key = true ∨
      fillsBatch m.queue.settings.maxBatch (m.dispatch turn).2.1.length = true := by
  rw [requests_dispatch hopen]
  rcases Queue.mem_batch_cases m.isRunning h.pending h.fresh with
    htaken | hrunning | hhidden | hfull
  · exact .inl htaken
  · exact .inr (.inl hrunning)
  · exact absurd hhidden h.shown
  · exact .inr (.inr hfull)

theorem exists_isPass_passOver (m : Runner) (turn : Turn) :
    ∃ e ∈ (m.passOver turn).2.2, e.IsPass := by
  refine ⟨.passed m.nextPass.batch.length m.nextPass.left.length, ?_, trivial⟩
  rw [events_passOver, Pass.events]
  simp

theorem exists_isPass_dispatch (hopen : m.isShutDown = false) (turn : Turn) :
    ∃ e ∈ (m.dispatch turn).2.2, e.IsPass := by
  rw [dispatch_of_not_isShutDown hopen]
  exact exists_isPass_passOver m turn

/-! ## Turns of the dispatcher -/

theorem dispatcherRound_of_wakeup (hopen : m.isShutDown = false) (h : m.wakeup = true)
    (turn : Turn) :
    m.dispatcherRound turn =
      ({ ({ m with wakeup := false }.passOver turn).1 with dispatcher := .idle },
        ({ m with wakeup := false }.passOver turn).2.2) := by
  rw [dispatcherRound, if_neg (by simp [hopen]), dispatchRemembered, if_pos h,
    dispatch_of_not_isShutDown (m := { m with wakeup := false }) hopen]

theorem dispatcherRound_of_no_wakeup (hopen : m.isShutDown = false) (h : ¬ m.wakeup = true)
    (turn : Turn) : m.dispatcherRound turn = ({ m with dispatcher := .idle }, []) := by
  rw [dispatcherRound, if_neg (by simp [hopen]), dispatchRemembered, if_neg h]

theorem dispatcherTurn_of_woken (h : m.dispatcher = .woken) (turn : Turn) :
    m.dispatcherTurn turn =
      (((m.dispatch turn).1.dispatcherRound turn).1,
        (m.dispatch turn).2.2 ++ ((m.dispatch turn).1.dispatcherRound turn).2) := by
  unfold dispatcherTurn
  rw [h]

theorem not_isPass_dispatcherTurn (hshut : m.isShutDown = true) (turn : Turn) :
    ∀ e ∈ (m.dispatcherTurn turn).2, ¬ e.IsPass := by
  have hround : m.dispatcherRound turn = ({ m with dispatcher := .stopped },
      [.dispatcherStopped]) := by
    rw [dispatcherRound, if_pos hshut]
  unfold dispatcherTurn
  split
  · simp [hround, Event.IsPass]
  · simp [dispatch_of_isShutDown hshut, hround, Event.IsPass]
  all_goals simp

/-! ## The last pass -/

/-- `m` comes to `n` by passes, and `n` has the work that the last of them leaves. -/
def EndsInPass (crashes : Prop) (m n : Runner) : Prop :=
  ∃ events last turn, Passes crashes m events last ∧ SameWork crashes (last.passOver turn).1 n

theorem EndsInPass.registry (h : EndsInPass crashes m n) : n.registry = m.registry := by
  obtain ⟨events, last, turn, hpasses, hsame⟩ := h
  have hpass : Passes crashes last _ (last.passOver turn).1 := passes_passOver last turn
  rw [hsame.registry, hpass.registry, hpasses.registry]

theorem EndsInPass.sameWork {l : Runner} (h : EndsInPass crashes l m)
    (hsame : SameWork crashes m n) : EndsInPass crashes l n := by
  obtain ⟨events, last, turn, hpasses, hlast⟩ := h
  exact ⟨events, last, turn, hpasses, hlast.trans hsame⟩

theorem EndsInPass.of_sameWork {l : Runner} (hsame : SameWork crashes l m)
    (h : EndsInPass crashes m n) : EndsInPass crashes l n := by
  obtain ⟨events, last, turn, hpasses, hlast⟩ := h
  exact ⟨_, last, turn, hpasses.prepend [] hsame (by simp), hlast⟩

theorem endsInPass_passOver (m : Runner) (turn : Turn) :
    EndsInPass crashes m (m.passOver turn).1 :=
  ⟨[], m, turn, .none (.refl m) (by simp), .refl _⟩

theorem EndsInPass.passOver {l : Runner} (h : EndsInPass crashes l m) (turn : Turn) :
    EndsInPass crashes l (m.passOver turn).1 := by
  obtain ⟨events, last, turn', hpasses, hsame⟩ := h
  have hlast : Passes crashes last _ (last.passOver turn').1 := passes_passOver last turn'
  have hquiet : Passes crashes (last.passOver turn').1 [] m := .none hsame (by simp)
  exact ⟨_, m, turn, hpasses.append (hlast.append hquiet), .refl _⟩

theorem sameWork_dispatcher (m : Runner) (dispatcher : Dispatcher) :
    SameWork crashes m { m with dispatcher := dispatcher } := sameWork_scheduling m _ _ _ _ _

theorem EndsInPass.dispatcherRound {l : Runner} (h : EndsInPass crashes l m) (turn : Turn) :
    EndsInPass crashes l (m.dispatcherRound turn).1 := by
  cases hopen : m.isShutDown with
  | true =>
    rw [Runner.dispatcherRound, if_pos hopen]
    exact h.sameWork (sameWork_dispatcher m _)
  | false =>
    by_cases hwakeup : m.wakeup = true
    · have hquiet : SameWork crashes m { m with wakeup := false } :=
        sameWork_scheduling m _ _ _ _ _
      rw [dispatcherRound_of_wakeup hopen hwakeup]
      exact ((h.sameWork hquiet).passOver turn).sameWork (sameWork_dispatcher _ _)
    · rw [dispatcherRound_of_no_wakeup hopen hwakeup]
      exact h.sameWork (sameWork_dispatcher m _)

theorem endsInPass_dispatcherRound {turn : Turn}
    (hpass : ∃ e ∈ (m.dispatcherRound turn).2, e.IsPass) :
    EndsInPass crashes m (m.dispatcherRound turn).1 := by
  cases hopen : m.isShutDown with
  | true => simp [dispatcherRound, hopen, Event.IsPass] at hpass
  | false =>
    by_cases hwakeup : m.wakeup = true
    · have hquiet : SameWork crashes m { m with wakeup := false } :=
        sameWork_scheduling m _ _ _ _ _
      rw [dispatcherRound_of_wakeup hopen hwakeup]
      have hpassed : EndsInPass crashes { m with wakeup := false }
          (Runner.passOver { m with wakeup := false } turn).1 :=
        endsInPass_passOver { m with wakeup := false } turn
      exact .of_sameWork hquiet (hpassed.sameWork (sameWork_dispatcher _ _))
    · simp [dispatcherRound_of_no_wakeup hopen hwakeup] at hpass

theorem endsInPass_dispatcherTurn {turn : Turn}
    (hpass : ∃ e ∈ (m.dispatcherTurn turn).2, e.IsPass) :
    EndsInPass crashes m (m.dispatcherTurn turn).1 := by
  unfold dispatcherTurn at hpass ⊢
  split at hpass
  · apply endsInPass_dispatcherRound
    simpa [Event.IsPass] using hpass
  · cases hopen : m.isShutDown with
    | true =>
      rw [dispatch_of_isShutDown hopen] at hpass ⊢
      exact endsInPass_dispatcherRound hpass
    | false =>
      rw [dispatch_of_not_isShutDown hopen]
      exact (endsInPass_passOver m turn).dispatcherRound turn
  all_goals simp at hpass

/-! ## Moves -/

/-- Only the caller and the dispatcher pass over the queue, and after a shutdown only those who
waited for the registry. -/
theorem cases_of_isPass {move : Move} (hpass : ∃ e ∈ (m.move backend move).2, e.IsPass) :
    (∃ turn, move = .act (.process turn) ∧ m.isShutDown = false) ∨
      (∃ turn, move = .act (.finishProcess turn) ∧ 0 < m.begun) ∨
      ∃ turn, move = .turn .dispatcher turn ∧ m.isShutDown = false ∧ .dispatcher ∈ m.ready ∧
        ∃ e ∈ (dispatcherTurn { m with ready := m.ready.erase .dispatcher } turn).2,
          e.IsPass := by
  by_cases hleaves : move.LeavesDispatcher
  · obtain ⟨e, he, hpass⟩ := hpass
    exact absurd hpass ((rouses_move m backend hleaves).2 e he)
  · cases move with
    | act a =>
      cases a with
      | process turn =>
        refine .inl ⟨turn, rfl, Bool.eq_false_iff.2 fun hshut => ?_⟩
        simp [move, act, dispatch_of_isShutDown hshut] at hpass
      | finishProcess turn =>
        refine .inr (.inl ⟨turn, rfl, Nat.pos_of_ne_zero fun hbegun => ?_⟩)
        simp [move, act, finishProcess, hbegun] at hpass
      | startDispatcher => simp [move, act] at hpass
      | shutDown =>
        simp only [move, act] at hpass
        split at hpass <;> simp [Event.IsPass] at hpass
      | _ => exact absurd trivial hleaves
    | turn task turn =>
      cases task with
      | job id => exact absurd trivial hleaves
      | dispatcher =>
        simp only [Runner.move, taskTurn] at hpass
        split at hpass
        · rename_i hmem
          refine .inr (.inr ⟨turn, rfl, Bool.eq_false_iff.2 fun hshut => ?_, hmem, hpass⟩)
          obtain ⟨e, he, hpass⟩ := hpass
          exact not_isPass_dispatcherTurn (m := { m with ready := m.ready.erase .dispatcher })
            hshut turn e he hpass
        · simp at hpass

theorem passes_of_isPass {move : Move} (hpass : ∃ e ∈ (m.move backend move).2, e.IsPass) :
    Passes crashes m (m.move backend move).2 (m.move backend move).1 := by
  rcases cases_of_isPass hpass with ⟨turn, rfl, -⟩ | ⟨turn, rfl, -⟩ | ⟨turn, rfl, -, hmem, -⟩
  · exact passes_dispatch m turn
  · exact passes_finishProcess m turn
  · have hready : SameWork crashes m { m with ready := m.ready.erase .dispatcher } :=
      sameWork_scheduling m _ _ _ _ _
    simp only [Runner.move, taskTurn, if_pos hmem]
    exact (passes_dispatcherTurn _ turn).prepend [] hready (by simp)

theorem endsInPass_move {move : Move} (hpass : ∃ e ∈ (m.move backend move).2, e.IsPass) :
    EndsInPass crashes m (m.move backend move).1 := by
  rcases cases_of_isPass hpass with
    ⟨turn, rfl, hopen⟩ | ⟨turn, rfl, hbegun⟩ | ⟨turn, rfl, -, hmem, hpass⟩
  · simp only [Runner.move, act, dispatch_of_not_isShutDown hopen]
    exact endsInPass_passOver m turn
  · simp only [Runner.move, act, finishProcess, if_pos hbegun]
    exact .of_sameWork (sameWork_begun m _) (endsInPass_passOver _ turn)
  · have hready : SameWork crashes m { m with ready := m.ready.erase .dispatcher } :=
      sameWork_scheduling m _ _ _ _ _
    simp only [Runner.move, taskTurn, if_pos hmem]
    exact .of_sameWork hready (endsInPass_dispatcherTurn hpass)

theorem Passes.sameWork_of_no_pass {events : List Event} (hpasses : Passes crashes m events n)
    (hnone : ∀ e ∈ events, ¬ e.IsPass) : SameWork crashes m n ∧ ∀ e ∈ events, e.Quiet := by
  cases hpasses with
  | none hsame hquiet => exact ⟨hsame, hquiet⟩
  | pass turn =>
    obtain ⟨e, he, hpass⟩ := exists_isPass_passOver _ turn
    exact absurd hpass (hnone e (List.mem_append_left _ (List.mem_append_right _ he)))

end AnalysisJobs.Runner
