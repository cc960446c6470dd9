import AnalysisJobs.Proofs.Runner.Changes
/-!
# What the dispatcher has to do

Most moves leave it to the dispatcher to pass over the queue.  They take nothing away from
what it has to do, and those that add to the queue or free a document wake it.  `Rouses`
says so of two states; it holds of each small change, and so of whole moves.
-/

namespace AnalysisJobs.Runner

variable {m n : Runner}

/-- The dispatcher of `n` has all that the dispatcher of `m` has to do, and perhaps more. -/
structure Rouses (m n : Runner) : Prop where
  ready : Task.dispatcher ∈ m.ready → Task.dispatcher ∈ n.ready
  wakeup : m.wakeup = true → n.wakeup = true
  dispatcher : n.dispatcher = m.dispatcher ∨
    m.dispatcher = .idle ∧ n.dispatcher = .woken ∧ Task.dispatcher ∈ n.ready

theorem rouses_of_eq (hready : n.ready = m.ready) (hwakeup : n.wakeup = m.wakeup)
    (hdispatcher : n.dispatcher = m.dispatcher) : Rouses m n :=
  ⟨fun h => hready ▸ h, fun h => hwakeup ▸ h, .inl hdispatcher⟩

theorem Rouses.refl (m : Runner) : Rouses m m := rouses_of_eq rfl rfl rfl

theorem Rouses.idle (h : Rouses m n) (hidle : n.dispatcher = .idle) : m.dispatcher = .idle := by
  rcases h.dispatcher with hsame | ⟨hbefore, -⟩
  · exact hsame.symm.trans hidle
  · exact hbefore

theorem Rouses.trans {l : Runner} (hlm : Rouses l m) (hmn : Rouses m n) : Rouses l n where
  ready := hmn.ready ∘ hlm.ready
  wakeup := hmn.wakeup ∘ hlm.wakeup
  dispatcher := by
    rcases hlm.dispatcher with hsame | ⟨hidle, hwoken, hready⟩
    · rw [← hsame]
      exact hmn.dispatcher
    · rcases hmn.dispatcher with hsame | ⟨hnot, -⟩
      · exact .inr ⟨hidle, hsame.trans hwoken, hmn.ready hready⟩
      · rw [hwoken] at hnot
        cases hnot

@[simp] theorem dispatcher_schedule (m : Runner) (task : Task) :
    (m.schedule task).dispatcher = m.dispatcher := by
  obtain ⟨ready, h⟩ := schedule_eq m task
  rw [h]

@[simp] theorem wakeup_schedule (m : Runner) (task : Task) :
    (m.schedule task).wakeup = m.wakeup := by
  obtain ⟨ready, h⟩ := schedule_eq m task
  rw [h]

theorem rouses_schedule (m : Runner) (task : Task) : Rouses m (m.schedule task) where
  ready := mem_ready_schedule_of_mem task
  wakeup := fun hwakeup => (wakeup_schedule m task).trans hwakeup
  dispatcher := .inl (dispatcher_schedule m task)

theorem rouses_notify (m : Runner) : Rouses m m.notify := by
  unfold notify
  split
  · rename_i hidle
    have hscheduled := rouses_schedule { m with dispatcher := .woken } .dispatcher
    exact ⟨hscheduled.ready, hscheduled.wakeup,
      .inr ⟨hidle, dispatcher_schedule _ _, mem_ready_schedule _ _⟩⟩
  · exact ⟨id, fun _ => rfl, .inl rfl⟩

theorem dispatcher_notify_ne_idle (m : Runner) : m.notify.dispatcher ≠ .idle := by
  unfold notify
  split
  · rw [dispatcher_schedule]
    exact Dispatcher.noConfusion
  · assumption

theorem Changes.rouses (h : Changes m n) : Rouses m n := by
  induction h with
  | trans _ _ ihlm ihmn => exact ihlm.trans ihmn
  | aside hready hwakeup hdispatcher => exact rouses_of_eq hready hwakeup hdispatcher
  | schedule m task => exact rouses_schedule m task
  | notify m => exact rouses_notify m
  | rest => exact rouses_of_eq rfl rfl rfl
  | rouse m id phase =>
    have hphase : Rouses m (m.setPhase id phase) := rouses_of_eq rfl rfl rfl
    exact hphase.trans (rouses_schedule _ _)
  | spawn m r =>
    have hjob : Rouses m
        { m with jobs := m.jobs ++ [⟨m.spawned, r, .spawned⟩], spawned := m.spawned + 1 } :=
      rouses_of_eq rfl rfl rfl
    exact hjob.trans (rouses_schedule _ _)

theorem rouses_begun (m : Runner) (begun : Nat) : Rouses m { m with begun := begun } :=
  rouses_of_eq rfl rfl rfl

theorem rouses_beginProcess (m : Runner) : Rouses m m.beginProcess.1 := by
  unfold beginProcess
  split
  · exact .refl m
  · exact rouses_begun m _

theorem rouses_finishProcess (m : Runner) (turn : Turn) : Rouses m (m.finishProcess turn).1 := by
  unfold finishProcess
  split
  · exact (rouses_begun m _).trans (changes_passOver _ turn).rouses
  · exact .refl m

/-! ## Moves -/

/-- The move leaves it to the dispatcher to pass over the queue. -/
def Move.LeavesDispatcher : Move → Prop
  | .act (.process _) | .act (.finishProcess _) | .act .startDispatcher | .act .shutDown
  | .turn .dispatcher _ => False
  | _ => True

theorem rouses_move (m : Runner) (backend : Backend) {move : Move}
    (h : move.LeavesDispatcher) :
    Rouses m (m.move backend move).1 ∧ ∀ e ∈ (m.move backend move).2, ¬ e.IsPass := by
  cases move with
  | act a =>
    refine ⟨?_, ?_⟩
    · cases a with
      | beginProcess => exact rouses_beginProcess m
      | process | finishProcess | startDispatcher | shutDown => exact h.elim
      | _ => exact (changes_act m (by trivial)).rouses
    · cases a with
      | command c =>
        intro e he hpass
        have hregistry := m.registry.ofRegistry_events c e he
        cases e <;> first | exact hpass.elim | exact hregistry.elim
      | add | enqueue => simp [move, act, Event.IsPass]
      | answer key ending =>
        simp only [move, act]
        split <;> simp
      | beginProcess | dropReceiver => simp [move, act]
      | process | finishProcess | startDispatcher | shutDown => exact h.elim
  | turn task turn =>
    cases task with
    | job id =>
      simp only [Runner.move, taskTurn]
      split
      · have herased : Rouses m { m with ready := m.ready.erase (.job id) } :=
          ⟨(List.mem_erase_of_ne Task.noConfusion).2, fun hwakeup => hwakeup, .inl rfl⟩
        have hworks := works_jobTurn { m with ready := m.ready.erase (.job id) } backend id turn
        exact ⟨herased.trans hworks.changes.rouses, hworks.noPass⟩
      · exact ⟨.refl m, by simp⟩
    | dispatcher => exact h.elim

end AnalysisJobs.Runner
