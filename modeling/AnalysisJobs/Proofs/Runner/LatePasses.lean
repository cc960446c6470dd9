import AnalysisJobs.Proofs.Runner.Passes
import AnalysisJobs.Proofs.Runner.Prompt
/-!
# Passes after a shutdown

Where nobody passes over the queue it only grows, and what is in flight only ends.  After a
shutdown the dispatcher is gone and whoever asks for a pass gets nothing.  But nobody tells a
caller who asked before and still waits for the registry: his pass comes after the shutdown as
it would have come without it.  There are no more of these passes than callers who waited.
-/

namespace AnalysisJobs

namespace Runner

variable {crashes : Prop} {m n : Runner} {backend : Backend}

/-! ## Steps without a pass -/

/-- Where nobody passes over the queue it only grows, and what is in flight only ends. -/
structure WindsDown (m : Runner) (asked : List Request) (events : List Event) (n : Runner) :
    Prop where
  pending : n.queue.pending = m.queue.pending ++ asked
  dropped : events.filterMap Event.dropped? = []
  started : events.filterMap Event.started? = []
  flow : Flow m asked events n

theorem WindsDown.append {l : Runner} {first second : List Request} {before after : List Event}
    (hbefore : WindsDown l first before m) (hafter : WindsDown m second after n) :
    WindsDown l (first ++ second) (before ++ after) n where
  pending := by rw [hafter.pending, hbefore.pending, List.append_assoc]
  dropped := by rw [List.filterMap_append, hbefore.dropped, hafter.dropped, List.append_nil]
  started := by rw [List.filterMap_append, hbefore.started, hafter.started, List.append_nil]
  flow := hbefore.flow.append hafter.flow

theorem Flow.perm_inFlight {asked : List Request} {events : List Event}
    (h : Flow m asked events n) : (m.inFlight ++ events.filterMap Event.started?).Perm
      ((events.filterMap Event.outcome?).map Prod.fst ++ n.inFlight) := by
  have houtcomes : (events.filterMap Event.outcome?).map Prod.fst =
      (events.filterMap Event.ended?).map fun e => e.1 := by
    rw [h.announced, List.map_map]
    rfl
  rw [houtcomes]
  exact h.carried.trans List.perm_append_comm

theorem Step.roster_subset_of_no_pass {move : Move} {events : List Event}
    (hstep : Step crashes m move events n) (hnone : ∀ e ∈ events, ¬ e.IsPass) :
    n.roster ⊆ m.roster := by
  rcases hstep.passes_or_roster_subset with hpasses | ⟨-, hroster⟩
  · rw [(hpasses.sameWork_of_no_pass hnone).1.roster]
    exact List.Subset.refl _
  · exact hroster

/-- After a shutdown only those who waited for the registry pass over the queue. -/
theorem not_isPass_move (hshut : m.isShutDown = true) (backend : Backend) {move : Move}
    (hmove : ∀ turn, move ≠ .act (.finishProcess turn)) :
    ∀ e ∈ (m.move backend move).2, ¬ e.IsPass := by
  intro e he hpass
  rcases cases_of_isPass ⟨e, he, hpass⟩ with ⟨-, -, hopen⟩ | ⟨turn, hfinish, -⟩ | ⟨-, -, hopen, -⟩
  · rw [hshut] at hopen
    cases hopen
  · exact hmove turn hfinish
  · rw [hshut] at hopen
    cases hopen

end Runner

end AnalysisJobs
