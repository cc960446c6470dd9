import AnalysisJobs.Proofs.Queue.Urgency
import Mathlib.Logic.Function.Iterate
/-!
# Prioritizing between passes

A queue can be brought into the order of urgency at any time.  The sort is stable, so it does not
matter whether the stale requests are dropped before it or after it: a pass over a queue that
stands in its order comes to the same as a pass over the queue before.  What a pass leaves stands
in its order already and holds nothing stale.
-/

namespace AnalysisJobs.Queue

variable {q : Queue} {view : View} {running : DocumentKey → Bool} {rs : List Request}

theorem sortByPriority_of_pairwise
    (h : rs.Pairwise fun r s => (r.priority view).rank ≤ (s.priority view).rank) :
    sortByPriority view rs = rs := by
  rw [sortByPriority_eq_byUrgency, byUrgency_of_pairwise h]

theorem filter_sortByPriority (view : View) (keep : Request → Bool) (rs : List Request) :
    (sortByPriority view rs).filter keep = sortByPriority view (rs.filter keep) := by
  have hcomm (p : Priority) : (rs.filter fun r => r.priority view = p).filter keep =
      (rs.filter keep).filter fun r => r.priority view = p := by
    rw [List.filter_filter, List.filter_filter]
    exact congrArg (rs.filter ·) (funext fun r => Bool.and_comm _ _)
  rw [sortByPriority_eq_byUrgency, sortByPriority_eq_byUrgency, byUrgency_eq, byUrgency_eq,
    List.filter_append, List.filter_append, hcomm, hcomm, hcomm]

theorem prioritize_prioritize (q : Queue) (view : View) :
    (q.prioritize view).prioritize view = q.prioritize view := by
  have hsorted := sortByPriority_of_pairwise (pairwise_sortByPriority view q.pending)
  rw [prioritize, prioritize, hsorted]

theorem iterate_prioritize_succ (q : Queue) (view : View) (n : Nat) :
    (prioritize · view)^[n + 1] q = q.prioritize view := by
  rw [Function.iterate_succ_apply]
  exact Function.iterate_fixed (prioritize_prioritize q view) n

theorem selection_prioritize (q : Queue) (view : View) (running : DocumentKey → Bool) :
    ((q.prioritize view).pass view running).selection = (q.pass view running).selection := by
  have hfresh : (q.prioritize view).fresh view = sortByPriority view (q.fresh view) :=
    filter_sortByPriority view _ q.pending
  have hsorted := sortByPriority_of_pairwise (pairwise_sortByPriority view (q.fresh view))
  rw [pass, pass, hfresh, hsorted, prioritize]

/-! ## What a pass leaves -/

theorem fresh_afterPass (q : Queue) (view : View) (running : DocumentKey → Bool) :
    (q.afterPass (q.pass view running)).fresh view = (q.pass view running).left := by
  refine List.filter_eq_self.2 fun r hr => ?_
  have hstaleness := (mem_fresh.1 (mem_fresh_of_mem_pass (List.mem_append_right _ hr))).2
  rw [Request.isStale, hstaleness]
  rfl

/-- Another pass goes through what a pass has left just as it stands. -/
theorem sortByPriority_fresh_afterPass (q : Queue) (view : View)
    (running : DocumentKey → Bool) :
    sortByPriority view ((q.afterPass (q.pass view running)).fresh view) =
      (q.pass view running).left := by
  have hleft : (q.pass view running).left.Sublist (sortByPriority view (q.fresh view)) :=
    sublist_left_select q.settings view running [] _
  have hsorted := (pairwise_sortByPriority view (q.fresh view)).sublist hleft
  rw [fresh_afterPass, sortByPriority_of_pairwise hsorted]

theorem size_afterPass_lt (h : (q.pass view running).batch ≠ []) :
    (q.afterPass (q.pass view running)).size < q.size := by
  have hle := length_pass_le q view running
  have hpos := List.length_pos_iff.2 h
  exact Nat.lt_of_lt_of_le (Nat.lt_add_of_pos_left hpos) hle

/-! ## Calls before a pass -/

/-- Prioritizing is a stable sort that passes cannot see: doing it again changes nothing, and a
pass after any number of calls hands out and leaves what it does without them. -/
theorem passes_do_not_see_prioritize (q : Queue) (view : View) :
    let sorted := (q.prioritize view).pending
    sorted.Perm q.pending ∧
      (sorted.Pairwise fun r s => (r.priority view).rank ≤ (s.priority view).rank) ∧
      (∀ p : Priority, (sorted.filter fun r => r.priority view = p) =
        q.pending.filter fun r => r.priority view = p) ∧
      (q.prioritize view).prioritize view = q.prioritize view ∧
      ∀ (n : Nat) (running : DocumentKey → Bool),
        let later := (prioritize · view)^[n] q
        (later.pass view running).batch = (q.pass view running).batch ∧
          later.afterPass (later.pass view running) = q.afterPass (q.pass view running) := by
  intro sorted
  refine ⟨List.mergeSort_perm q.pending (urgent view), pairwise_sortByPriority view q.pending,
    fun p => filter_priority_sortByPriority view p q.pending, prioritize_prioritize q view,
    fun n running => ?_⟩
  cases n with
  | zero => exact ⟨rfl, rfl⟩
  | succ n =>
    intro later
    have hlater : later = q.prioritize view := iterate_prioritize_succ q view n
    have hselection := selection_prioritize q view running
    rw [hlater]
    refine ⟨congrArg Selection.batch hselection, ?_⟩
    exact congrArg (fun s : Selection => { q with pending := s.left }) hselection

end AnalysisJobs.Queue
