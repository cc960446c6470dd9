import AnalysisJobs.Proofs.Queue.Order
/-!
# The order of urgency

There are three priorities, so the stable sort of a pass comes to three filters: the requests
for the documents in focus, those for other documents that are shown, and the rest, each of
them in the order of the queue.
-/

namespace AnalysisJobs

/-- The requests in the order of their urgency; those of one priority keep their order. -/
def byUrgency (view : View) (rs : List Request) : List Request :=
  [Priority.current, .visible, .hidden].flatMap fun p => rs.filter fun r => r.priority view = p

variable {view : View} {rs : List Request}

theorem byUrgency_eq (view : View) (rs : List Request) :
    byUrgency view rs = rs.filter (fun r => r.priority view = .current) ++
      (rs.filter (fun r => r.priority view = .visible) ++
        rs.filter fun r => r.priority view = .hidden) := by
  simp [byUrgency]

theorem byUrgency_of_pairwise
    (h : rs.Pairwise fun r s => (r.priority view).rank ≤ (s.priority view).rank) :
    byUrgency view rs = rs := by
  induction h with
  | nil => rfl
  | @cons r rest hr _ ih =>
    have hnone (p : Priority) (hp : p.rank < (r.priority view).rank) :
        (rest.filter fun s => s.priority view = p) = [] := by
      refine List.filter_eq_nil_iff.2 fun s hs hpriority => ?_
      have hle := hr s hs
      rw [of_decide_eq_true hpriority] at hle
      exact Nat.not_lt.2 hle hp
    rw [byUrgency_eq] at ih ⊢
    cases hpriority : r.priority view with
    | current => simp [hpriority, ih]
    | visible =>
      have hcurrent := hnone .current (by rw [hpriority]; decide)
      rw [hcurrent, List.nil_append] at ih
      simp [hpriority, hcurrent, ih]
    | hidden =>
      have hcurrent := hnone .current (by rw [hpriority]; decide)
      have hvisible := hnone .visible (by rw [hpriority]; decide)
      rw [hcurrent, hvisible, List.nil_append, List.nil_append] at ih
      simp [hpriority, hcurrent, hvisible, ih]

namespace Queue

theorem pairwise_sortByPriority (view : View) (rs : List Request) :
    (sortByPriority view rs).Pairwise fun r s =>
      (r.priority view).rank ≤ (s.priority view).rank :=
  (List.pairwise_mergeSort (urgent_trans view) (urgent_total view) rs).imp of_decide_eq_true

theorem filter_priority_sortByPriority (view : View) (p : Priority) (rs : List Request) :
    ((sortByPriority view rs).filter fun r => r.priority view = p) =
      rs.filter fun r => r.priority view = p := by
  refine filter_mergeSort (urgent_trans view) (urgent_total view) ?_ rs
  intro r s hr hs
  rw [urgent, of_decide_eq_true hr, of_decide_eq_true hs]
  exact decide_eq_true (Nat.le_refl _)

theorem sortByPriority_eq_byUrgency (view : View) (rs : List Request) :
    sortByPriority view rs = byUrgency view rs := by
  rw [← byUrgency_of_pairwise (pairwise_sortByPriority view rs), byUrgency_eq, byUrgency_eq,
    filter_priority_sortByPriority, filter_priority_sortByPriority,
    filter_priority_sortByPriority]

end Queue

theorem pairwise_byUrgency (view : View) (rs : List Request) :
    (byUrgency view rs).Pairwise fun r s => (r.priority view).rank ≤ (s.priority view).rank :=
  Queue.sortByPriority_eq_byUrgency view rs ▸ Queue.pairwise_sortByPriority view rs

end AnalysisJobs
