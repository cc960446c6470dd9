import AnalysisJobs.Queue
/-!
# What a pass takes and what it leaves

A pass splits the queue: what was stale is dropped, and the batch and what is
left make up the rest.  The documents of a batch are pairwise distinct, and none
of them has a job.
-/

namespace AnalysisJobs

section Select

variable {settings : Settings} {view : View} {running : DocumentKey → Bool}
  {taken : List DocumentKey} {rs : List Request}

theorem perm_select (settings : Settings) (view : View) (running : DocumentKey → Bool)
    (taken : List DocumentKey) (rs : List Request) :
    ((select settings view running taken rs).batch ++
      (select settings view running taken rs).left).Perm rs := by
  fun_induction select settings view running taken rs with
  | case1 => exact .refl _
  | case2 taken r rest hfull ih => exact List.perm_middle.trans (ih.cons r)
  | case3 taken r rest hfull htaken ih => exact List.perm_middle.trans (ih.cons r)
  | case4 taken r rest hfull htaken hrunning ih => exact List.perm_middle.trans (ih.cons r)
  | case5 taken r rest hfull htaken hrunning hhidden ih =>
    exact List.perm_middle.trans (ih.cons r)
  | case6 taken r rest hfull htaken hrunning hhidden ih => exact ih.cons r

theorem sublist_left_select (settings : Settings) (view : View)
    (running : DocumentKey → Bool) (taken : List DocumentKey) (rs : List Request) :
    (select settings view running taken rs).left.Sublist rs := by
  fun_induction select settings view running taken rs with
  | case1 => exact .refl _
  | case2 taken r rest hfull ih => exact ih.cons_cons r
  | case3 taken r rest hfull htaken ih => exact ih.cons_cons r
  | case4 taken r rest hfull htaken hrunning ih => exact ih.cons_cons r
  | case5 taken r rest hfull htaken hrunning hhidden ih => exact ih.cons_cons r
  | case6 taken r rest hfull htaken hrunning hhidden ih => exact ih.cons r

theorem of_mem_batch_select {r : Request}
    (h : r ∈ (select settings view running taken rs).batch) :
    running r.key = false ∧ ∀ k ∈ taken, ¬ k.Same r.key := by
  fun_induction select settings view running taken rs with
  | case1 => cases h
  | case2 taken s rest hfull ih => exact ih h
  | case3 taken s rest hfull htaken ih => exact ih h
  | case4 taken s rest hfull htaken hrunning ih => exact ih h
  | case5 taken s rest hfull htaken hrunning hhidden ih => exact ih h
  | case6 taken s rest hfull htaken hrunning hhidden ih =>
    rcases List.mem_cons.1 h with rfl | h
    · refine ⟨Bool.eq_false_iff.2 hrunning, fun k hk hsame => htaken ?_⟩
      exact List.any_eq_true.2 ⟨k, hk, decide_eq_true hsame⟩
    · obtain ⟨hfree, hother⟩ := ih h
      exact ⟨hfree, fun k hk => hother k (List.mem_cons_of_mem _ hk)⟩

theorem pairwise_batch_select (settings : Settings) (view : View)
    (running : DocumentKey → Bool) (taken : List DocumentKey) (rs : List Request) :
    (select settings view running taken rs).batch.Pairwise fun r s => ¬ r.key.Same s.key := by
  fun_induction select settings view running taken rs with
  | case1 => exact .nil
  | case2 taken r rest hfull ih => exact ih
  | case3 taken r rest hfull htaken ih => exact ih
  | case4 taken r rest hfull htaken hrunning ih => exact ih
  | case5 taken r rest hfull htaken hrunning hhidden ih => exact ih
  | case6 taken r rest hfull htaken hrunning hhidden ih =>
    refine .cons (fun s hs => ?_) ih
    exact (of_mem_batch_select hs).2 r.key List.mem_cons_self

theorem fillsBatch_mono {maxBatch : Option Nat} {n k : Nat} (hle : n ≤ k)
    (h : fillsBatch maxBatch n = true) : fillsBatch maxBatch k = true := by
  cases maxBatch with
  | none => cases h
  | some bound =>
    simp only [fillsBatch, Option.any_some, decide_eq_true_eq] at h ⊢
    exact Nat.le_trans h hle

theorem not_fillsBatch_zero {maxBatch : Option Nat} (hroom : maxBatch ≠ some 0) :
    ¬ fillsBatch maxBatch 0 = true := by
  cases maxBatch with
  | none => exact Bool.false_ne_true
  | some bound =>
    simp only [fillsBatch, Option.any_some, decide_eq_true_eq, Nat.le_zero]
    exact fun hbound => hroom (congrArg some hbound)

/-- A request is left because the batch is full, because another one for its document was
taken, because its document has a job, or because it is deferred. -/
theorem mem_left_select_cases {r : Request}
    (h : r ∈ (select settings view running taken rs).left) :
    fillsBatch settings.maxBatch
        (taken.length + (select settings view running taken rs).batch.length) = true ∨
      ((∃ k ∈ taken, k.Same r.key) ∨
        ∃ s ∈ (select settings view running taken rs).batch, s.key.Same r.key) ∨
      running r.key = true ∨ settings.deferHidden = true ∧ r.priority view = .hidden := by
  fun_induction select settings view running taken rs with
  | case1 => cases h
  | case2 taken s rest hfull ih =>
    exact .inl (fillsBatch_mono (Nat.le_add_right _ _) hfull)
  | case3 taken s rest hfull htaken ih =>
    rcases List.mem_cons.1 h with rfl | h
    · obtain ⟨k, hk, hsame⟩ := List.any_eq_true.1 htaken
      exact .inr (.inl (.inl ⟨k, hk, of_decide_eq_true hsame⟩))
    · exact ih h
  | case4 taken s rest hfull htaken hrunning ih =>
    rcases List.mem_cons.1 h with rfl | h
    · exact .inr (.inr (.inl hrunning))
    · exact ih h
  | case5 taken s rest hfull htaken hrunning hhidden ih =>
    rcases List.mem_cons.1 h with rfl | h
    · rw [Bool.and_eq_true, decide_eq_true_eq] at hhidden
      exact .inr (.inr (.inr hhidden))
    · exact ih h
  | case6 taken s rest hfull htaken hrunning hhidden ih =>
    rcases ih h with hfilled | hsame | hleft
    · refine .inl ?_
      rwa [List.length_cons, Nat.add_right_comm] at hfilled
    · refine .inr (.inl ?_)
      rcases hsame with ⟨k, hk, hsame⟩ | ⟨t, ht, hsame⟩
      · rcases List.mem_cons.1 hk with rfl | hk
        · exact .inr ⟨s, List.mem_cons_self, hsame⟩
        · exact .inl ⟨k, hk, hsame⟩
      · exact .inr ⟨t, List.mem_cons_of_mem s ht, hsame⟩
    · exact .inr (.inr hleft)

theorem of_mem_left_select (hroom : settings.maxBatch ≠ some 0)
    (hnone : (select settings view running [] rs).batch = []) {r : Request}
    (h : r ∈ (select settings view running [] rs).left) :
    running r.key = true ∨ settings.deferHidden = true ∧ r.priority view = .hidden := by
  rcases mem_left_select_cases h with hfull | (⟨k, hk, -⟩ | ⟨s, hs, -⟩) | hleft
  · rw [hnone] at hfull
    exact absurd hfull (not_fillsBatch_zero hroom)
  · cases hk
  · rw [hnone] at hs
    cases hs
  · exact hleft

end Select

namespace Queue

variable {q : Queue} {view : View} {running : DocumentKey → Bool}

theorem mem_stale {r : Request} {reason : Staleness} :
    (r, reason) ∈ q.stale view ↔ r ∈ q.pending ∧ r.staleness view = some reason := by
  simp only [stale, List.mem_filterMap, Option.map_eq_some_iff, Prod.mk.injEq]
  constructor
  · rintro ⟨s, hs, reason', hreason, rfl, rfl⟩
    exact ⟨hs, hreason⟩
  · rintro ⟨hr, hreason⟩
    exact ⟨r, hr, reason, hreason, rfl, rfl⟩

theorem map_fst_stale (q : Queue) (view : View) :
    (q.stale view).map Prod.fst = q.pending.filter fun r => r.isStale view := by
  unfold stale
  induction q.pending with
  | nil => rfl
  | cons r rest ih =>
    cases h : r.staleness view with
    | none => simp [Request.isStale, h, ih]
    | some reason => simp [Request.isStale, h, ih]

theorem perm_fresh_pass (q : Queue) (view : View) (running : DocumentKey → Bool) :
    ((q.pass view running).batch ++ (q.pass view running).left).Perm (q.fresh view) :=
  (perm_select q.settings view running [] (sortByPriority view (q.fresh view))).trans
    (List.mergeSort_perm (q.fresh view) (urgent view))

theorem perm_pass (q : Queue) (view : View) (running : DocumentKey → Bool) :
    q.pending.Perm (((q.pass view running).dropped.map Prod.fst) ++
      ((q.pass view running).batch ++ (q.pass view running).left)) := by
  refine (List.filter_append_perm (fun r => r.isStale view) q.pending).symm.trans ?_
  rw [show (q.pass view running).dropped = q.stale view from rfl, map_fst_stale]
  exact (List.Perm.refl _).append (q.perm_fresh_pass view running).symm

theorem not_running_of_mem_batch {r : Request} (h : r ∈ (q.pass view running).batch) :
    running r.key = false :=
  (of_mem_batch_select h).1

theorem fresh_eq (q : Queue) (view : View) :
    q.fresh view = q.pending.filter fun r => (r.staleness view).isNone := by
  simp [fresh, Request.isStale]

theorem mem_fresh {r : Request} :
    r ∈ q.fresh view ↔ r ∈ q.pending ∧ r.staleness view = none := by
  simp [fresh, Request.isStale]

theorem mem_fresh_of_mem_pass {r : Request}
    (h : r ∈ (q.pass view running).batch ++ (q.pass view running).left) : r ∈ q.fresh view :=
  (q.perm_fresh_pass view running).subset h

theorem staleness_of_mem_batch {r : Request} (h : r ∈ (q.pass view running).batch) :
    r.staleness view = none :=
  (mem_fresh.1 (mem_fresh_of_mem_pass (List.mem_append_left _ h))).2

theorem pairwise_batch (q : Queue) (view : View) (running : DocumentKey → Bool) :
    (q.pass view running).batch.Pairwise fun r s => ¬ r.key.Same s.key :=
  pairwise_batch_select q.settings view running [] _

/-- A pass takes a fresh request or another one for its document, unless the document has a
job, the request is deferred or the batch is full. -/
theorem mem_batch_cases (running : DocumentKey → Bool) {r : Request} (hr : r ∈ q.pending)
    (hfresh : r.staleness view = none) :
    (∃ s ∈ (q.pass view running).batch, s.key.Same r.key) ∨ running r.key = true ∨
      (q.settings.deferHidden = true ∧ r.priority view = .hidden) ∨
      fillsBatch q.settings.maxBatch (q.pass view running).batch.length = true := by
  have hsplit := (q.perm_fresh_pass view running).symm.subset (mem_fresh.2 ⟨hr, hfresh⟩)
  rcases List.mem_append.1 hsplit with htaken | hleft
  · exact .inl ⟨r, htaken, r.key.same_refl⟩
  · rcases mem_left_select_cases hleft with hfull | (⟨k, hk, -⟩ | hsame) | hrunning | hhidden
    · rw [List.length_nil, Nat.zero_add] at hfull
      exact .inr (.inr (.inr hfull))
    · cases hk
    · exact .inl hsame
    · exact .inr (.inl hrunning)
    · exact .inr (.inr (.inl hhidden))

end Queue

end AnalysisJobs
