import AnalysisJobs.Documents.Lemmas
import AnalysisJobs.Proofs.Queue.Selection
import AnalysisJobs.Registry.Basic
/-!
# Requests of one document keep their order

Requests of one document have one priority, one answer about its job and one place among
the documents taken, so a pass treats them alike until it takes one of them.  It takes
the first that is not stale and leaves the others behind it, in their order.
-/

namespace AnalysisJobs

def requestsFor (key : DocumentKey) (rs : List Request) : List Request :=
  rs.filter fun r => r.isFor key

section RequestsFor

variable {key : DocumentKey} {r : Request} {rs : List Request}

theorem isFor_iff :
    r.isFor key = true ↔ r.key.Same key := decide_eq_true_iff

theorem requestsFor_append (key : DocumentKey) (rs ss : List Request) :
    requestsFor key (rs ++ ss) = requestsFor key rs ++ requestsFor key ss :=
  List.filter_append rs ss

theorem requestsFor_cons_of_same (h : r.key.Same key)
    (rs : List Request) : requestsFor key (r :: rs) = r :: requestsFor key rs := by
  rw [requestsFor, List.filter_cons, if_pos (isFor_iff.2 h), requestsFor]

theorem requestsFor_cons_of_not_same (h : ¬ r.key.Same key)
    (rs : List Request) : requestsFor key (r :: rs) = requestsFor key rs := by
  rw [requestsFor, List.filter_cons, if_neg (mt isFor_iff.1 h), requestsFor]

theorem mem_requestsFor :
    r ∈ requestsFor key rs ↔ r ∈ rs ∧ r.key.Same key := by
  rw [requestsFor, List.mem_filter, isFor_iff]

theorem requestsFor_eq_nil_iff :
    requestsFor key rs = [] ↔ ∀ r ∈ rs, ¬ r.key.Same key := by
  simp only [requestsFor, List.filter_eq_nil_iff, isFor_iff]

theorem requestsFor_eq_singleton (h : rs.Pairwise fun r s => ¬ r.key.Same s.key) (hr : r ∈ rs)
    (hkey : r.key.Same key) : requestsFor key rs = [r] := by
  induction h with
  | nil => cases hr
  | @cons first rest hfirst _ ih =>
    rcases List.mem_cons.1 hr with rfl | hr
    · have hnone : requestsFor key rest = [] :=
        requestsFor_eq_nil_iff.2 fun s hs hsame => hfirst s hs (hkey.trans hsame.symm)
      rw [requestsFor_cons_of_same hkey, hnone]
    · have hother : ¬ first.key.Same key :=
        fun hsame => hfirst r hr (hsame.trans hkey.symm)
      rw [requestsFor_cons_of_not_same hother]
      exact ih hr

end RequestsFor

namespace View

/-- Every spelling of a key finds the same document. -/
def IgnoresSpelling (view : View) : Prop :=
  ∀ k l : DocumentKey, k.Same l → view.document k = view.document l

theorem IgnoresSpelling.priority {view : View} (h : view.IgnoresSpelling) {r s : Request}
    (hkey : r.key.Same s.key) : r.priority view = s.priority view := by
  rw [Request.priority, Request.priority, h _ _ hkey]

end View

theorem Registry.ignoresSpelling_view (reg : Registry) : reg.view.IgnoresSpelling :=
  fun _ _ h => reg.documents.find?_congr h

/-! ## Sorting -/

theorem filter_mergeSort {α : Type} {le : α → α → Bool}
    (htrans : ∀ a b c, le a b = true → le b c = true → le a c = true)
    (htotal : ∀ a b, (le a b || le b a) = true) {p : α → Bool}
    (htied : ∀ a b, p a = true → p b = true → le a b = true) (l : List α) :
    (l.mergeSort le).filter p = l.filter p := by
  have hequal : (l.filter p).Pairwise fun a b => le a b = true :=
    List.pairwise_of_forall_mem_list fun a ha b hb =>
      htied a b (List.mem_filter.1 ha).2 (List.mem_filter.1 hb).2
  have hsub := (List.sublist_mergeSort htrans htotal hequal List.filter_sublist).filter p
  rw [List.filter_filter] at hsub
  simp only [Bool.and_self] at hsub
  have hlength := ((List.mergeSort_perm l le).filter p).length_eq
  exact (hsub.eq_of_length hlength.symm).symm

theorem Queue.urgent_trans (view : View) (r s t : Request) (hrs : Queue.urgent view r s = true)
    (hst : Queue.urgent view s t = true) : Queue.urgent view r t = true :=
  decide_eq_true (Nat.le_trans (of_decide_eq_true hrs) (of_decide_eq_true hst))

theorem Queue.urgent_total (view : View) (r s : Request) :
    (Queue.urgent view r s || Queue.urgent view s r) = true := by
  simp only [Queue.urgent, Bool.or_eq_true, decide_eq_true_eq]
  exact Nat.le_total _ _

theorem Queue.sortByPriority_pair (view : View) (r s : Request) :
    Queue.sortByPriority view [r, s] = if Queue.urgent view r s then [r, s] else [s, r] := by
  simp [Queue.sortByPriority, List.mergeSort, List.merge]

theorem requestsFor_sortByPriority {view : View} (hview : view.IgnoresSpelling)
    (key : DocumentKey) (rs : List Request) :
    requestsFor key (Queue.sortByPriority view rs) = requestsFor key rs := by
  refine filter_mergeSort (Queue.urgent_trans view) (Queue.urgent_total view) ?_ rs
  intro r s hr hs
  rw [Queue.urgent, hview.priority ((isFor_iff.1 hr).trans (isFor_iff.1 hs).symm)]
  exact decide_eq_true (Nat.le_refl _)

/-! ## Selecting -/

section Select

variable {settings : Settings} {view : View} {running : DocumentKey → Bool}
  {taken : List DocumentKey} {rs : List Request}

theorem batch_select_of_full (h : fillsBatch settings.maxBatch taken.length = true)
    (rs : List Request) : (select settings view running taken rs).batch = [] := by
  induction rs with
  | nil => rfl
  | cons r rest ih =>
    rw [select, if_pos h]
    exact ih

theorem not_deferred_of_mem_batch_select {r : Request}
    (h : r ∈ (select settings view running taken rs).batch) :
    ¬ (settings.deferHidden && r.priority view = .hidden) = true := by
  fun_induction select settings view running taken rs with
  | case1 => cases h
  | case2 taken s rest hfull ih => exact ih h
  | case3 taken s rest hfull htaken ih => exact ih h
  | case4 taken s rest hfull htaken hrunning ih => exact ih h
  | case5 taken s rest hfull htaken hrunning hhidden ih => exact ih h
  | case6 taken s rest hfull htaken hrunning hhidden ih =>
    rcases List.mem_cons.1 h with rfl | h
    · exact hhidden
    · exact ih h

theorem requestsFor_leave {key : DocumentKey} {r : Request} {batch left rest : List Request}
    (hnone : ∀ s ∈ batch, ¬ s.key.Same r.key)
    (h : requestsFor key batch ++ requestsFor key left = requestsFor key rest) :
    requestsFor key batch ++ requestsFor key (r :: left) = requestsFor key (r :: rest) := by
  by_cases hr : r.key.Same key
  · have hbatch : requestsFor key batch = [] :=
      requestsFor_eq_nil_iff.2 fun s hs hsame => hnone s hs (hsame.trans hr.symm)
    rw [hbatch, List.nil_append] at h ⊢
    rw [requestsFor_cons_of_same hr, requestsFor_cons_of_same hr, h]
  · rw [requestsFor_cons_of_not_same hr, requestsFor_cons_of_not_same hr, h]

/-- Of each document, a selection takes the requests in front and leaves those behind. -/
theorem requestsFor_select (hview : view.IgnoresSpelling)
    (hrunning : ∀ k l : DocumentKey, k.Same l → running k = running l) (key : DocumentKey)
    (taken : List DocumentKey) (rs : List Request) :
    requestsFor key (select settings view running taken rs).batch ++
        requestsFor key (select settings view running taken rs).left =
      requestsFor key rs := by
  fun_induction select settings view running taken rs with
  | case1 => rfl
  | case2 taken r rest hfull ih =>
    have hnone : (select settings view running taken rest).batch = [] :=
      batch_select_of_full hfull rest
    exact requestsFor_leave (fun s hs => absurd (hnone ▸ hs) List.not_mem_nil) ih
  | case3 taken r rest hfull htaken ih =>
    refine requestsFor_leave (fun s hs hsame => ?_) ih
    obtain ⟨k, hk, hkey⟩ := List.any_eq_true.1 htaken
    exact (of_mem_batch_select hs).2 k hk ((of_decide_eq_true hkey).trans hsame.symm)
  | case4 taken r rest hfull htaken hbusy ih =>
    refine requestsFor_leave (fun s hs hsame => ?_) ih
    have hfree := (of_mem_batch_select hs).1
    rw [hrunning _ _ hsame, hbusy] at hfree
    cases hfree
  | case5 taken r rest hfull htaken hbusy hhidden ih =>
    refine requestsFor_leave (fun s hs hsame => ?_) ih
    have hshown := not_deferred_of_mem_batch_select hs
    rw [hview.priority hsame] at hshown
    exact hshown hhidden
  | case6 taken r rest hfull htaken hbusy hhidden ih =>
    rw [Selection.take]
    by_cases hr : r.key.Same key
    · rw [requestsFor_cons_of_same hr, requestsFor_cons_of_same hr, List.cons_append, ih]
    · rw [requestsFor_cons_of_not_same hr, requestsFor_cons_of_not_same hr, ih]

end Select

namespace Queue

/-- Of each document, a pass takes the first request that is not stale, if it takes one,
and leaves those behind it in their order. -/
theorem requestsFor_pass (q : Queue) {view : View} {running : DocumentKey → Bool}
    (hview : view.IgnoresSpelling)
    (hrunning : ∀ k l : DocumentKey, k.Same l → running k = running l) (key : DocumentKey) :
    requestsFor key (q.pass view running).batch ++ requestsFor key (q.pass view running).left =
      requestsFor key (q.fresh view) :=
  (requestsFor_select hview hrunning key [] _).trans (requestsFor_sortByPriority hview key _)

end Queue

end AnalysisJobs
