import AnalysisJobs.Proofs.Queue.Verdicts
import Mathlib.Data.List.Infix
/-!
# What the limits of a pass take away

The settings bound a batch and can make the requests for hidden documents wait.  A bound ends the
batch early and changes nothing in front of that point.  Hidden documents come last in the order
of urgency, so making them wait cuts off the end of the batch as well.
-/

namespace AnalysisJobs

namespace Settings

def withLimits (s : Settings) (bound : Option Nat) (defer : Bool) : Settings :=
  { s with maxBatch := bound, deferHidden := defer }

def unbounded (s : Settings) : Settings := { s with maxBatch := none }

end Settings

namespace Queue

def withLimits (q : Queue) (bound : Option Nat) (defer : Bool) : Queue :=
  { q with settings := q.settings.withLimits bound defer }

end Queue

/-! ## One request of a selection -/

section Select

variable {settings : Settings} {view : View} {running : DocumentKey → Bool}
  {taken : List DocumentKey} {r : Request} {rs : List Request}

/-- The request is not taken, however much room the batch has. -/
def MustWait (settings : Settings) (view : View) (running : DocumentKey → Bool)
    (taken : List DocumentKey) (r : Request) : Prop :=
  (∃ k ∈ taken, k.Same r.key) ∨ running r.key = true ∨ Deferred settings view r

theorem mustWait_cons {k : DocumentKey} :
    MustWait settings view running (k :: taken) r ↔
      k.Same r.key ∨ MustWait settings view running taken r := by
  simp [MustWait, or_assoc]

theorem select_cons_of_mustWait (h : MustWait settings view running taken r)
    (rest : List Request) :
    (select settings view running taken (r :: rest)).batch =
        (select settings view running taken rest).batch ∧
      (select settings view running taken (r :: rest)).left =
        r :: (select settings view running taken rest).left := by
  rw [select]
  split
  · exact ⟨rfl, rfl⟩
  split
  · exact ⟨rfl, rfl⟩
  split
  · exact ⟨rfl, rfl⟩
  split
  · exact ⟨rfl, rfl⟩
  next htaken hrunning hdeferred =>
    rcases h with ⟨k, hk, hsame⟩ | hbusy | hhidden
    · exact absurd (List.any_eq_true.2 ⟨k, hk, decide_eq_true hsame⟩) htaken
    · exact absurd hbusy hrunning
    · refine absurd ?_ hdeferred
      rw [Bool.and_eq_true, decide_eq_true_eq]
      exact hhidden

theorem select_cons_of_not_mustWait
    (hroom : ¬ fillsBatch settings.maxBatch taken.length = true)
    (h : ¬ MustWait settings view running taken r) (rest : List Request) :
    (select settings view running taken (r :: rest)).batch =
        r :: (select settings view running (r.key :: taken) rest).batch ∧
      (select settings view running taken (r :: rest)).left =
        (select settings view running (r.key :: taken) rest).left := by
  have htaken : ¬ (taken.any fun k => k.Same r.key) = true := by
    intro hany
    obtain ⟨k, hk, hsame⟩ := List.any_eq_true.1 hany
    exact h (.inl ⟨k, hk, of_decide_eq_true hsame⟩)
  have hrunning : ¬ running r.key = true := fun hbusy => h (.inr (.inl hbusy))
  have hdeferred : ¬ (settings.deferHidden && r.priority view = .hidden) = true := by
    rw [Bool.and_eq_true, decide_eq_true_eq]
    exact fun hhidden => h (.inr (.inr hhidden))
  rw [select, if_neg hroom, if_neg htaken, if_neg hrunning, if_neg hdeferred]
  exact ⟨rfl, rfl⟩

theorem not_fillsBatch_none (n : Nat) : ¬ fillsBatch none n = true := Bool.false_ne_true

theorem mem_of_mem_batch_select (h : r ∈ (select settings view running taken rs).batch) :
    r ∈ rs :=
  (perm_select settings view running taken rs).subset (List.mem_append_left _ h)

theorem not_mustWait_of_mem_batch_select
    (h : r ∈ (select settings view running taken rs).batch) :
    ¬ MustWait settings view running taken r := by
  obtain ⟨hfree, hother⟩ := of_mem_batch_select h
  have hshown := not_deferred_of_mem_batch_select h
  rw [Bool.and_eq_true, decide_eq_true_eq] at hshown
  rintro (⟨k, hk, hsame⟩ | hbusy | hhidden)
  · exact hother k hk hsame
  · exact Bool.false_ne_true (hfree.symm.trans hbusy)
  · exact hshown hhidden

/-! ## A bound -/

/-- A bounded batch is the front of the batch without a bound. -/
theorem batch_select_bounded {bound : Nat} (hbound : settings.maxBatch = some bound)
    (view : View) (running : DocumentKey → Bool) (taken : List DocumentKey)
    (rs : List Request) :
    (select settings view running taken rs).batch =
      (select settings.unbounded view running taken rs).batch.take (bound - taken.length) := by
  induction rs generalizing taken with
  | nil => exact List.take_nil.symm
  | cons r rest ih =>
    by_cases hfull : bound ≤ taken.length
    · have hfills : fillsBatch settings.maxBatch taken.length = true := by
        rw [hbound]
        exact decide_eq_true hfull
      rw [batch_select_of_full hfills, Nat.sub_eq_zero_of_le hfull, List.take_zero]
    have hroom : ¬ fillsBatch settings.maxBatch taken.length = true := by
      simpa [hbound, fillsBatch] using hfull
    by_cases hr : MustWait settings view running taken r
    · have hr' : MustWait settings.unbounded view running taken r := hr
      rw [(select_cons_of_mustWait hr rest).1, (select_cons_of_mustWait hr' rest).1, ih taken]
    · have hr' : ¬ MustWait settings.unbounded view running taken r := hr
      have hrest : bound - taken.length = bound - (r.key :: taken).length + 1 := by
        rw [List.length_cons]
        omega
      rw [(select_cons_of_not_mustWait hroom hr rest).1,
        (select_cons_of_not_mustWait (not_fillsBatch_none _) hr' rest).1, hrest,
        List.take_succ_cons, ih (r.key :: taken)]

/-! ## Hidden documents -/

theorem forall_hidden_of_first (h : ∀ s ∈ rs, (r.priority view).rank ≤ (s.priority view).rank)
    (hr : r.priority view = .hidden) : ∀ s ∈ r :: rs, s.priority view = .hidden := by
  refine List.forall_mem_cons.2 ⟨hr, fun s hs => ?_⟩
  have hrank := h s hs
  rw [hr] at hrank
  cases hpriority : s.priority view with
  | hidden => rfl
  | current => simp [hpriority, Priority.rank] at hrank
  | visible => simp [hpriority, Priority.rank] at hrank

theorem filter_shown_of_hidden (h : ∀ s ∈ rs, s.priority view = .hidden) :
    (rs.filter fun s => s.priority view ≠ .hidden) = [] := by
  refine List.filter_eq_nil_iff.2 fun s hs hshown => ?_
  exact of_decide_eq_true hshown (h s hs)

theorem filter_shown_prefix
    (h : rs.Pairwise fun r s => (r.priority view).rank ≤ (s.priority view).rank) :
    (rs.filter fun r => r.priority view ≠ .hidden) <+: rs := by
  induction h with
  | nil => exact List.nil_prefix
  | @cons r rest hr _ ih =>
    by_cases hhidden : r.priority view = .hidden
    · rw [filter_shown_of_hidden (forall_hidden_of_first hr hhidden)]
      exact List.nil_prefix
    · rw [List.filter_cons_of_pos (by simpa using hhidden)]
      exact (List.prefix_cons_inj r).2 ih

/-- Making hidden documents wait takes their requests out of the batch and nothing else. -/
theorem batch_select_deferring (s : Settings) (view : View) (running : DocumentKey → Bool)
    (taken : List DocumentKey)
    (h : rs.Pairwise fun r s => (r.priority view).rank ≤ (s.priority view).rank) :
    (select (s.withLimits none true) view running taken rs).batch =
      (select (s.withLimits none false) view running taken rs).batch.filter
        fun r => r.priority view ≠ .hidden := by
  induction h generalizing taken with
  | nil => rfl
  | @cons r rest hr _ ih =>
    by_cases hhidden : r.priority view = .hidden
    · -- nothing shown comes after a hidden document, so both sides are empty
      have hall := forall_hidden_of_first hr hhidden
      rw [filter_shown_of_hidden fun s hs => hall s (mem_of_mem_batch_select hs)]
      refine List.eq_nil_iff_forall_not_mem.2 fun s hs => ?_
      have hdeferred := hall s (mem_of_mem_batch_select hs)
      exact not_mustWait_of_mem_batch_select hs (.inr (.inr ⟨rfl, hdeferred⟩))
    · have hsame : MustWait (s.withLimits none true) view running taken r ↔
          MustWait (s.withLimits none false) view running taken r := by
        simp [MustWait, Deferred, hhidden]
      by_cases hwaits : MustWait (s.withLimits none false) view running taken r
      · rw [(select_cons_of_mustWait (hsame.2 hwaits) rest).1,
          (select_cons_of_mustWait hwaits rest).1]
        exact ih taken
      · rw [(select_cons_of_not_mustWait (not_fillsBatch_none _) (mt hsame.1 hwaits) rest).1,
          (select_cons_of_not_mustWait (not_fillsBatch_none _) hwaits rest).1,
          List.filter_cons_of_pos (by simpa using hhidden), ih (r.key :: taken)]

end Select

/-! ## Passes under other limits -/

namespace Queue

/-- Limits only truncate: under any limits, a pass hands out the front of what it hands out
without, less the requests for hidden documents if these have to wait. -/
theorem limits_only_truncate (q : Queue) (view : View) (running : DocumentKey → Bool) :
    let batch (bound : Option Nat) (defer : Bool) :=
      ((q.withLimits bound defer).pass view running).batch
    let shown := (batch none false).filter fun r => r.priority view ≠ .hidden
    (∀ bound defer, batch bound defer =
        let whole := if defer then shown else batch none false
        bound.elim whole fun n => whole.take n) ∧
      ∀ bound, batch bound true <+: batch bound false := by
  intro batch shown
  have hsorted := pairwise_sortByPriority view (q.fresh view)
  have hunbounded (defer : Bool) :
      batch none defer = if defer then shown else batch none false := by
    cases defer with
    | false => rfl
    | true => exact batch_select_deferring q.settings view running [] hsorted
  have hbounded (n : Nat) (defer : Bool) : batch (some n) defer = (batch none defer).take n :=
    batch_select_bounded rfl view running [] _
  have hprefix : batch none true <+: batch none false := by
    obtain ⟨entries, hdivides, -⟩ := exists_divides_pass (q.withLimits none false) view running
    rw [hunbounded true]
    exact filter_shown_prefix ((pairwise_byUrgency view _).sublist hdivides.sublist_batch)
  refine ⟨fun bound defer => ?_, fun bound => ?_⟩
  · cases bound with
    | none => exact hunbounded defer
    | some n => exact (hbounded n defer).trans (congrArg (List.take n) (hunbounded defer))
  · cases bound with
    | none => exact hprefix
    | some n =>
      rw [hbounded n true, hbounded n false]
      exact hprefix.take n

end Queue

end AnalysisJobs
