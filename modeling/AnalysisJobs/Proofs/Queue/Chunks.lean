import AnalysisJobs.Proofs.Queue.Limits
import AnalysisJobs.Proofs.Queue.Prioritizing
import AnalysisJobs.Registry.Command
/-!
# A batch in chunks

Where batches are bounded, passes that follow one another hand out what a single pass without a
bound hands out at once.  A bound cuts a scan short, and the requests behind the cut stay mixed
with those that had to wait in front of it.  The next scan leaves these once more, since a document
that was taken has a job by then, and so it takes up where the one before was cut.
-/

namespace AnalysisJobs

section Select

variable {settings : Settings} {view : View} {running running' : DocumentKey → Bool}
  {taken taken' : List DocumentKey} {rs : List Request}

theorem select_unbounded_congr (s : Settings)
    (h : ∀ r, MustWait s.unbounded view running taken r ↔
      MustWait s.unbounded view running' taken' r) (rs : List Request) :
    (select s.unbounded view running taken rs).batch =
        (select s.unbounded view running' taken' rs).batch ∧
      (select s.unbounded view running taken rs).left =
        (select s.unbounded view running' taken' rs).left := by
  induction rs generalizing taken taken' with
  | nil => exact ⟨rfl, rfl⟩
  | cons r rest ih =>
    by_cases hr : MustWait s.unbounded view running taken r
    · obtain ⟨hbatch, hleft⟩ := select_cons_of_mustWait hr rest
      obtain ⟨hbatch', hleft'⟩ := select_cons_of_mustWait ((h r).1 hr) rest
      obtain ⟨hbatches, hlefts⟩ := ih h
      rw [hbatch, hleft, hbatch', hleft', hbatches, hlefts]
      exact ⟨rfl, rfl⟩
    · obtain ⟨hbatch, hleft⟩ := select_cons_of_not_mustWait (not_fillsBatch_none _) hr rest
      obtain ⟨hbatch', hleft'⟩ :=
        select_cons_of_not_mustWait (not_fillsBatch_none _) (mt (h r).2 hr) rest
      have hnext (t : Request) : MustWait s.unbounded view running (r.key :: taken) t ↔
          MustWait s.unbounded view running' (r.key :: taken') t := by
        rw [mustWait_cons, mustWait_cons, h t]
      obtain ⟨hbatches, hlefts⟩ := ih hnext
      rw [hbatch, hleft, hbatch', hleft', hbatches, hlefts]
      exact ⟨rfl, rfl⟩

theorem left_select_of_batch_eq_nil (h : (select settings view running taken rs).batch = []) :
    (select settings view running taken rs).left = rs := by
  refine (sublist_left_select settings view running taken rs).eq_of_length ?_
  have hlength := length_select settings view running taken rs
  rwa [h, List.length_nil, Nat.zero_add] at hlength

/-- One selection takes what two take that follow each other, and leaves what the second of them
leaves. -/
structure Joins (first second whole : Selection) : Prop where
  batch : whole.batch = first.batch ++ second.batch
  left : whole.left = second.left

/-- A scan that was cut short is taken up again by a scan of what it left, if the documents that
it took have jobs by then. -/
theorem joins_select (s : Settings)
    (h : ∀ r, MustWait s.unbounded view running' [] r ↔
      MustWait s.unbounded view running taken r ∨
        ∃ b ∈ (select s view running taken rs).batch, b.key.Same r.key) :
    Joins (select s view running taken rs)
      (select s.unbounded view running' [] (select s view running taken rs).left)
      (select s.unbounded view running taken rs) := by
  induction rs generalizing taken with
  | nil => exact ⟨rfl, rfl⟩
  | cons r rest ih =>
    by_cases hfull : fillsBatch s.maxBatch taken.length = true
    · have hnone : (select s view running taken (r :: rest)).batch = [] :=
        batch_select_of_full hfull (r :: rest)
      have hsame (t : Request) : MustWait s.unbounded view running taken t ↔
          MustWait s.unbounded view running' [] t := by
        simp [h t, hnone]
      obtain ⟨hbatch, hleft⟩ := select_unbounded_congr s hsame (r :: rest)
      rw [left_select_of_batch_eq_nil hnone]
      refine ⟨?_, hleft⟩
      rw [hnone, List.nil_append, hbatch]
    by_cases hr : MustWait s view running taken r
    · have hwhole : MustWait s.unbounded view running taken r := hr
      have hagain : MustWait s.unbounded view running' [] r := (h r).2 (.inl hwhole)
      obtain ⟨hfirst, hrest⟩ := select_cons_of_mustWait hr rest
      have hnext := ih (hfirst ▸ h)
      rw [hrest]
      constructor
      · rw [(select_cons_of_mustWait hwhole rest).1, (select_cons_of_mustWait hagain _).1, hfirst,
          hnext.batch]
      · rw [(select_cons_of_mustWait hwhole rest).2, (select_cons_of_mustWait hagain _).2,
          hnext.left]
    · have hwhole : ¬ MustWait s.unbounded view running taken r := hr
      obtain ⟨hfirst, hrest⟩ := select_cons_of_not_mustWait hfull hr rest
      have htaken (t : Request) : MustWait s.unbounded view running' [] t ↔
          MustWait s.unbounded view running (r.key :: taken) t ∨
            ∃ b ∈ (select s view running (r.key :: taken) rest).batch, b.key.Same t.key := by
        rw [h t, hfirst, mustWait_cons]
        simp only [List.mem_cons, or_and_right, exists_or, exists_eq_left]
        exact or_left_comm.trans or_assoc.symm
      have hnext := ih htaken
      obtain ⟨hbatch, hleft⟩ := select_cons_of_not_mustWait (not_fillsBatch_none _) hwhole rest
      rw [hrest]
      refine ⟨?_, hleft.trans hnext.left⟩
      rw [hbatch, hfirst, hnext.batch, List.cons_append]

theorem batch_select_unbounded_eq_nil (hroom : settings.maxBatch ≠ some 0)
    (hnone : (select settings view running [] rs).batch = []) :
    (select settings.unbounded view running [] rs).batch = [] := by
  refine List.eq_nil_iff_forall_not_mem.2 fun r hr => ?_
  have hleft := (perm_select settings view running [] rs).symm.subset
    (mem_of_mem_batch_select hr)
  rw [hnone, List.nil_append] at hleft
  exact not_mustWait_of_mem_batch_select hr (.inr (of_mem_left_select hroom hnone hleft))

end Select

/-! ## Passes in a row -/

/-- Whether a document has a job after the requests of a batch were given theirs. -/
def runningWith (running : DocumentKey → Bool) (batch : List Request) (key : DocumentKey) : Bool :=
  running key || batch.any fun r => r.isFor key

theorem mustWait_runningWith {settings : Settings} {view : View} {running : DocumentKey → Bool}
    {batch : List Request} (r : Request) :
    MustWait settings view (runningWith running batch) [] r ↔
      MustWait settings view running [] r ∨ ∃ b ∈ batch, b.key.Same r.key := by
  simp only [MustWait, runningWith, List.not_mem_nil, false_and, exists_false, false_or,
    Bool.or_eq_true, List.any_eq_true, isFor_iff]
  exact or_right_comm

namespace Queue

variable {q : Queue} {view : View} {running : DocumentKey → Bool}

def unbounded (q : Queue) : Queue := { q with settings := q.settings.unbounded }

/-- The batches of passes that follow one another until one hands out nothing, and the queue
after that.  The documents of a batch have jobs from then on. -/
def passUntilNothing (q : Queue) (view : View) (running : DocumentKey → Bool) :
    List (List Request) × Queue :=
  let p := q.pass view running
  if p.batch = [] then ([], q.afterPass p)
  else
    let later := (q.afterPass p).passUntilNothing view (runningWith running p.batch)
    (p.batch :: later.1, later.2)
termination_by q.size
decreasing_by exact size_afterPass_lt ‹_›

theorem joins_pass (q : Queue) (view : View) (running : DocumentKey → Bool) :
    let p := q.pass view running
    Joins p.selection
      ((q.afterPass p).unbounded.pass view (runningWith running p.batch)).selection
      (q.unbounded.pass view running).selection := by
  intro p
  have hresumed : ((q.afterPass p).unbounded.pass view (runningWith running p.batch)).selection =
      select q.settings.unbounded view (runningWith running p.batch) [] p.left :=
    congrArg (select q.settings.unbounded view (runningWith running p.batch) [])
      (sortByPriority_fresh_afterPass q view running)
  rw [hresumed]
  exact joins_select q.settings mustWait_runningWith

theorem passUntilNothing_eq (hroom : q.settings.maxBatch ≠ some 0) :
    (q.passUntilNothing view running).1.flatten = (q.unbounded.pass view running).batch ∧
      (q.passUntilNothing view running).2.pending = (q.unbounded.pass view running).left := by
  fun_induction passUntilNothing q view running with
  | case1 q running p hnone =>
    have hwhole : (q.unbounded.pass view running).batch = [] :=
      batch_select_unbounded_eq_nil hroom hnone
    have hleft : p.left = sortByPriority view (q.fresh view) := left_select_of_batch_eq_nil hnone
    have hleft' : (q.unbounded.pass view running).left = sortByPriority view (q.fresh view) :=
      left_select_of_batch_eq_nil hwhole
    rw [hwhole, hleft', ← hleft]
    exact ⟨rfl, rfl⟩
  | case2 q running p hsome later ih =>
    obtain ⟨hbatch, hleft⟩ := joins_pass q view running
    obtain ⟨hlater, hlast⟩ := ih hroom
    rw [List.flatten_cons, hlater, hlast]
    exact ⟨hbatch.symm, hleft.symm⟩

/-- The bound of a batch only makes chunks: where the documents of a batch have jobs from then
on, passes until one hands out nothing hand out, one batch after the other, what a single pass
without a bound hands out, and leave the same queue. -/
theorem bound_only_chunks (q : Queue) (view : View) (running : DocumentKey → Bool)
    (defer : Bool) {bound : Nat} (hbound : 0 < bound) :
    let chunked := (q.withLimits (some bound) defer).passUntilNothing view running
    let whole := q.withLimits none defer
    chunked.1.flatten = (whole.pass view running).batch ∧
      chunked.2.pending = (whole.afterPass (whole.pass view running)).pending := by
  intro chunked whole
  have hroom : (q.withLimits (some bound) defer).settings.maxBatch ≠ some 0 :=
    fun h => Nat.ne_of_gt hbound (Option.some.inj h)
  exact passUntilNothing_eq hroom

/-- One request at a time: the document in focus comes first, and the second request for the
other document is left because of the first. -/
theorem bound_only_chunks_one_at_a_time :
    let first : DocumentKey := ⟨⟨"a"⟩, ""⟩
    let second : DocumentKey := ⟨⟨"b"⟩, ""⟩
    let registry := Registry.new.run
      [.putProject "" [], .openDocument first, .openDocument second,
        .onDocuments (.focus (some second.path))]
    let ask (kind : Kind) (key : DocumentKey) := Request.make kind key registry.view
    let q : Queue :=
      ⟨[ask .buildPreamble first, ask .completeCode first, ask .completeCode second],
        .default 1⟩
    let chunked := (q.withLimits (some 1) false).passUntilNothing registry.view fun _ => false
    0 < 1 ∧ chunked.1.flatten = [ask .completeCode second, ask .buildPreamble first] ∧
      chunked.2.pending = [ask .completeCode first] := by
  intro first second registry ask q chunked
  let whole := ((q.withLimits none false).pass registry.view fun _ => false).selection
  have hwhole : whole.batch = [ask .completeCode second, ask .buildPreamble first] ∧
      whole.left = [ask .completeCode first] := by
    simp only [whole, pass_selection]
    decide +kernel
  obtain ⟨hbatch, hleft⟩ :=
    bound_only_chunks q registry.view (fun _ => false) false Nat.zero_lt_one
  exact ⟨Nat.zero_lt_one, hbatch.trans hwhole.1, hleft.trans hwhole.2⟩

end Queue

end AnalysisJobs
