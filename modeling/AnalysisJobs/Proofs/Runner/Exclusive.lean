import AnalysisJobs.Proofs.Queue.Selection
import AnalysisJobs.Proofs.Runner.Steps
import Mathlib.Data.List.Pairwise
/-!
# One job for a document

The invariant that ties the jobs to the table of running documents: jobs differ in
their identities and in their documents, every job's document is in the table, and,
where no call crashes, every document in the table has a job.  A pass keeps it
because it asks the table before it takes a request and takes one request for a
document; the end of a job keeps it because it removes one job and one document.
-/

namespace AnalysisJobs.Runner

variable {crashes : Prop} {m n : Runner}

/-- Two entries of a roster that are for different jobs and different documents. -/
def Apart (a b : Nat × Request) : Prop := a.1 ≠ b.1 ∧ ¬ a.2.key.Same b.2.key

instance : Std.Symm Apart := ⟨fun _ _ h => ⟨h.1.symm, fun hsame => h.2 hsame.symm⟩⟩

/-- Jobs and running documents belong together one to one. -/
structure Exclusive (crashes : Prop) (m : Runner) : Prop where
  apart : m.roster.Pairwise Apart
  lt_spawned : ∀ e ∈ m.roster, e.1 < m.spawned
  isRunning_of_mem : ∀ e ∈ m.roster, m.isRunning e.2.key = true
  exists_mem : ∀ key, m.isRunning key = true → crashes ∨ ∃ e ∈ m.roster, e.2.key.Same key

/-- `n` has the jobs of `m` and the same documents in its table. -/
structure SameJobs (m n : Runner) : Prop where
  roster : n.roster = m.roster
  running : n.running = m.running
  spawned : n.spawned = m.spawned

theorem SameWork.sameJobs (h : SameWork crashes m n) : SameJobs m n :=
  ⟨h.roster, h.running, h.spawned⟩

theorem SameJobs.isRunning (h : SameJobs m n) (key : DocumentKey) :
    n.isRunning key = m.isRunning key := isRunning_of_running_eq h.running key

theorem Exclusive.of_sameJobs (h : m.Exclusive crashes) (hsame : SameJobs m n) :
    n.Exclusive crashes := by
  constructor
  · rw [hsame.roster]
    exact h.apart
  · rw [hsame.roster, hsame.spawned]
    exact h.lt_spawned
  · intro e he
    rw [hsame.roster] at he
    rw [hsame.isRunning]
    exact h.isRunning_of_mem e he
  · intro key hkey
    rw [hsame.isRunning] at hkey
    rw [hsame.roster]
    exact h.exists_mem key hkey

theorem Exclusive.of_sameWork {mayCrash : Prop} (h : m.Exclusive crashes)
    (hsame : SameWork mayCrash m n) : n.Exclusive crashes :=
  h.of_sameJobs hsame.sameJobs

theorem isRunning_congr (m : Runner) {key other : DocumentKey} (h : key.Same other) :
    m.isRunning key = m.isRunning other := by
  unfold isRunning
  congr 1
  funext k
  exact decide_eq_decide.2 ⟨fun hk => hk.trans h, fun hk => hk.trans h.symm⟩

theorem isRunning_leaveRunning (m : Runner) (key other : DocumentKey) :
    (m.leaveRunning key).isRunning other = true ↔
      m.isRunning other = true ∧ ¬ other.Same key := by
  simp only [isRunning, leaveRunning, List.any_filter, List.any_eq_true, Bool.and_eq_true,
    decide_eq_true_eq]
  constructor
  · rintro ⟨k, hk, hkey, hother⟩
    exact ⟨⟨k, hk, hother⟩, fun hsame => hkey (hother.trans hsame)⟩
  · rintro ⟨⟨k, hk, hother⟩, hkey⟩
    exact ⟨k, hk, fun hsame => hkey (hother.symm.trans hsame), hother⟩

theorem exclusive_of_isNew (h : m.IsNew) : m.Exclusive crashes := by
  have hroster : m.roster = [] := by rw [roster, h.jobs, List.map_nil]
  constructor
  · rw [hroster]
    exact .nil
  · simp [hroster]
  · simp [hroster]
  · intro key hkey
    rw [isRunning, h.running] at hkey
    cases hkey

/-! ## Passes -/

theorem mem_newJobs {first : Nat} {rs : List Request} {j : Job} (h : j ∈ newJobs first rs) :
    first ≤ j.id ∧ j.id < first + rs.length ∧ j.request ∈ rs := by
  induction rs generalizing first with
  | nil => cases h
  | cons r rest ih =>
    rw [List.length_cons]
    rcases List.mem_cons.1 h with rfl | h
    · exact ⟨Nat.le_refl _, by simp only; omega, List.mem_cons_self⟩
    · obtain ⟨hle, hlt, hmem⟩ := ih h
      exact ⟨by omega, by omega, List.mem_cons_of_mem r hmem⟩

theorem roster_passOver (m : Runner) (turn : Turn) :
    (m.passOver turn).1.roster = m.roster ++
      (newJobs m.spawned m.nextPass.batch).map fun j => (j.id, j.request) := by
  obtain ⟨running, ready, heq, -⟩ := passOver_eq m turn
  rw [heq, roster, List.map_append, roster]

theorem mem_roster_passOver {turn : Turn} {e : Nat × Request}
    (he : e ∈ (m.passOver turn).1.roster) :
    e ∈ m.roster ∨ m.spawned ≤ e.1 ∧ e.1 < m.spawned + m.nextPass.batch.length ∧
      e.2 ∈ m.nextPass.batch := by
  rw [roster_passOver] at he
  refine (List.mem_append.1 he).imp_right fun hnew => ?_
  obtain ⟨j, hj, rfl⟩ := List.mem_map.1 hnew
  exact mem_newJobs hj

theorem isRunning_passOver (m : Runner) (turn : Turn) (key : DocumentKey) :
    (m.passOver turn).1.isRunning key =
      (m.isRunning key || m.nextPass.batch.any fun r => r.key.Same key) := by
  obtain ⟨running, ready, heq, hany⟩ := passOver_eq m turn
  rw [heq]
  exact hany key

theorem spawned_passOver (m : Runner) (turn : Turn) :
    (m.passOver turn).1.spawned = m.spawned + m.nextPass.batch.length := by
  obtain ⟨running, ready, heq, -⟩ := passOver_eq m turn
  rw [heq]

theorem pairwise_newJobs {rs : List Request} (first : Nat)
    (h : rs.Pairwise fun r s => ¬ r.key.Same s.key) :
    ((newJobs first rs).map fun j => (j.id, j.request)).Pairwise Apart := by
  induction h generalizing first with
  | nil => exact .nil
  | @cons r rest hr _ ih =>
    refine .cons (fun e he => ?_) (ih (first + 1))
    obtain ⟨j, hj, rfl⟩ := List.mem_map.1 he
    obtain ⟨hle, -, hmem⟩ := mem_newJobs hj
    exact ⟨by simp only; omega, hr j.request hmem⟩

theorem Exclusive.passOver (h : m.Exclusive crashes) (turn : Turn) :
    (m.passOver turn).1.Exclusive crashes := by
  have hbatch := Queue.pairwise_batch m.queue m.registry.view m.isRunning
  have hfree : ∀ r ∈ m.nextPass.batch, m.isRunning r.key = false :=
    fun r hr => Queue.not_running_of_mem_batch hr
  constructor
  · rw [roster_passOver, List.pairwise_append]
    refine ⟨h.apart, pairwise_newJobs m.spawned hbatch, fun e he f hf => ?_⟩
    obtain ⟨j, hj, rfl⟩ := List.mem_map.1 hf
    obtain ⟨hle, -, hmem⟩ := mem_newJobs hj
    have hlt := h.lt_spawned e he
    refine ⟨by simp only; omega, fun hsame => ?_⟩
    -- the document of an old job is in the table, and no request of the batch is for one
    have hnot := hfree j.request hmem
    rw [isRunning_congr m hsame.symm, h.isRunning_of_mem e he] at hnot
    cases hnot
  · intro e he
    rw [spawned_passOver]
    rcases mem_roster_passOver he with hold | ⟨-, hlt, -⟩
    · exact Nat.lt_of_lt_of_le (h.lt_spawned e hold) (Nat.le_add_right _ _)
    · exact hlt
  · intro e he
    rw [isRunning_passOver, Bool.or_eq_true]
    rcases mem_roster_passOver he with hold | ⟨-, -, hmem⟩
    · exact .inl (h.isRunning_of_mem e hold)
    · exact .inr (List.any_eq_true.2 ⟨e.2, hmem, decide_eq_true e.2.key.same_refl⟩)
  · intro key hkey
    rw [isRunning_passOver, Bool.or_eq_true] at hkey
    rw [roster_passOver]
    rcases hkey with hkey | hkey
    · refine (h.exists_mem key hkey).imp_right ?_
      rintro ⟨e, he, hsame⟩
      exact ⟨e, List.mem_append_left _ he, hsame⟩
    · obtain ⟨r, hr, hsame⟩ := List.any_eq_true.1 hkey
      have hmem : r ∈ (newJobs m.spawned m.nextPass.batch).map Job.request := by
        rwa [map_request_newJobs]
      obtain ⟨j, hj, rfl⟩ := List.mem_map.1 hmem
      exact .inr ⟨_, List.mem_append_right _ (List.mem_map_of_mem hj), of_decide_eq_true hsame⟩

/-! ## Ends of jobs -/

theorem roster_filter (jobs : List Job) (id : Nat) :
    ((jobs.filter fun j => j.id ≠ id).map fun j => (j.id, j.request)) =
      (jobs.map fun j => (j.id, j.request)).filter fun e => e.1 ≠ id := by
  rw [List.filter_map]
  rfl

theorem roster_forget (m : Runner) (id : Nat) :
    (m.forget id).roster = m.roster.filter fun e => e.1 ≠ id := roster_filter m.jobs id

theorem roster_conclude (m : Runner) (job : Job) (turn : Turn) (result : Result) :
    (m.conclude job turn result).1.roster = m.roster.filter fun e => e.1 ≠ job.id := by
  obtain ⟨ready, wakeup, dispatcher, heq⟩ := conclude_eq m job turn result
  rw [heq]
  exact roster_filter m.jobs job.id

theorem isRunning_conclude (m : Runner) (job : Job) (turn : Turn) (result : Result)
    (key : DocumentKey) : (m.conclude job turn result).1.isRunning key = true ↔
      m.isRunning key = true ∧ ¬ key.Same job.request.key := by
  obtain ⟨ready, wakeup, dispatcher, heq⟩ := conclude_eq m job turn result
  rw [heq]
  exact isRunning_leaveRunning m job.request.key key

theorem Exclusive.eq_of_fst_eq (h : m.Exclusive crashes) {a b : Nat × Request}
    (ha : a ∈ m.roster) (hb : b ∈ m.roster) (hid : a.1 = b.1) : a = b := by
  by_contra hne
  exact (h.apart.forall ha hb hne).1 hid

theorem Exclusive.eq_of_same (h : m.Exclusive crashes) {a b : Nat × Request}
    (ha : a ∈ m.roster) (hb : b ∈ m.roster) (hsame : a.2.key.Same b.2.key) : a = b := by
  by_contra hne
  exact (h.apart.forall ha hb hne).2 hsame

theorem Exclusive.conclude (h : m.Exclusive crashes) {job : Job}
    (hmem : (job.id, job.request) ∈ m.roster) (turn : Turn) (result : Result) :
    (m.conclude job turn result).1.Exclusive crashes := by
  constructor
  · rw [roster_conclude]
    exact h.apart.filter _
  · intro e he
    obtain ⟨ready, wakeup, dispatcher, heq⟩ := conclude_eq m job turn result
    rw [roster_conclude] at he
    rw [heq]
    exact h.lt_spawned e (List.mem_filter.1 he).1
  · intro e he
    rw [roster_conclude, List.mem_filter] at he
    rw [isRunning_conclude]
    refine ⟨h.isRunning_of_mem e he.1, fun hsame => ?_⟩
    have hjob := h.eq_of_same he.1 hmem hsame
    simp [hjob] at he
  · intro key hkey
    rw [isRunning_conclude] at hkey
    rw [roster_conclude]
    refine (h.exists_mem key hkey.1).imp_right ?_
    rintro ⟨e, he, hsame⟩
    refine ⟨e, List.mem_filter.2 ⟨he, decide_eq_true fun hid => ?_⟩, hsame⟩
    rw [h.eq_of_fst_eq he hmem hid] at hsame
    exact hkey.2 hsame.symm

theorem Exclusive.forget (h : m.Exclusive crashes) (hcrash : crashes) (id : Nat) :
    (m.forget id).Exclusive crashes := by
  constructor
  · rw [roster_forget]
    exact h.apart.filter _
  · intro e he
    rw [roster_forget] at he
    exact h.lt_spawned e (List.mem_filter.1 he).1
  · intro e he
    rw [roster_forget] at he
    exact h.isRunning_of_mem e (List.mem_filter.1 he).1
  · exact fun _ _ => .inl hcrash

/-! ## Steps -/

theorem Passes.exclusive {events : List Event} (hpasses : Passes crashes m events n)
    (h : m.Exclusive crashes) : n.Exclusive crashes := by
  induction hpasses with
  | none hsame => exact h.of_sameWork hsame
  | pass turn hsame _ _ ih => exact ih ((h.of_sameWork hsame).passOver turn)

/-- Only passes start jobs, and only turns of jobs end them. -/
theorem Step.passes_or_job_or_sameJobs {move : Move} {events : List Event}
    (hstep : Step crashes m move events n) :
    Passes crashes m events n ∨
      (∃ id turn, move = .turn (.job id) turn ∧ JobStep crashes m id events n) ∨
      SameJobs m n := by
  cases hstep with
  | command | dropReceiver => exact .inr (.inr ⟨rfl, rfl, rfl⟩)
  | process turn hpasses | finishProcess turn hpasses | dispatcher turn hpasses =>
    exact .inl hpasses
  | job id turn hjob => exact .inr (.inl ⟨id, turn, rfl, hjob⟩)
  | add _ _ hsame | beginProcess hsame | answer _ _ hsame | startDispatcher hsame
  | shutDown hsame =>
    exact .inr (.inr ⟨hsame.roster, hsame.running, hsame.spawned⟩)

theorem Step.exclusive {move : Move} {events : List Event} (hstep : Step crashes m move events n)
    (h : m.Exclusive crashes) : n.Exclusive crashes := by
  rcases hstep.passes_or_job_or_sameJobs with hpasses | ⟨id, turn, -, hjob⟩ | hsame
  · exact hpasses.exclusive h
  · cases hjob with
    | goesOn hsame => exact h.of_sameWork hsame
    | ends _ turn result hsame _ _ hmem =>
      rw [← hsame.roster] at hmem
      exact (h.of_sameWork hsame).conclude hmem turn result
    | dies hcrash hsame => exact (h.of_sameWork hsame).forget hcrash id
  · exact h.of_sameJobs hsame

theorem exclusive_run {settings : Settings} {registry : Registry}
    (hm : create? settings registry = some m) {backend : Backend} {moves : List Move}
    (hreturns : ¬ crashes → CallsReturn backend moves) :
    (m.run backend moves).1.Exclusive crashes := by
  have hnew := isNew_of_create? hm
  refine run_induction (P := fun _ _ n => n.Exclusive crashes) hreturns
    (calm_of_jobs_eq_nil hnew.jobs) (exclusive_of_isNew hnew) ?_
  intro before events n move more last _ hn hstep
  exact hstep.exclusive hn

end AnalysisJobs.Runner
