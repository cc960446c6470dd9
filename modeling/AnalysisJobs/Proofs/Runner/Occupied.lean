import AnalysisJobs.Proofs.Registry.Copies
import AnalysisJobs.Proofs.Runner.Completion
/-!
# Documents that have a job

No number is given to two jobs, and a document has one job at a time.  So from the start of
a job to its end its document changes by the caller's commands alone, since no other job
that ends in between is for it.  The laws of copies hold meanwhile as if there were no other
jobs; here the one of the flag for a reparse, which only the job's own end can take.
-/

namespace AnalysisJobs.Runner

open Registry

variable {crashes : Prop} {m n : Runner}

/-! ## Jobs that go on -/

theorem passOver_keeps_jobs (m : Runner) (turn : Turn) :
    m.spawned ≤ (m.passOver turn).1.spawned ∧
      ∀ e ∈ (m.passOver turn).1.roster, e.1 < m.spawned → e ∈ m.roster := by
  rw [spawned_passOver]
  refine ⟨Nat.le_add_right _ _, fun e he hlt => ?_⟩
  exact (mem_roster_passOver he).resolve_right fun hnew => Nat.not_lt.2 hnew.1 hlt

theorem Passes.keeps_jobs {events : List Event} (h : Passes crashes m events n) :
    m.spawned ≤ n.spawned ∧ ∀ e ∈ n.roster, e.1 < m.spawned → e ∈ m.roster := by
  induction h with
  | none hsame =>
    rw [hsame.spawned, hsame.roster]
    exact ⟨Nat.le_refl _, fun _ he _ => he⟩
  | @pass _ n _ _ _ turn hsame _ _ ih =>
    have hpass := passOver_keeps_jobs n turn
    rw [hsame.spawned, hsame.roster] at hpass
    refine ⟨Nat.le_trans hpass.1 ih.1, fun e he hlt => ?_⟩
    exact hpass.2 e (ih.2 e he (Nat.lt_of_lt_of_le hlt hpass.1)) hlt

theorem JobStep.roster_subset {id : Nat} {events : List Event}
    (hjob : JobStep crashes m id events n) : n.spawned = m.spawned ∧ n.roster ⊆ m.roster := by
  cases hjob with
  | goesOn hsame => exact ⟨hsame.spawned, hsame.roster ▸ List.Subset.refl _⟩
  | @ends last job _ turn result hsame =>
    obtain ⟨ready, wakeup, dispatcher, heq⟩ := conclude_eq last job turn result
    refine ⟨?_, ?_⟩
    · rw [heq]
      exact hsame.spawned
    · rw [roster_conclude, ← hsame.roster]
      exact List.filter_sublist.subset
  | dies _ hsame =>
    refine ⟨hsame.spawned, ?_⟩
    rw [← hsame.roster]
    exact List.map_subset _ List.filter_sublist.subset

theorem Step.passes_or_roster_subset {move : Move} {events : List Event}
    (hstep : Step crashes m move events n) :
    Passes crashes m events n ∨ n.spawned = m.spawned ∧ n.roster ⊆ m.roster := by
  rcases hstep.passes_or_job_or_sameJobs with hpasses | ⟨id, turn, -, hjob⟩ | hsame
  · exact .inl hpasses
  · exact .inr hjob.roster_subset
  · exact .inr ⟨hsame.spawned, hsame.roster ▸ List.Subset.refl _⟩

theorem Step.keeps_jobs {move : Move} {events : List Event} (hstep : Step crashes m move events n) :
    m.spawned ≤ n.spawned ∧ ∀ e ∈ n.roster, e.1 < m.spawned → e ∈ m.roster := by
  rcases hstep.passes_or_roster_subset with hpasses | ⟨hspawned, hroster⟩
  · exact hpasses.keeps_jobs
  · exact ⟨Nat.le_of_eq hspawned.symm, fun e he _ => hroster he⟩

theorem Step.mem_roster_of_ended {id : Nat} {turn : Turn} {events : List Event}
    (hstep : Step crashes m (.turn (.job id) turn) events n) {request : Request}
    {elapsed : Duration} {result : Result} (hended : Event.ended request elapsed result ∈ events) :
    (id, request) ∈ m.roster := by
  obtain ⟨l, job, given, last, hmove, hroster, rfl, -⟩ := hstep.conclude_of_ended hended
  cases hmove
  exact hroster

/-- A job with an old number has been there since. -/
theorem run_keeps_jobs (m : Runner) (backend : Backend) (moves : List Move) :
    m.spawned ≤ (m.run backend moves).1.spawned ∧
      ∀ e ∈ (m.run backend moves).1.roster, e.1 < m.spawned → e ∈ m.roster := by
  induction moves generalizing m with
  | nil => exact ⟨Nat.le_refl _, fun _ he _ => he⟩
  | cons move rest ih =>
    obtain ⟨hle, hstep⟩ := (step_any m backend move).keeps_jobs
    obtain ⟨hrest, hlater⟩ := ih (m.move backend move).1
    refine ⟨Nat.le_trans hle hrest, fun e he hlt => ?_⟩
    exact hstep e (hlater e he (Nat.lt_of_lt_of_le hlt hle)) hlt

theorem Exclusive.run (h : m.Exclusive True) (backend : Backend) (moves : List Move) :
    (m.run backend moves).1.Exclusive True := by
  induction moves generalizing m with
  | nil => exact h
  | cons move rest ih => exact ih ((step_any m backend move).exclusive h)

/-! ## The document of a job that goes on -/

/-- While a document has a job, only the caller changes it. -/
theorem Step.find?_of_mem_roster {move : Move} {events : List Event}
    (hstep : Step crashes m move events n) (hexclusive : m.Exclusive crashes)
    {e : Nat × Request} (hlt : e.1 < m.spawned) (hmem : e ∈ n.roster) :
    n.registry.documents.find? e.2.key =
      (m.registry.run move.commands).documents.find? e.2.key := by
  rcases hstep.registry_cases with hrun | ⟨hnone, ended, hended, hgone, result, hlearned⟩
  · rw [hrun]
  · have hother : ¬ ended.2.key.Same e.2.key := by
      intro hkey
      -- the job that ends is the only one of its document, and `e` goes on
      rw [hexclusive.eq_of_same hended (hstep.keeps_jobs.2 e hmem hlt) hkey] at hgone
      exact hgone hmem
    rw [hlearned, (changesOnly_learn _ _ result).find? _ hother, hnone]
    rfl

theorem find?_run_of_mem_roster {backend : Backend} {moves : List Move}
    (hexclusive : m.Exclusive True) {e : Nat × Request} (hlt : e.1 < m.spawned)
    (hmem : e ∈ (m.run backend moves).1.roster) {P : Option Document → Prop}
    (hcommand : ∀ c, .act (.command c) ∈ moves → ∀ reg : Registry,
      P (reg.documents.find? e.2.key) → P ((reg.after c).documents.find? e.2.key))
    (h : P (m.registry.documents.find? e.2.key)) :
    P ((m.run backend moves).1.registry.documents.find? e.2.key) := by
  induction moves generalizing m with
  | nil => exact h
  | cons move rest ih =>
    have hstep := step_any m backend move
    have hspawned := Nat.lt_of_lt_of_le hlt hstep.keeps_jobs.1
    have hnext : e ∈ (m.move backend move).1.roster :=
      (run_keeps_jobs _ backend rest).2 e hmem hspawned
    have hmoved : P ((m.move backend move).1.registry.documents.find? e.2.key) := by
      rw [hstep.find?_of_mem_roster hexclusive hlt hnext]
      cases move with
      | act a =>
        cases a with
        | command c => exact hcommand c List.mem_cons_self m.registry h
        | _ => exact h
      | turn task turn => exact h
    exact ih (hstep.exclusive hexclusive) hspawned hmem
      (fun c hc => hcommand c (List.mem_cons_of_mem _ hc)) hmoved

/-! ## The flag of a document that has a job -/

/-- Whether the caller records a successful parse of a document. -/
def Move.RecordsParse (key : DocumentKey) : Move → Prop
  | .act (.command c) => c.RecordsParse key
  | _ => False

/-- While a document has a job, only the caller can take the flag from it. -/
theorem needsReparse_run {moves : List Move} {backend : Backend} (hexclusive : m.Exclusive True)
    {e : Nat × Request} (hlt : e.1 < m.spawned)
    (hmem : e ∈ (m.run backend moves).1.roster)
    (hparse : ∀ move ∈ moves, ¬ move.RecordsParse e.2.key)
    (h : ∀ d ∈ m.registry.documents.find? e.2.key, d.needsReparse = true) :
    ∀ d ∈ (m.run backend moves).1.registry.documents.find? e.2.key, d.needsReparse = true := by
  refine find?_run_of_mem_roster (P := fun document => ∀ d ∈ document, d.needsReparse = true)
    hexclusive hlt hmem (fun c hc reg hdocument => ?_) h
  exact needsReparse_after hdocument (hparse _ hc)

/-- The end of a job takes the flag from its document exactly if it records a parse of
the present revision of the copy that the job ran for. -/
theorem needsReparse_learn {reg : Registry} {request : Request} {result : Result}
    (h : ∀ d ∈ reg.documents.find? request.key, d.needsReparse = true) {d : Document}
    (hd : d ∈ (learn reg request result).1.documents.find? request.key) :
    d.needsReparse = true ↔
      ¬ (request.kind.producesParse = true ∧ (∃ output, result = .ok output) ∧
        reg.documents.isOpenSince request.key request.openedAt = true ∧
        d.revision = request.revision) := by
  by_cases hsince : reg.documents.isOpenSince request.key request.openedAt = true
  · rw [fst_learn_of_isOpenSince result hsince] at hd
    cases result with
    | ok output =>
      by_cases hkind : request.kind.producesParse = true
      · simp only [hkind, if_true] at hd
        have hcopy := Documents.find?_apply reg.documents reg.clock.next
          (.markParsed request.key request.revision) request.key
        rw [Documents.Op.onCopy, if_pos request.key.same_refl] at hcopy
        obtain ⟨old, -, rfl⟩ := Option.map_eq_some_iff.1 (hcopy.symm.trans hd)
        simp [Document.parsed, hsince, hkind]
      · rw [if_neg hkind] at hd
        simp [h d hd, hkind]
    | failed failure =>
      have hflag : d.needsReparse = true := by
        split at hd
        · contradiction
        · exact needsReparse_after (c := .onDocuments (.setFailed request.key true)) h
            not_false d hd
        · exact h d hd
      simp [hflag]
  · rw [fst_learn_of_gone result hsince] at hd
    simp [h d hd, hsince]

end AnalysisJobs.Runner
