import AnalysisJobs.Proofs.Request.Reopening
import AnalysisJobs.Proofs.Runner.Occupied
/-!
# Documents that are edited while a job runs

An edit flags its document for a reparse, and until the job of the document ends only this
end can take the flag.  It takes it from the copy that the request was made for, and only
at the revision of the request.  The copy has this revision no more: its revision counts
its edits, and there was at least one and fewer than a word can count.
-/

namespace AnalysisJobs.Runner

open Registry

variable {crashes : Prop} {m n : Runner} {backend : Backend} {key : DocumentKey}

/-- How often a move edits a document; an edit of a closed document is none. -/
def editsBy (m : Runner) (key : DocumentKey) : Move → Nat
  | .act (.command (.onDocuments (.edit k))) =>
    if k.Same key ∧ m.registry.documents.isOpen key = true then 1 else 0
  | _ => 0

def edits (m : Runner) (backend : Backend) (key : DocumentKey) : List Move → Nat
  | [] => 0
  | move :: rest => m.editsBy key move + (m.move backend move).1.edits backend key rest

theorem edits_append (m : Runner) (backend : Backend) (key : DocumentKey)
    (before after : List Move) :
    m.edits backend key (before ++ after) =
      m.edits backend key before + (m.run backend before).1.edits backend key after := by
  induction before generalizing m with
  | nil => exact (Nat.zero_add _).symm
  | cons move rest ih => rw [List.cons_append, edits, edits, ih, run_cons, Nat.add_assoc]

theorem needsReparse_of_editsBy {move : Move} (h : 0 < m.editsBy key move) :
    ∀ d ∈ (m.move backend move).1.registry.documents.find? key, d.needsReparse = true := by
  unfold editsBy at h
  split at h
  · rename_i k
    by_cases hkey : k.Same key
    · intro d hd
      have hfound : (m.registry.documents.edit k).find? key = some d := hd
      rw [Documents.find?_edit, if_pos hkey] at hfound
      obtain ⟨old, -, rfl⟩ := Option.map_eq_some_iff.1 hfound
      rfl
    · simp [hkey] at h
  · cases h

/-- While a document has a job, the flag of an edit stays. -/
theorem needsReparse_run_of_edits {moves : List Move} (hexclusive : m.Exclusive True)
    {e : Nat × Request} (hlt : e.1 < m.spawned) (hmem : e ∈ (m.run backend moves).1.roster)
    (hparse : ∀ move ∈ moves, ¬ move.RecordsParse e.2.key)
    (hedited : 0 < m.edits backend e.2.key moves) :
    ∀ d ∈ (m.run backend moves).1.registry.documents.find? e.2.key, d.needsReparse = true := by
  induction moves generalizing m with
  | nil => cases hedited
  | cons move rest ih =>
    have hstep := step_any m backend move
    have hnext := hstep.exclusive hexclusive
    have hspawned := Nat.lt_of_lt_of_le hlt hstep.keeps_jobs.1
    obtain ⟨-, hrest⟩ := List.forall_mem_cons.1 hparse
    by_cases hfirst : 0 < m.editsBy e.2.key move
    · exact needsReparse_run hnext hspawned hmem hrest (needsReparse_of_editsBy hfirst)
    · have hlater : 0 < (m.move backend move).1.edits backend e.2.key rest := by
        rw [edits] at hedited
        omega
      exact ih hnext hspawned hmem hrest hlater

/-! ## Revisions -/

theorem revision_learn {reg : Registry} {P : UInt32 → Prop}
    (h : ∀ d ∈ reg.documents.find? key, P d.revision) (request : Request) (result : Result) :
    ∀ d ∈ (learn reg request result).1.documents.find? key, P d.revision := by
  rw [fst_learn]
  split
  · exact h
  · rename_i op hop
    split
    · rw [onDocuments, Documents.find?_apply]
      unfold lesson at hop
      split at hop
      · split at hop <;> cases hop
        refine forall_mem_ite_map (P := fun d => P d.revision) h ?_
        exact fun _ hd => hd
      · cases hop
        refine forall_mem_ite_map (P := fun d => P d.revision) h ?_
        exact fun _ hd => hd
      · cases hop
    · exact h

theorem countEdits_of_kept {c : Command} (hkept : copyEffect key c = .kept)
    (hopen : m.registry.documents.isOpen key = true) (count : Nat) :
    countEdits key count c = count + m.editsBy key (.act (.command c)) := by
  have hother {k : DocumentKey} (h : changeEffect key (.openDocument k) = .kept) :
      ¬ k.Same key := fun hk => by simp [changeEffect, hk] at h
  cases c with
  | openDocument k => exact if_neg (hother hkept)
  | onDocuments op =>
    cases op with
    | openDocument k => exact if_neg (hother hkept)
    | edit k =>
      simp only [countEdits, Command.changes, List.foldl_cons, List.foldl_nil, countChange,
        editsBy, hopen, and_true]
      split <;> rfl
    | _ => rfl
  | _ => rfl

theorem Step.revision_of_kept {move : Move} {events : List Event}
    (hstep : Step crashes m move events n) (hkept : ¬ move.Replaces key) {count : Nat}
    (h : ∀ d ∈ m.registry.documents.find? key, d.revision = UInt32.ofNat count) :
    ∀ d ∈ n.registry.documents.find? key,
      d.revision = UInt32.ofNat (count + m.editsBy key move) := by
  rcases hstep.registry_cases with hrun | ⟨hnone, e, -, -, result, hlearned⟩
  · rw [hrun]
    cases move with
    | act a =>
      cases a with
      | command c =>
        intro d hd
        have hcopy : copyEffect key c = .kept := Decidable.not_not.1 hkept
        have hopen : m.registry.documents.isOpen key = true := by
          rw [← isOpen_after_of_kept hcopy, Documents.isOpen]
          exact Option.isSome_iff_exists.2 ⟨d, hd⟩
        rw [← countEdits_of_kept hcopy hopen]
        exact revision_after h c d hd
      | _ => exact h
    | turn task turn => exact h
  · have hcount : m.editsBy key move = 0 := by
      unfold editsBy
      split
      · cases hnone
      · rfl
    rw [hlearned, hcount]
    exact revision_learn (P := fun revision => revision = UInt32.ofNat count) h e.2 result

theorem revision_run_of_kept {moves : List Move} (hkept : ∀ move ∈ moves, ¬ move.Replaces key)
    {count : Nat}
    (h : ∀ d ∈ m.registry.documents.find? key, d.revision = UInt32.ofNat count) :
    ∀ d ∈ (m.run backend moves).1.registry.documents.find? key,
      d.revision = UInt32.ofNat (count + m.edits backend key moves) := by
  induction moves generalizing m count with
  | nil => exact h
  | cons move rest ih =>
    obtain ⟨hmove, hrest⟩ := List.forall_mem_cons.1 hkept
    have hafter := (step_any m backend move).revision_of_kept hmove h
    have hlast := ih hrest hafter
    rw [Nat.add_assoc] at hlast
    exact hlast

/-- Fewer edits than a word can count do not lead back to the same revision. -/
theorem revision_run_ne {moves : List Move} (hkept : ∀ move ∈ moves, ¬ move.Replaces key)
    (hedited : 0 < m.edits backend key moves) (hfew : m.edits backend key moves < UInt32.size)
    {old : Document} (hold : m.registry.documents.find? key = some old) :
    ∀ d ∈ (m.run backend moves).1.registry.documents.find? key,
      d.revision ≠ old.revision := by
  intro d hd hrevision
  have hstart : ∀ d ∈ m.registry.documents.find? key,
      d.revision = UInt32.ofNat old.revision.toNat := by
    intro d hd
    rw [Option.mem_def, hold, Option.some.injEq] at hd
    rw [← hd, UInt32.ofNat_toNat]
  rw [revision_run_of_kept hkept hstart d hd, ← UInt32.ofNat_toNat (x := old.revision),
    uint32_ofNat_eq_iff] at hrevision
  simp only [UInt32.ofNat_toNat, UInt32.size] at hrevision hfew
  omega

/-! ## The end of the job -/

/-- A document that was edited while a job for it went on needs a reparse after the end of
the job, whatever the job was for and whatever came of it.  If its copy was closed or replaced
since the request was made, the stamps tell the copies apart as long as they last. -/
theorem needsReparse_of_edited {settings : Settings} {setup : List Command}
    (hm : create? settings (new.run setup) = some m) (backend : Backend)
    (before waiting during : List Move) (job : Job) (kind : Kind) (key : DocumentKey)
    (line column : UInt32) (ticket : UInt64) (turn : Turn) {elapsed : Duration}
    {result : Result} :
    let asked := (m.run backend before).1
    let started := (asked.run backend waiting).1
    let now := (started.run backend during).1
    let last := now.move backend (.turn (.job job.id) turn)
    job.request = (Request.make kind key asked.registry.view).withPosition line column ticket →
    job ∈ started.jobs → 0 < started.edits backend key during →
    asked.edits backend key (waiting ++ during) < UInt32.size →
    (∀ move ∈ during, ¬ move.RecordsParse key) →
    ((∃ move ∈ waiting ++ during, move.Replaces key) →
      now.registry.clock.taken < UInt64.size) →
    Event.ended job.request elapsed result ∈ last.2 →
      ∀ d, last.1.registry.documents.find? key = some d → d.needsReparse = true := by
  intro asked started now last hrequest hjob hedited hfew hparse hclock hended d hd
  have hkey : job.request.key = key := by rw [hrequest]; rfl
  subst hkey
  have hstep := step_any now backend (.turn (.job job.id) turn)
  have hnow : (job.id, job.request) ∈ now.roster := hstep.mem_roster_of_ended hended
  have hlearned : last.1.registry = (learn now.registry job.request result).1 :=
    hstep.registry_of_ended hended
  have hexclusive : started.Exclusive True :=
    ((exclusive_of_isNew (isNew_of_create? hm)).run backend before).run backend waiting
  have hlt := hexclusive.lt_spawned _ (List.mem_map_of_mem hjob)
  have hflag : ∀ d ∈ now.registry.documents.find? job.request.key, d.needsReparse = true :=
    needsReparse_run_of_edits (e := (job.id, job.request)) hexclusive hlt hnow hparse hedited
  rw [hlearned] at hd
  refine (needsReparse_learn hflag hd).2 ?_
  rintro ⟨-, -, hsince, hrevision⟩
  -- the copy of the request is still open, but its revision has moved on
  have hruns : now = (asked.run backend (waiting ++ during)).1 := by rw [run_append]
  have hopenedAt : job.request.openedAt =
      (copyStamp job.request.key asked.registry).getD .origin :=
    congrArg Request.openedAt hrequest
  rw [hruns] at hclock hsince hd
  obtain ⟨hopen, hkept⟩ : asked.registry.documents.isOpen job.request.key = true ∧
      ∀ move ∈ waiting ++ during, ¬ move.Replaces job.request.key := by
    by_cases hkept : ∀ move ∈ waiting ++ during, ¬ move.Replaces job.request.key
    · rw [← isOpen_run_of_kept asked backend hkept]
      exact ⟨Documents.isOpen_of_isOpenSince hsince, hkept⟩
    · have hreplaced : ∃ move ∈ waiting ++ during, move.Replaces job.request.key := by
        simpa using hkept
      rw [hopenedAt] at hsince
      exact (isOpenSince_run_iff hm backend before _ _ (hclock hreplaced)).1 hsince
  obtain ⟨old, hold⟩ := Option.isSome_iff_exists.1 hopen
  have hsnapshot : job.request.revision = old.revision := by
    have hmade := congrArg Request.revision hrequest
    rw [Request.withPosition, Request.make, document_view, hold] at hmade
    exact hmade
  have hall : 0 < asked.edits backend job.request.key (waiting ++ during) := by
    rw [edits_append]
    exact Nat.add_pos_right _ hedited
  have hmoved := revision_run_ne hkept hall hfew hold
  exact revision_learn (P := fun revision => revision ≠ old.revision) hmoved job.request result d
    hd (hrevision.trans hsnapshot)

/-- The premises hold where a document is edited while its annotations are computed. -/
theorem needsReparse_of_edited_once :
    let key : DocumentKey := ⟨⟨""⟩, ""⟩
    let turn : Turn := ⟨.zero, false⟩
    let backend : Backend := fun _ => none
    let setup : List Command := [.putProject "" [], .openDocument key]
    let request := Request.make .updateAnnotations key (new.run setup).view
    let waiting : List Move :=
      [.act (.enqueue .updateAnnotations key), .act (.process turn), .turn (.job 0) turn]
    let during : List Move :=
      [.act (.command (.onDocuments (.edit key))),
        .act (.answer key fun _ => .returned (.ok (.annotations 0)))]
    ∃ m, create? (.default 1) (new.run setup) = some m ∧
      let started := (m.run backend waiting).1
      let last := (started.run backend during).1.move backend (.turn (.job 0) turn)
      ⟨0, request, .executing⟩ ∈ started.jobs ∧ 0 < started.edits backend key during ∧
        Event.ended request .zero (.ok (.annotations 0)) ∈ last.2 ∧
        ∃ d, last.1.registry.documents.find? key = some d ∧ d.needsReparse = true := by
  intro key turn backend setup request waiting during
  have hm : create? (.default 1) (new.run setup) = some _ := rfl
  refine ⟨_, hm, ?_⟩
  intro started last
  have hjob : ⟨0, request, .executing⟩ ∈ started.jobs := by decide +kernel
  have hedited : 0 < started.edits backend key during := by decide +kernel
  have hended : Event.ended request .zero (.ok (.annotations 0)) ∈ last.2 := by decide +kernel
  have hopen : (last.1.registry.documents.find? key).isSome = true := by decide +kernel
  obtain ⟨d, hd⟩ := Option.isSome_iff_exists.1 hopen
  refine ⟨hjob, hedited, hended, d, hd, ?_⟩
  exact needsReparse_of_edited hm backend [] waiting during ⟨0, request, .executing⟩
    .updateAnnotations key 0 0 0 turn rfl hjob hedited (by decide +kernel)
    (by simp [during, Move.RecordsParse, Command.RecordsParse]) (fun _ => by decide +kernel)
    hended d hd

end AnalysisJobs.Runner
