import AnalysisJobs.Proofs.Registry.Stamps
import AnalysisJobs.Request.Staleness
/-!
# When a request is still worth running

A check that passes all of its stages says that what the request requires holds of
the live registry.  For requests made against an earlier state of the same registry
the comparisons of stamps then say what happened in between, and nothing else.
-/

namespace AnalysisJobs

namespace Request

variable {r : Request}

theorem checkDocument_eq_pass_iff (r : Request) (document : Option Document) :
    r.checkDocument document = .pass ↔
      ∃ d, document = some d ∧
        (r.requirements.has .documentIntact = true → d.intact = true) ∧
        (r.requirements.has .currentRevision = true → d.revision = r.revision) := by
  cases document with
  | none => simp [checkDocument]
  | some d =>
    simp only [checkDocument, Option.some.injEq, exists_eq_left', Document.intact]
    by_cases hfailed : r.requirements.has .documentIntact && d.failed
    · rw [if_pos hfailed]
      simp_all
    · by_cases hrevision : r.requirements.has .currentRevision && d.revision != r.revision
      · rw [if_neg hfailed, if_pos hrevision]
        simp_all
      · rw [if_neg hfailed, if_neg hrevision]
        simp_all

theorem checkBuffers_eq_pass_iff (r : Request) (live : Stamp) :
    r.checkBuffers live = .pass ↔ live.isAfter r.buffersAt = false := by
  unfold checkBuffers
  split <;> simp_all

theorem checkProject_eq_pass_iff (h : r.requirements.has .projectExists = true)
    (change : Option Stamp) :
    r.checkProject change = .pass ↔
      ∃ live, change = some live ∧
        (r.requirements.has .currentProject = true → live.isAfter r.projectAt = false) := by
  cases change with
  | none => simp [checkProject, h]
  | some live =>
    simp only [checkProject, Option.some.injEq, exists_eq_left']
    by_cases hchanged : r.requirements.has .currentProject && live.isAfter r.projectAt
    · rw [if_pos hchanged]
      simp_all
    · rw [if_neg hchanged]
      simp_all

theorem check_ne_settled_none (h : r.requirements.has .documentOpen = true) (view : View)
    (part : Part) : r.check view part ≠ .settled none := by
  cases part with
  | document =>
    rw [check]
    cases view.document r.key with
    | none => simp [checkDocument, h]
    | some d =>
      simp only [checkDocument]
      split
      · simp
      · split <;> simp
  | buffers =>
    rw [check, checkBuffers]
    split <;> simp
  | project =>
    rw [check]
    cases view.projectChange r.key.project with
    | none =>
      rw [checkProject]
      split <;> simp
    | some live =>
      rw [checkProject]
      split <;> simp

/-- A request that requires at least an open document and a project is fresh exactly
if everything that it requires holds. -/
theorem staleness_eq_none_iff (hopen : r.requirements.has .documentOpen = true)
    (hexists : r.requirements.has .projectExists = true) (view : View) :
    r.staleness view = none ↔
      (∃ d, view.document r.key = some d ∧
        (r.requirements.has .documentIntact = true → d.intact = true) ∧
        (r.requirements.has .currentRevision = true → d.revision = r.revision)) ∧
      (r.requirements.has .currentBuffers = true →
        view.buffersChange.isAfter r.buffersAt = false) ∧
      ∃ live, view.projectChange r.key.project = some live ∧
        (r.requirements.has .currentProject = true → live.isAfter r.projectAt = false) := by
  have hdocument : r.readsPart .document = true :=
    Requirements.touches_iff.2 ⟨.documentOpen, rfl, hopen⟩
  have hproject : r.readsPart .project = true :=
    Requirements.touches_iff.2 ⟨.projectExists, rfl, hexists⟩
  have hreason {part : Part} {reason : Option Staleness}
      (h : r.check view part = .settled reason) : reason ≠ none :=
    fun hnone => check_ne_settled_none hopen view part (hnone ▸ h)
  rw [← checkDocument_eq_pass_iff, ← checkBuffers_eq_pass_iff,
    ← checkProject_eq_pass_iff hexists, staleness_eq, if_pos hdocument, if_pos hproject]
  change _ ↔ r.check view .document = .pass ∧
    (r.requirements.has .currentBuffers = true → r.check view .buffers = .pass) ∧
    r.check view .project = .pass
  cases hd : r.check view .document with
  | settled reason => simp [hreason hd]
  | pass =>
    by_cases hbuffers : r.requirements.has .currentBuffers = true
    · have hreads : r.readsPart .buffers = true := hbuffers
      cases hb : r.check view .buffers with
      | settled reason => simp [hreads, hbuffers, hreason hb]
      | pass =>
        cases hp : r.check view .project with
        | settled reason => simp [hreads, hreason hp]
        | pass => simp [hreads]
    · have hreads : ¬ r.readsPart .buffers = true := hbuffers
      cases hp : r.check view .project with
      | settled reason => simp [hreads, hreason hp]
      | pass => simp [hreads, hbuffers]

/-! ## Requests of each kind -/

section Kinds

variable (key : DocumentKey) (old live : View)

theorem annotations_fresh_iff {kind : Kind} (h : kind.requirements = .full) :
    (make kind key old).staleness live = none ↔
      (∃ d, live.document key = some d ∧ d.intact = true ∧
        d.revision = (make kind key old).revision) ∧
      live.buffersChange.isAfter old.buffersChange = false ∧
      ∃ s, live.projectChange key.project = some s ∧
        s.isAfter ((old.projectChange key.project).getD .origin) = false := by
  have hall (q : Requirement) : (make kind key old).requirements.has q = true := by
    rw [requirements_make, h, Requirements.full, Requirements.has_ofTest]
  rw [staleness_eq_none_iff (hall _) (hall _)]
  simp only [hall, forall_const]
  rfl

theorem preamble_fresh_iff :
    (make .buildPreamble key old).staleness live = none ↔
      (∃ d, live.document key = some d ∧ d.intact = true) ∧
      ∃ s, live.projectChange key.project = some s ∧
        s.isAfter ((old.projectChange key.project).getD .origin) = false := by
  rw [staleness_eq_none_iff rfl rfl]
  simp [Kind.requirements, make]

theorem completion_fresh_iff :
    (make .completeCode key old).staleness live = none ↔
      (∃ d, live.document key = some d ∧ d.intact = true) ∧
      ∃ s, live.projectChange key.project = some s := by
  rw [staleness_eq_none_iff rfl rfl]
  simp [Kind.requirements, make]

end Kinds

end Request

namespace Registry

variable {reg : Registry} {before after : List Command}

theorem buffers_isAfter_eq_false_iff
    (hclock : ((new.run before).run after).clock.taken < UInt64.size) :
    ((new.run before).run after).buffers.changedAt.isAfter
        (new.run before).buffers.changedAt = false ↔
      Effect.renewed ∉ effects buffersEffect (new.run before) after := by
  have hstart := Nat.lt_of_le_of_lt (taken_le_run (new.run before) after) hclock
  have hdates : ∀ s, some (new.run before).buffers.changedAt = some s → (new.run before).Dates s :=
    fun s hs => Option.some.inj hs ▸ dates_buffers hstart
  have hafter : ((new.run before).run after).buffers.changedAt.isAfter
      (new.run before).buffers.changedAt = true ↔
        Effect.renewed ∈ effects buffersEffect (new.run before) after :=
    tracked_buffers.isAfter_iff hdates hclock rfl
  rw [← hafter, Bool.not_eq_true]

theorem project_current_iff (hclock : ((new.run before).run after).clock.taken < UInt64.size)
    (id : ProjectId) :
    (∃ live, projectStamp id ((new.run before).run after) = some live ∧
        live.isAfter ((projectStamp id (new.run before)).getD .origin) = false) ↔
      ((new.run before).run after).projects.isKnown id = true ∧
        ∀ c ∈ after, projectEffect id c ≠ .renewed := by
  have hstart := Nat.lt_of_le_of_lt (taken_le_run (new.run before) after) hclock
  have hafter {live : Stamp} (hlive : projectStamp id ((new.run before).run after) = some live) :
      live.isAfter ((projectStamp id (new.run before)).getD .origin) = false ↔
        ∀ c ∈ after, projectEffect id c ≠ .renewed := by
    have h := (tracked_project id).isAfter_iff (dates_project hstart id) hclock hlive
    rw [← Bool.not_eq_true, h, effects_of_forall, List.mem_map, not_exists]
    exact ⟨fun hnot c hc heq => hnot c ⟨hc, heq⟩, fun hne c hc => hne c hc.1 hc.2⟩
  rw [isKnown_iff]
  constructor
  · rintro ⟨live, hlive, hcurrent⟩
    exact ⟨⟨live, hlive⟩, (hafter hlive).1 hcurrent⟩
  · rintro ⟨⟨live, hlive⟩, hnot⟩
    exact ⟨live, hlive, (hafter hlive).2 hnot⟩

end Registry

open Registry

/-- What a request made against an earlier state of a registry finds of its document
and project now, told by their stamps, is what the commands in between did. -/
theorem fresh_iff_history (before after : List Command) (key : DocumentKey)
    (hclock : ((new.run before).run after).clock.taken < UInt64.size) :
    let start := new.run before
    let now := start.run after
    let snapshot (kind : Kind) := Request.make kind key start.view
    let intact := ∃ d, now.documents.find? key = some d ∧ d.intact = true
    let current := now.projects.isKnown key.project = true ∧
      ∀ c ∈ after, projectEffect key.project c ≠ .renewed
    (∀ kind, kind = .updateAnnotations ∨ kind = .requestAnnotations →
        ((snapshot kind).staleness now.view = none ↔
          (∃ d, now.documents.find? key = some d ∧ d.intact = true ∧
            d.revision = (snapshot kind).revision) ∧
          Effect.renewed ∉ effects buffersEffect start after ∧ current)) ∧
      ((snapshot .buildPreamble).staleness now.view = none ↔ intact ∧ current) ∧
      ((snapshot .completeCode).staleness now.view = none ↔
        intact ∧ now.projects.isKnown key.project = true) := by
  intro start now snapshot intact current
  have hbuffers := buffers_isAfter_eq_false_iff hclock
  have hproject := project_current_iff hclock key.project
  have hknown := isKnown_iff now key.project
  refine ⟨?_, ?_, ?_⟩
  · rintro kind (rfl | rfl)
    · exact (Request.annotations_fresh_iff key _ _ rfl).trans
        (and_congr_right' (and_congr hbuffers hproject))
    · exact (Request.annotations_fresh_iff key _ _ rfl).trans
        (and_congr_right' (and_congr hbuffers hproject))
  · exact (Request.preamble_fresh_iff key _ _).trans (and_congr_right' hproject)
  · exact (Request.completion_fresh_iff key _ _).trans (and_congr_right' hknown.symm)

/-- The premise holds where a project is removed and created again, which makes a
request for a preamble stale. -/
theorem fresh_iff_history_project_recreated :
    let key : DocumentKey := ⟨⟨""⟩, ""⟩
    let before : List Command := [.putProject "" [], .openDocument key]
    let after : List Command := [.removeProject "", .putProject "" []]
    ((new.run before).run after).clock.taken < UInt64.size ∧
      (Request.make .buildPreamble key (new.run before).view).staleness
        ((new.run before).run after).view ≠ none := by
  intro key before after
  have hclock : ((new.run before).run after).clock.taken < UInt64.size := by decide
  refine ⟨hclock, fun hfresh => ?_⟩
  obtain ⟨-, -, hkept⟩ := ((fresh_iff_history before after key hclock).2.1).1 hfresh
  exact hkept (.putProject "" []) (by simp [after]) rfl

end AnalysisJobs
