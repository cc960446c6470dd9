import AnalysisJobs.Registry.Basic
import AnalysisJobs.Request.Staleness
/-!
# Why a request is stale

A check goes through the parts of the registry in stages.  What it reports can be said without
them: it is the first reason, in one fixed order, that the request asks about and that is true
of the live view.  The one exception is a missing document which the request does not ask to be
open: if the request asks anything else about the document, the check ends there and reports
nothing.

Whether a reason is true does not depend on what the request asks.  A request that asks more
is therefore stale wherever one that asks less is, but for the exception.
-/

namespace AnalysisJobs

namespace Staleness

def all : List Staleness :=
  [documentClosed, documentNotIntact, revisionChanged, buffersChanged, projectMissing,
    projectChanged]

theorem mem_all (reason : Staleness) : reason ∈ all := by
  cases reason <;> simp [all]

end Staleness

/-- The reasons that the stage of a part looks for, in order. -/
def Part.reasons : Part → List Staleness
  | document => [.documentClosed, .documentNotIntact, .revisionChanged]
  | buffers => [.buffersChanged]
  | project => [.projectMissing, .projectChanged]

def Verdict.ofReason : Option Staleness → Verdict
  | none => pass
  | some reason => settled (some reason)

namespace Request

/-- Whether a reason is true of the request under a live view: what it is about is missing,
or it is there and is not what the snapshot has. -/
def applies (r : Request) (view : View) : Staleness → Bool
  | .documentClosed => (view.document r.key).isNone
  | .documentNotIntact => (view.document r.key).any fun d => !d.intact
  | .revisionChanged => (view.document r.key).any fun d => d.revision != r.revision
  | .buffersChanged => view.buffersChange.isAfter r.buffersAt
  | .projectMissing => (view.projectChange r.key.project).isNone
  | .projectChanged => (view.projectChange r.key.project).any fun s => s.isAfter r.projectAt

/-- Whether a reason is true of the request and one that the request asks about. -/
def objects (r : Request) (view : View) (reason : Staleness) : Bool :=
  r.requirements.has reason.requirement && r.applies view reason

def requiring (r : Request) (required : Requirements) : Request :=
  { r with requirements := required }

/-- Whether the check ends at the document without a reason. -/
def endsAtMissing (r : Request) (view : View) : Bool :=
  r.readsPart .document && (view.document r.key).isNone && !r.requirements.has .documentOpen

variable {r : Request} {view : View}

theorem objects_iff {reason : Staleness} :
    r.objects view reason = true ↔
      r.requirements.has reason.requirement = true ∧ r.applies view reason = true :=
  Bool.and_eq_true_iff

theorem touches_iff_reason {about : Requirements} {reasons : List Staleness}
    (h : ∀ q, about.has q = true ↔ ∃ reason ∈ reasons, reason.requirement = q)
    (required : Requirements) :
    required.touches about = true ↔
      ∃ reason ∈ reasons, required.has reason.requirement = true := by
  rw [Requirements.touches_iff]
  constructor
  · rintro ⟨q, hq, hrequired⟩
    obtain ⟨reason, hreason, rfl⟩ := (h q).1 hq
    exact ⟨reason, hreason, hrequired⟩
  · rintro ⟨reason, hreason, hrequired⟩
    exact ⟨reason.requirement, (h _).2 ⟨reason, hreason, rfl⟩, hrequired⟩

theorem readsPart_iff (r : Request) (part : Part) :
    r.readsPart part = true ↔
      ∃ reason ∈ part.reasons, r.requirements.has reason.requirement = true := by
  cases part with
  | document => exact touches_iff_reason (fun q => by cases q <;> decide) r.requirements
  | buffers => simp [readsPart, Part.reasons, Staleness.requirement]
  | project => exact touches_iff_reason (fun q => by cases q <;> decide) r.requirements

/-! ## The stages -/

theorem checkDocument_eq (hread : r.readsPart .document = true)
    (hends : r.endsAtMissing view = false) :
    r.check view .document = .ofReason ((Part.reasons .document).find? (r.objects view)) := by
  cases hd : view.document r.key with
  | none =>
    have hopen : r.requirements.has .documentOpen = true := by
      simpa [endsAtMissing, hread, hd] using hends
    simp [check, checkDocument, hd, hopen, Part.reasons, objects, applies, Staleness.requirement,
      Verdict.ofReason]
  | some d =>
    simp only [check, checkDocument, hd, Part.reasons, objects, applies, Staleness.requirement,
      Option.isNone_some, Option.any_some, Document.intact, Bool.not_not, List.find?_cons]
    cases r.requirements.has .documentIntact && d.failed <;>
      cases r.requirements.has .currentRevision && d.revision != r.revision <;>
      simp [Verdict.ofReason]

theorem checkBuffers_eq (hread : r.readsPart .buffers = true) :
    r.check view .buffers = .ofReason ((Part.reasons .buffers).find? (r.objects view)) := by
  have hrequired : r.requirements.has .currentBuffers = true := hread
  simp only [check, checkBuffers, Part.reasons, objects, applies, Staleness.requirement,
    hrequired, Bool.true_and, List.find?_cons]
  cases view.buffersChange.isAfter r.buffersAt <;> simp [Verdict.ofReason]

theorem checkProject_eq (r : Request) (view : View) :
    r.check view .project = .ofReason ((Part.reasons .project).find? (r.objects view)) := by
  simp only [check, Part.reasons, objects, applies, Staleness.requirement, List.find?_cons]
  cases view.projectChange r.key.project with
  | none => cases h : r.requirements.has .projectExists <;> simp [checkProject, h, Verdict.ofReason]
  | some live =>
    cases h : r.requirements.has .currentProject && live.isAfter r.projectAt <;>
      simp [checkProject, h, Verdict.ofReason]

/-- A stage, passed over or not, comes to the first of its reasons that speaks against the
request. -/
theorem stage_eq (hends : r.endsAtMissing view = false) (part : Part) :
    (if r.readsPart part then r.check view part else .pass) =
      .ofReason (part.reasons.find? (r.objects view)) := by
  by_cases hread : r.readsPart part = true
  · rw [if_pos hread]
    cases part with
    | document => exact checkDocument_eq hread hends
    | buffers => exact checkBuffers_eq hread
    | project => exact checkProject_eq r view
  · rw [if_neg hread, List.find?_eq_none.2]
    · rfl
    · intro reason hreason hobjects
      exact hread ((readsPart_iff r part).2 ⟨reason, hreason, (objects_iff.1 hobjects).1⟩)

theorem staleness_eq_find? (r : Request) (view : View) :
    r.staleness view =
      if r.endsAtMissing view then none else Staleness.all.find? (r.objects view) := by
  cases hends : r.endsAtMissing view with
  | true =>
    simp only [endsAtMissing, Bool.and_eq_true, Bool.not_eq_true', Option.isNone_iff_eq_none]
      at hends
    obtain ⟨⟨hread, hmissing⟩, hopen⟩ := hends
    simp [staleness_eq, hread, check, hmissing, checkDocument, hopen]
  | false =>
    have hall : Staleness.all = Part.reasons .document ++ Part.reasons .buffers ++
        Part.reasons .project := rfl
    rw [staleness_eq, stage_eq hends, stage_eq hends, stage_eq hends, hall, List.find?_append,
      List.find?_append]
    cases (Part.reasons .document).find? (r.objects view) <;>
      cases (Part.reasons .buffers).find? (r.objects view) <;>
      cases (Part.reasons .project).find? (r.objects view) <;> rfl

theorem isStale_iff (r : Request) (view : View) :
    r.isStale view = true ↔
      r.endsAtMissing view = false ∧ ∃ reason, r.objects view reason = true := by
  rw [isStale, staleness_eq_find?]
  cases r.endsAtMissing view with
  | true => simp
  | false => simp [List.find?_isSome, Staleness.mem_all]

theorem staleness_eq_some_iff {reason : Staleness} :
    r.staleness view = some reason ↔
      r.endsAtMissing view = false ∧ r.objects view reason = true ∧
      ∃ earlier later, Staleness.all = earlier ++ reason :: later ∧
        ∀ other ∈ earlier, r.objects view other = false := by
  rw [staleness_eq_find?]
  cases r.endsAtMissing view with
  | true => simp
  | false => simp [List.find?_eq_some_iff_append]

theorem documentClosed_or_isSome {reason : Staleness} (h : r.staleness view = some reason)
    (hread : r.readsPart .document = true) :
    reason = .documentClosed ∨ (view.document r.key).isSome = true := by
  cases hd : view.document r.key with
  | some d => exact .inr rfl
  | none =>
    rw [staleness_eq, if_pos hread, check, hd, checkDocument] at h
    dsimp only at h
    split at h
    · exact .inl (Option.some.inj h).symm
    · cases h

/-! ## What a check reads -/

/-- A check depends on a view only through the parts that it reads. -/
theorem staleness_congr {other : View}
    (h : ∀ part, r.readsPart part = false ∨ r.check view part = r.check other part) :
    r.staleness view = r.staleness other := by
  have hexamine (parts : List Part) : r.examine view parts = r.examine other parts := by
    induction parts with
    | nil => rfl
    | cons part rest ih =>
      rw [examine, examine, ih]
      rcases h part with hunread | hsame
      · rw [hunread]
        rfl
      · rw [hsame]
  rw [staleness, staleness, hexamine]

/-- A reason that is reported is one that the request asks about, it is true, and it is the
first: no earlier reason that the request asks about is true, and the document is there if the
request asks anything about it, unless it is reported missing.  A request that asks nothing
about a part of the registry is judged without it. -/
theorem reported_reason_first (r : Request) (view : View) :
    (∀ reason, r.staleness view = some reason →
      r.requirements.has reason.requirement = true ∧ r.applies view reason = true ∧
      (∃ earlier later, Staleness.all = earlier ++ reason :: later ∧
        ∀ other ∈ earlier, r.requirements.has other.requirement = true →
          r.applies view other = false) ∧
      (r.requirements.touches aboutDocument = true →
        reason = .documentClosed ∨ (view.document r.key).isSome = true)) ∧
    (r.requirements.touches aboutDocument = false →
      ∀ document, r.staleness { view with document := document } = r.staleness view) ∧
    (r.requirements.touches aboutProject = false →
      ∀ change, r.staleness { view with projectChange := change } = r.staleness view) ∧
    (r.requirements.has .currentBuffers = false →
      ∀ change, r.staleness { view with buffersChange := change } = r.staleness view) := by
  refine ⟨fun reason hreason => ?_, fun hnone document => ?_, fun hnone change => ?_,
    fun hnone change => ?_⟩
  · obtain ⟨-, hobjects, earlier, later, hall, hfirst⟩ := staleness_eq_some_iff.1 hreason
    obtain ⟨hasked, happlies⟩ := objects_iff.1 hobjects
    refine ⟨hasked, happlies, ⟨earlier, later, hall, fun other hother hasked => ?_⟩,
      documentClosed_or_isSome hreason⟩
    simpa [objects, hasked] using hfirst other hother
  · exact staleness_congr fun
      | .document => .inl hnone
      | .buffers | .project => .inr rfl
  · exact staleness_congr fun
      | .project => .inl hnone
      | .document | .buffers => .inr rfl
  · exact staleness_congr fun
      | .buffers => .inl hnone
      | .document | .project => .inr rfl

/-- The premises hold where a project is missing and the request asks for nothing else, and
where a request asks for its document only. -/
theorem reported_reason_first_one_requirement :
    let view := Registry.new.view
    let asking (q : Requirement) : Request :=
      (make .completeCode ⟨⟨""⟩, ""⟩ view).requiring (.ofTest fun p => p = q)
    (asking .projectExists).staleness view = some .projectMissing ∧
      (asking .projectExists).applies view .projectMissing = true ∧
      (∀ document, (asking .projectExists).staleness { view with document := document } =
        (asking .projectExists).staleness view) ∧
      (∀ change, (asking .projectExists).staleness { view with buffersChange := change } =
        (asking .projectExists).staleness view) ∧
      ∀ change, (asking .documentOpen).staleness { view with projectChange := change } =
        (asking .documentOpen).staleness view := by
  intro view asking
  obtain ⟨hreason, hdocument, -, hbuffers⟩ := reported_reason_first (asking .projectExists) view
  obtain ⟨-, -, hproject, -⟩ := reported_reason_first (asking .documentOpen) view
  have hmissing : (asking .projectExists).staleness view = some .projectMissing := by decide
  exact ⟨hmissing, (hreason _ hmissing).2.1, hdocument (by decide), hbuffers (by decide),
    hproject (by decide)⟩

/-! ## Asking more -/

theorem isStale_requiring_iff (r : Request) (view : View) (required : Requirements) :
    (r.requiring required).isStale view = true ↔
      ¬ (view.document r.key = none ∧ required.touches aboutDocument = true ∧
        required.has .documentOpen = false) ∧
      ∃ reason, required.has reason.requirement = true ∧ r.applies view reason = true := by
  rw [isStale_iff]
  refine and_congr ?_ (exists_congr fun reason => objects_iff)
  rw [← Bool.not_eq_true, endsAtMissing]
  refine not_congr ?_
  simp only [Bool.and_eq_true, Option.isNone_iff_eq_none, Bool.not_eq_true']
  exact and_assoc.trans and_left_comm

/-- A request that asks more is stale wherever one that asks less is, unless its document is
missing and it asks something about the document but not that it be open: such a request
passes for fresh whatever else it asks. -/
theorem isStale_of_covers_iff (r : Request) (view : View) {few more : Requirements}
    (hcovers : more.covers few = true) (hstale : (r.requiring few).isStale view = true) :
    (r.requiring more).isStale view = true ↔
      ¬ (view.document r.key = none ∧ more.touches aboutDocument = true ∧
        more.has .documentOpen = false) := by
  obtain ⟨-, reason, hasked, happlies⟩ := (isStale_requiring_iff r view few).1 hstale
  rw [isStale_requiring_iff, and_iff_left]
  exact ⟨reason, Requirements.covers_iff.1 hcovers _ hasked, happlies⟩

/-- The premises hold where a project is missing and the request comes to ask for the document
as well. -/
theorem isStale_of_covers_iff_document_asked :
    let view := Registry.new.view
    let r := make .completeCode ⟨⟨""⟩, ""⟩ view
    let few : Requirements := .ofTest fun q => q = .projectExists
    let more : Requirements := .ofTest fun q => q = .projectExists ∨ q = .documentOpen
    more.covers few = true ∧ (r.requiring few).isStale view = true ∧
      (r.requiring more).isStale view = true := by
  intro view r few more
  have hcovers : more.covers few = true := by decide
  have hstale : (r.requiring few).isStale view = true := by decide
  exact ⟨hcovers, hstale, (isStale_of_covers_iff r view hcovers hstale).2 (by decide)⟩

/-- A request that only asks for its project is stale while the project is missing; one that
asks for an intact document as well, and has no document, passes for fresh. -/
theorem fresh_by_asking_more :
    let view := Registry.new.view
    let r := make .completeCode ⟨⟨""⟩, ""⟩ view
    let few : Requirements := .ofTest fun q => q = .projectExists
    let more : Requirements := .ofTest fun q => q = .projectExists ∨ q = .documentIntact
    more.covers few = true ∧ (r.requiring few).staleness view = some .projectMissing ∧
      (r.requiring more).staleness view = none := by
  intro view r few more
  exact ⟨by decide, by decide, by decide⟩

end Request

end AnalysisJobs
