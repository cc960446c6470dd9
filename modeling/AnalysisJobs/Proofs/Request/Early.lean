import AnalysisJobs.Proofs.Registry.Copies
import AnalysisJobs.Proofs.Request.Freshness
/-!
# Requests made too early

A request may be made before its document is open or before its project exists.  What was
missing leaves zeros in the snapshot.  The revision zero is also the revision of a copy that
was just opened, so that a request which only lacked its document is fresh once the document
is open.  The stamp of a project that was just created is never zero: a request which lacked
its project finds the project changed, unless it is one for completion, which does not ask.
-/

namespace AnalysisJobs

open Registry

namespace Registry

/-- The command opens the document or creates its project, which is missing in `reg`. -/
def Supplies (reg : Registry) (key : DocumentKey) : Command → Prop
  | .openDocument k | .onDocuments (.openDocument k) =>
    k.Same key ∧ reg.documents.isOpen key = false
  | .configureProject id _ | .putProject id _ =>
    id = key.project ∧ reg.projects.isKnown key.project = false
  | _ => False

/-- A copy as intact and as old as the one that was open in `reg`, or as a new one. -/
def CopyAsFound (reg : Registry) (key : DocumentKey) (d : Document) : Prop :=
  d.intact = true ∧ d.revision = ((reg.documents.find? key).map Document.revision).getD 0

/-- A registry with everything that there was in `reg` for a document, where a copy that was
opened since is new. -/
structure AsFound (reg : Registry) (key : DocumentKey) (now : Registry) : Prop where
  copy : ∀ d ∈ now.documents.find? key, reg.CopyAsFound key d
  buffers : now.buffers = reg.buffers
  project : reg.projects.isKnown key.project = true →
    projectStamp key.project now = projectStamp key.project reg

variable {reg now : Registry} {key : DocumentKey} {c : Command}

theorem asFound_self (hintact : ∀ d ∈ reg.documents.find? key, d.intact = true) :
    AsFound reg key reg where
  copy d hd := by
    refine ⟨hintact d hd, ?_⟩
    rw [Option.mem_def.1 hd, Option.map_some, Option.getD_some]
  buffers := rfl
  project _ := rfl

theorem copyAsFound_opened {document : Option Document}
    (hclosed : reg.documents.isOpen key = false) (h : ∀ d ∈ document, reg.CopyAsFound key d)
    (k : DocumentKey) (stamp : Stamp) :
    ∀ d ∈ (if k.Same key then some (document.elim (.fresh k stamp) (·.reopened k stamp))
      else document), reg.CopyAsFound key d := by
  rw [Documents.isOpen, Option.isSome_eq_false_iff, Option.isNone_iff_eq_none] at hclosed
  have hfresh : reg.CopyAsFound key (.fresh k stamp) := by
    rw [CopyAsFound, hclosed]
    exact ⟨rfl, rfl⟩
  exact forall_mem_ite_opened h (fun _ => hfresh) fun _ _ _ => hfresh

theorem AsFound.copy_after (h : AsFound reg key now) (hc : reg.Supplies key c) :
    ∀ d ∈ (now.after c).documents.find? key, reg.CopyAsFound key d := by
  refine find?_after_induction (P := fun document => ∀ d ∈ document, reg.CopyAsFound key d)
    h.copy fun op hop document hdocument => ?_
  cases c with
  | openDocument k =>
    obtain rfl := List.mem_singleton.1 hop
    exact copyAsFound_opened hc.2 hdocument k _
  | onDocuments change =>
    obtain rfl := List.mem_singleton.1 hop
    cases op with
    | openDocument k => exact copyAsFound_opened hc.2 hdocument k _
    | _ => exact hc.elim
  | configureProject id arguments =>
    obtain rfl := List.mem_singleton.1 hop
    refine forall_mem_map hdocument fun d hd => ?_
    split <;> exact hd
  | putProject id arguments => cases hop
  | _ => exact hc.elim

theorem Supplies.projectEffect_eq (hc : reg.Supplies key c)
    (hknown : reg.projects.isKnown key.project = true) :
    projectEffect key.project c = .kept := by
  cases c with
  | configureProject | putProject =>
    rw [hc.2] at hknown
    cases hknown
  | openDocument | onDocuments => rfl
  | _ => exact hc.elim

theorem AsFound.after (h : AsFound reg key now) (hc : reg.Supplies key c) :
    AsFound reg key (now.after c) where
  copy := h.copy_after hc
  buffers := by
    rw [← h.buffers]
    cases c with
    | openDocument | onDocuments | configureProject | putProject => rfl
    | _ => exact hc.elim
  project hknown := by
    rw [(tracked_project key.project).read_after, hc.projectEffect_eq hknown]
    exact h.project hknown

theorem AsFound.run (h : AsFound reg key now) {commands : List Command}
    (hall : ∀ c ∈ commands, reg.Supplies key c) : AsFound reg key (now.run commands) := by
  induction commands generalizing now with
  | nil => exact h
  | cons c rest ih =>
    obtain ⟨hc, hrest⟩ := List.forall_mem_cons.1 hall
    exact ih (h.after hc) hrest

theorem isAfter_of_created {id : ProjectId} {commands : List Command}
    (hmissing : reg.projects.isKnown id = false)
    (hclock : (reg.run commands).clock.taken < UInt64.size) {live : Stamp}
    (hlive : projectStamp id (reg.run commands) = some live) :
    live.isAfter ((projectStamp id reg).getD .origin) = true := by
  have hnone : projectStamp id reg = none := by
    rw [Projects.isKnown, Option.isSome_eq_false_iff, Option.isNone_iff_eq_none] at hmissing
    rw [projectStamp, hmissing, Option.map_none]
  have hdates : ∀ s, projectStamp id reg = some s → reg.Dates s := by simp [hnone]
  rw [(tracked_project id).isAfter_iff hdates hclock hlive]
  by_contra hnot
  rcases (tracked_project id).run_not_renewed hnot with hgone | hsame
  · rw [hgone] at hlive
    cases hlive
  · rw [hsame, hnone] at hlive
    cases hlive

end Registry

/-! ## The checks of a request -/

def Verdict.reason : Verdict → Option Staleness
  | pass => none
  | settled reason => reason

namespace Request

theorem documentOpen_make (kind : Kind) (key : DocumentKey) (view : View) :
    (make kind key view).requirements.has .documentOpen = true := by
  cases kind <;> rfl

theorem projectExists_make (kind : Kind) (key : DocumentKey) (view : View) :
    (make kind key view).requirements.has .projectExists = true := by
  cases kind <;> rfl

theorem staleness_of_pass {r : Request} {view : View}
    (hexists : r.requirements.has .projectExists = true)
    (hdocument : r.check view .document = .pass) (hbuffers : r.check view .buffers = .pass) :
    r.staleness view = (r.check view .project).reason := by
  have hproject : r.readsPart .project = true :=
    Requirements.touches_iff.2 ⟨.projectExists, rfl, hexists⟩
  rw [staleness_eq, hdocument, hbuffers, ite_self, ite_self, if_pos hproject]
  cases r.check view .project <;> rfl

variable {reg now : Registry} {kind : Kind} {key : DocumentKey}

theorem isStale_of_missing
    (hmissing : ¬ (now.documents.isOpen key = true ∧ now.projects.isKnown key.project = true)) :
    (make kind key reg.view).isStale now.view = true := by
  rw [isStale, Option.isSome_iff_ne_none, ne_eq,
    staleness_eq_none_iff (documentOpen_make ..) (projectExists_make ..)]
  rintro ⟨⟨d, hd, -⟩, -, live, hlive, -⟩
  exact hmissing ⟨Option.isSome_iff_exists.2 ⟨d, hd⟩, (isKnown_iff now _).2 ⟨live, hlive⟩⟩

theorem staleness_of_asFound (kind : Kind) (h : AsFound reg key now) {live : Stamp}
    (hopen : now.documents.isOpen key = true)
    (hlive : projectStamp key.project now = some live) :
    (make kind key reg.view).staleness now.view =
      if kind.requirements.has .currentProject &&
          live.isAfter ((projectStamp key.project reg).getD .origin) then
        some .projectChanged
      else none := by
  obtain ⟨d, hd⟩ := Option.isSome_iff_exists.1 hopen
  obtain ⟨hintact, hrevision⟩ := h.copy d hd
  have hdocument : (make kind key reg.view).check now.view .document = .pass :=
    (checkDocument_eq_pass_iff _ _).2 ⟨d, hd, fun _ => hintact, fun _ => hrevision⟩
  have hbuffers : (make kind key reg.view).check now.view .buffers = .pass := by
    refine (checkBuffers_eq_pass_iff _ _).2 ?_
    rw [buffersChange_view, h.buffers]
    simp [Stamp.isAfter]
  have hchange : now.view.projectChange key.project = some live := hlive
  have hproject : (make kind key reg.view).check now.view .project =
      if kind.requirements.has .currentProject &&
          live.isAfter ((projectStamp key.project reg).getD .origin) then
        .settled (some .projectChanged)
      else .pass := by
    rw [check, key_make, hchange]
    rfl
  rw [staleness_of_pass (projectExists_make ..) hdocument hbuffers, hproject]
  cases kind.requirements.has .currentProject &&
    live.isAfter ((projectStamp key.project reg).getD .origin) <;> rfl

/-- Nothing brings a request for a missing project up to date if it asks whether the project
changed. -/
theorem isStale_of_project_missing {commands : List Command}
    (hkind : kind.requirements.has .currentProject = true)
    (hmissing : reg.projects.isKnown key.project = false)
    (hclock : (reg.run commands).clock.taken < UInt64.size) :
    (make kind key reg.view).isStale (reg.run commands).view = true := by
  rw [isStale, Option.isSome_iff_ne_none, ne_eq,
    staleness_eq_none_iff (documentOpen_make ..) (projectExists_make ..)]
  rintro ⟨-, -, live, hlive, hcurrent⟩
  have hafter := isAfter_of_created hmissing hclock hlive
  exact Bool.false_ne_true ((hcurrent hkind).symm.trans hafter)

end Request

/-- A request that was made too early is stale as long as something is missing.  Once what was
missing is there and nothing else changed, it is fresh, except that a request which asks
whether its project changed does not outlive the lack of a project: it takes the creation for
a change, and stays stale whatever happens. -/
theorem early_request_fate (reg : Registry) (kind : Kind) (key : DocumentKey)
    (hintact : ∀ d ∈ reg.documents.find? key, d.intact = true) (commands : List Command) :
    let request := Request.make kind key reg.view
    let now := reg.run commands
    let isComplete := now.documents.isOpen key = true ∧ now.projects.isKnown key.project = true
    let isLost := kind.requirements.has .currentProject = true ∧
      reg.projects.isKnown key.project = false
    (¬ isComplete → request.isStale now.view = true) ∧
      (isComplete → (∀ c ∈ commands, reg.Supplies key c) →
        (¬ isLost → request.staleness now.view = none) ∧
        (isLost → now.clock.taken < UInt64.size →
          request.staleness now.view = some .projectChanged)) ∧
      (isLost → now.clock.taken < UInt64.size → request.isStale now.view = true) := by
  intro request now isComplete isLost
  refine ⟨Request.isStale_of_missing, ?_, fun hlost hclock =>
    Request.isStale_of_project_missing hlost.1 hlost.2 hclock⟩
  rintro ⟨hopen, hknown⟩ hall
  have hfound : reg.AsFound key now := (asFound_self hintact).run hall
  obtain ⟨live, hlive⟩ := (isKnown_iff now key.project).1 hknown
  have hstaleness : request.staleness now.view = _ :=
    Request.staleness_of_asFound kind hfound hopen hlive
  constructor
  · intro hnot
    rw [hstaleness, if_neg]
    rw [Bool.and_eq_true]
    rintro ⟨hkind, hafter⟩
    have hproject : reg.projects.isKnown key.project = true := by
      by_contra hmissing
      exact hnot ⟨hkind, Bool.eq_false_iff.2 hmissing⟩
    -- the project has the stamp that the request saw
    rw [← hfound.project hproject, hlive, Option.getD_some] at hafter
    simp [Stamp.isAfter] at hafter
  · rintro ⟨hkind, hmissing⟩ hclock
    rw [hstaleness, hkind, isAfter_of_created hmissing hclock hlive]
    rfl

/-- The premises hold where a document is opened after a request for its preamble was made,
which then is fresh. -/
theorem early_request_fate_document_opened :
    let key : DocumentKey := ⟨⟨""⟩, ""⟩
    let reg := new.run [.putProject "" []]
    (∀ d ∈ reg.documents.find? key, d.intact = true) ∧
      (Request.make .buildPreamble key reg.view).isStale reg.view = true ∧
      (Request.make .buildPreamble key reg.view).staleness
        (reg.run [.openDocument key]).view = none := by
  intro key reg
  have hintact : ∀ d ∈ reg.documents.find? key, d.intact = true := nofun
  have hwaits := (early_request_fate reg .buildPreamble key hintact []).1
  have hopened := (early_request_fate reg .buildPreamble key hintact [.openDocument key]).2.1
  refine ⟨hintact, hwaits (by decide), (hopened (by decide) ?_).1 (by decide)⟩
  intro c hc
  obtain rfl := List.mem_singleton.1 hc
  exact ⟨key.same_refl, rfl⟩

/-- A request for the preamble of an open document waits for its project in vain. -/
theorem early_request_lost_to_new_project :
    let key : DocumentKey := ⟨⟨""⟩, ""⟩
    let reg := new.run [.openDocument key]
    let request := Request.make .buildPreamble key reg.view
    (∀ d ∈ reg.documents.find? key, d.intact = true) ∧
      request.staleness reg.view = some .projectMissing ∧
      reg.Supplies key (.putProject "" []) ∧
      request.staleness (reg.run [.putProject "" []]).view = some .projectChanged := by
  intro key reg request
  exact ⟨by decide, by decide, ⟨rfl, rfl⟩, by decide⟩

end AnalysisJobs
