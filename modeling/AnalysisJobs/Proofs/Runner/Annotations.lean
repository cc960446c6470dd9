import AnalysisJobs.Proofs.Request.Freshness
import AnalysisJobs.Proofs.Runner.Occupied
/-!
# What a successful update of annotations leaves

A pass hands a request for annotations out if its document is intact, at the revision of
the request; the end of its job marks the document as parsed if it is still the copy that
the request was made for.  These are two tests.  A request that was made before its
document was opened, or for an earlier copy, can pass the first, and fails the second: its
job runs and nothing comes of it.
-/

namespace AnalysisJobs

namespace Runner

open Registry

variable {crashes : Prop} {m n : Runner}

/-! ## The pass that starts a job -/

theorem Passes.staleness_of_mem_roster {events : List Event} (h : Passes crashes m events n)
    {e : Nat × Request} (hmem : e ∈ n.roster) (hnew : e ∉ m.roster) :
    e.2.staleness m.registry.view = .none := by
  induction h with
  | none hsame =>
    rw [hsame.roster] at hmem
    exact absurd hmem hnew
  | @pass m n last before after turn hsame _ hrest ih =>
    have hregistry : (n.passOver turn).1.registry = m.registry :=
      (passes_passOver n turn : Passes crashes _ _ _).registry.trans hsame.registry
    by_cases hfirst : e ∈ (n.passOver turn).1.roster
    · rcases mem_roster_passOver hfirst with hold | ⟨-, -, hbatch⟩
      · rw [hsame.roster] at hold
        exact absurd hold hnew
      · rw [← hsame.registry]
        exact Queue.staleness_of_mem_batch hbatch
    · rw [← hregistry]
      exact ih hmem hfirst

theorem Step.passes_of_mem_roster {move : Move} {events : List Event}
    (hstep : Step crashes m move events n) {e : Nat × Request} (hmem : e ∈ n.roster)
    (hnew : e ∉ m.roster) : Passes crashes m events n :=
  hstep.passes_or_roster_subset.resolve_right fun hkept => hnew (hkept.2 hmem)

/-! ## The end of the job -/

theorem find?_learn_of_ok {reg : Registry} {request : Request} {d : Document}
    (output : Output) (hkind : request.kind.producesParse = true)
    (hd : reg.documents.find? request.key = some d)
    (hsince : d.openedAt = request.openedAt) :
    (learn reg request (.ok output)).1.documents.find? request.key =
      some (d.parsed request.revision reg.clock.next) := by
  have hopen : reg.documents.isOpenSince request.key request.openedAt = true := by
    simp [Documents.isOpenSince, hd, hsince]
  rw [fst_learn_of_isOpenSince _ hopen]
  simp only [hkind, if_true]
  rw [onDocuments, Documents.apply, Documents.find?_markParsed, if_pos request.key.same_refl, hd]
  rfl

/-- An update of annotations that was successful, with no change of the registry since the
pass that started it, cleans its document if the copy is the one that the request was made
for.  Otherwise it changes nothing. -/
theorem annotations_clean_own_copy {settings : Settings} {setup : List Command}
    (hm : create? settings (new.run setup) = some m) (backend : Backend)
    (before waiting during : List Move) (pass : Move) (id : Nat) (key : DocumentKey)
    (line column : UInt32) (ticket : UInt64) (turn : Turn) {elapsed : Duration}
    {output : Output} :
    let asked := (m.run backend before).1
    let queued := (asked.run backend waiting).1
    let started := (queued.move backend pass).1
    let now := (started.run backend during).1
    let last := now.move backend (.turn (.job id) turn)
    let request :=
      (Request.make .updateAnnotations key asked.registry.view).withPosition line column ticket
    let isSameCopy := asked.registry.documents.isOpen key = true ∧
      ∀ move ∈ waiting, ¬ move.Replaces key
    (id, request) ∈ started.roster → (id, request) ∉ queued.roster →
    (∀ c, .act (.command c) ∉ during) →
    Event.ended request elapsed (.ok output) ∈ last.2 →
      (isSameCopy → ∃ d, last.1.registry.documents.find? key = some d ∧ d.intact = true ∧
        d.needsReparse = false ∧ d.lastParse.isSome = true) ∧
      (¬ isSameCopy → now.registry.clock.taken < UInt64.size →
        last.1.registry = now.registry) := by
  intro asked queued started now last request isSameCopy hmem hnew hcommands hended
  have hpasses := (step_any queued backend pass).passes_of_mem_roster hmem hnew
  have hstep := step_any now backend (.turn (.job id) turn)
  have hlearned : last.1.registry = (learn now.registry request (.ok output)).1 :=
    hstep.registry_of_ended hended
  constructor
  · rintro ⟨hopen, hkept⟩
    obtain ⟨⟨d, hd, -, hrevision⟩, -⟩ := (Request.annotations_fresh_iff key _ _ rfl).1
      (hpasses.staleness_of_mem_roster hmem hnew)
    have hstarted : started.registry.documents.find? key = some d := by
      rw [hpasses.registry]
      exact hd
    have hqueued : queued.Exclusive True :=
      ((exclusive_of_isNew (isNew_of_create? hm)).run backend before).run backend waiting
    have hexclusive : started.Exclusive True := hpasses.exclusive hqueued
    have hnow : now.registry.documents.find? key = some d :=
      find?_run_of_mem_roster (e := (id, request)) (P := fun document => document = some d)
        hexclusive (hexclusive.lt_spawned _ hmem) (hstep.mem_roster_of_ended hended)
        (fun c hc => absurd hc (hcommands c)) hstarted
    have hstamp : d.openedAt = request.openedAt := by
      have hsame := copyStamp_run_of_kept asked backend hkept
      rw [copyStamp, show queued.registry.documents.find? key = some d from hd] at hsame
      exact congrArg (Option.getD · .origin) hsame
    refine ⟨d.parsed request.revision now.registry.clock.next, ?_, rfl, ?_, rfl⟩
    · rw [hlearned]
      have hkind : request.kind.producesParse = true := rfl
      exact find?_learn_of_ok output hkind hnow hstamp
    · rw [Document.parsed, bne_eq_false_iff_eq]
      exact hrevision
  · intro hother hclock
    have hruns : now = (asked.run backend (waiting ++ pass :: during)).1 := by
      rw [run_append, run_cons]
    rw [hlearned]
    refine fst_learn_of_gone _ fun hsince => hother ?_
    rw [hruns] at hclock hsince
    obtain ⟨hopen, hkept⟩ := (isOpenSince_run_iff hm backend before _ key hclock).1 hsince
    exact ⟨hopen, fun move hmove => hkept move (List.mem_append_left _ hmove)⟩

/-- The premises hold where a request is made for an open document and its job is successful,
and then the document is clean. -/
theorem annotations_clean_own_copy_open_document :
    let key : DocumentKey := ⟨⟨""⟩, ""⟩
    let turn : Turn := ⟨.zero, false⟩
    let backend : Backend := fun _ => some (.returned (.ok (.annotations 0)))
    let setup : List Command := [.putProject "" [], .openDocument key]
    let request := Request.make .updateAnnotations key (new.run setup).view
    ∃ m, create? (.default 1) (new.run setup) = some m ∧
      let queued := (m.move backend (.act (.enqueue .updateAnnotations key))).1
      let started := (queued.move backend (.act (.process turn))).1
      let last := started.move backend (.turn (.job 0) turn)
      (0, request) ∈ started.roster ∧ (0, request) ∉ queued.roster ∧
        Event.ended request .zero (.ok (.annotations 0)) ∈ last.2 ∧
        ∃ d, last.1.registry.documents.find? key = some d ∧ d.intact = true ∧
          d.needsReparse = false ∧ d.lastParse.isSome = true := by
  intro key turn backend setup request
  have hm : create? (.default 1) (new.run setup) = some _ := rfl
  refine ⟨_, hm, ?_⟩
  intro queued started last
  have hmem : (0, request) ∈ started.roster := by decide +kernel
  have hnew : (0, request) ∉ queued.roster := by decide +kernel
  have hended : Event.ended request .zero (.ok (.annotations 0)) ∈ last.2 := by decide +kernel
  refine ⟨hmem, hnew, hended, ?_⟩
  refine (annotations_clean_own_copy hm backend [] [.act (.enqueue .updateAnnotations key)] []
    (.act (.process turn)) 0 key 0 0 0 turn hmem hnew (by simp) hended).1 ⟨?_, ?_⟩
  · decide +kernel
  · simp [Move.Replaces]

/-- A request is made before its document is opened.  It passes for one of the copy that is
opened then, its job is successful, and the document is left as if it had not run. -/
theorem annotations_of_unopened_document_lost :
    let key : DocumentKey := ⟨⟨""⟩, ""⟩
    let turn : Turn := ⟨.zero, false⟩
    let backend : Backend := fun _ => some (.returned (.ok (.annotations 0)))
    let setup : List Command := [.putProject "" []]
    let request := Request.make .updateAnnotations key (new.run setup).view
    let waiting : List Move :=
      [.act (.enqueue .updateAnnotations key), .act (.command (.openDocument key))]
    ∃ m, create? (.default 1) (new.run setup) = some m ∧
      let queued := (m.run backend waiting).1
      let started := (queued.move backend (.act (.process turn))).1
      let last := started.move backend (.turn (.job 0) turn)
      (0, request) ∈ started.roster ∧ (0, request) ∉ queued.roster ∧
        Event.ended request .zero (.ok (.annotations 0)) ∈ last.2 ∧
        (last.1.registry.documents.find? key).map (fun d => (d.needsReparse, d.lastParse)) =
          some (true, none) := by
  intro key turn backend setup request waiting
  have hm : create? (.default 1) (new.run setup) = some _ := rfl
  exact ⟨_, hm, by decide +kernel, by decide +kernel, by decide +kernel, by decide +kernel⟩

end Runner

end AnalysisJobs
