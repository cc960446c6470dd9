import AnalysisJobs.Proofs.Runner.Occupied
/-!
# Projects that change while a job runs

A project that is configured flags its documents for a reparse.  While a document has a
job, no other job can take the flag from it, and its own job decides at its end by the
revision alone whether the flag goes.  So the change of the project survives exactly the
ends that record no parse of the present revision, and is lost at the others.
-/

namespace AnalysisJobs.Runner

open Registry

variable {m : Runner}

/-- The end of a successful parse takes the flag exactly if the copy that the job ran for
is still open and was not edited. -/
theorem needsReparse_learn_iff {reg : Registry} {request : Request} {result : Result}
    (hkind : request.kind.producesParse = true)
    (h : ∀ d ∈ reg.documents.find? request.key, d.needsReparse = true) {d : Document}
    (hd : d ∈ (learn reg request result).1.documents.find? request.key) :
    d.needsReparse = true ↔
      ¬ ((∃ output, result = .ok output) ∧
        reg.documents.isOpenSince request.key request.openedAt = true ∧
        d.revision = request.revision) := by
  rw [needsReparse_learn h hd, hkind]
  simp only [true_and]

/-- A project was configured while a job for one of its documents went on.  After the end
of the job the document still needs a reparse, except where the job was successful, its
copy is still open and the document was not edited since its request was made. -/
theorem needsReparse_after_reconfiguration_iff {settings : Settings} {setup : List Command}
    (hm : create? settings (new.run setup) = some m) (backend : Backend)
    (before after : List Move) (job : Job) (arguments : List String) (turn : Turn)
    {elapsed : Duration} {result : Result}
    (hkind : job.request.kind = .updateAnnotations ∨ job.request.kind = .buildPreamble) :
    let key := job.request.key
    let asked := (m.run backend before).1
    let changed := (asked.move backend (.act (.command (.configureProject key.project arguments)))).1
    let now := (changed.run backend after).1
    let last := now.move backend (.turn (.job job.id) turn)
    job ∈ asked.jobs → (∀ move ∈ after, ¬ move.RecordsParse key) →
    Event.ended job.request elapsed result ∈ last.2 →
      ∀ d, last.1.registry.documents.find? key = some d →
        (d.needsReparse = true ↔
          ¬ ((∃ output, result = .ok output) ∧
            now.registry.documents.isOpenSince key job.request.openedAt = true ∧
            d.revision = job.request.revision)) := by
  intro key asked changed now last hjob hparse hended d hd
  have hasked : asked.Exclusive True := exclusive_run hm fun hnot => absurd trivial hnot
  have hchanged : changed.Exclusive True :=
    (step_any asked backend (.act (.command (.configureProject key.project arguments)))).exclusive
      hasked
  have hmem : (job.id, job.request) ∈ changed.roster := List.mem_map_of_mem hjob
  have hstep := step_any now backend (.turn (.job job.id) turn)
  have hnow : (job.id, job.request) ∈ now.roster := hstep.mem_roster_of_ended hended
  have hflag : ∀ d ∈ changed.registry.documents.find? key, d.needsReparse = true := by
    obtain ⟨commands, hregistry, -⟩ := registry_run m backend before
    rw [registry_of_create? hm, ← Registry.run_append] at hregistry
    have hnew : ∀ d ∈ new.documents.find? key, d.key.Same key := nofun
    have hown := ownKey_run hnew (setup ++ commands)
    rw [← hregistry] at hown
    exact needsReparse_configureProject hown arguments
  have hkept := needsReparse_run hchanged (hchanged.lt_spawned _ hmem) hnow hparse hflag
  have hlearned : last.1.registry = (learn now.registry job.request result).1 :=
    hstep.registry_of_ended hended
  have hproduces : job.request.kind.producesParse = true := by
    rcases hkind with h | h <;> rw [h] <;> rfl
  rw [hlearned] at hd
  exact needsReparse_learn_iff hproduces hkept hd

/-- The premises hold where the document is edited too while its annotations are computed,
and then it still needs a reparse. -/
theorem needsReparse_after_reconfiguration_iff_edited :
    let key : DocumentKey := ⟨⟨""⟩, ""⟩
    let turn : Turn := ⟨.zero, false⟩
    let backend : Backend := fun _ => none
    let setup : List Command := [.putProject "" [], .openDocument key]
    let request := Request.make .updateAnnotations key (new.run setup).view
    let before : List Move :=
      [.act (.enqueue .updateAnnotations key), .act (.process turn), .turn (.job 0) turn]
    let after : List Move :=
      [.act (.command (.onDocuments (.edit key))),
        .act (.answer key fun _ => .returned (.ok (.annotations 0)))]
    ∃ m, create? (.default 1) (new.run setup) = some m ∧
      let asked := (m.run backend before).1
      let changed := (asked.move backend (.act (.command (.configureProject "" [])))).1
      let last := (changed.run backend after).1.move backend (.turn (.job 0) turn)
      ⟨0, request, .executing⟩ ∈ asked.jobs ∧
        Event.ended request .zero (.ok (.annotations 0)) ∈ last.2 ∧
        ∃ d, last.1.registry.documents.find? key = some d ∧ d.needsReparse = true := by
  intro key turn backend setup request before after
  have hm : create? (.default 1) (new.run setup) = some _ := rfl
  refine ⟨_, hm, ?_⟩
  intro asked changed last
  have hjob : ⟨0, request, .executing⟩ ∈ asked.jobs := by decide +kernel
  have hended : Event.ended request .zero (.ok (.annotations 0)) ∈ last.2 := by decide +kernel
  have hedited : (last.1.registry.documents.find? key).map Document.revision = some 1 := by
    decide +kernel
  obtain ⟨d, hd, hrevision⟩ := Option.map_eq_some_iff.1 hedited
  refine ⟨hjob, hended, d, hd, ?_⟩
  have hiff := needsReparse_after_reconfiguration_iff hm backend before after
    ⟨0, request, .executing⟩ [] turn (.inl rfl) hjob
    (by simp [after, Move.RecordsParse, Command.RecordsParse]) hended d hd
  refine hiff.2 fun hlost => ?_
  rw [hrevision] at hlost
  exact absurd hlost.2.2 (by decide +kernel)

/-- A project is configured again while the annotations of its document are computed, and
the success of the job takes the flag from the document. -/
theorem reconfiguration_lost_to_running_job :
    let key : DocumentKey := ⟨⟨""⟩, ""⟩
    let turn : Turn := ⟨.zero, false⟩
    let backend : Backend := fun _ => none
    let setup : List Command := [.putProject "" [], .openDocument key]
    let request := Request.make .updateAnnotations key (new.run setup).view
    let before : List Move :=
      [.act (.enqueue .updateAnnotations key), .act (.process turn), .turn (.job 0) turn]
    let after : List Move := [.act (.answer key fun _ => .returned (.ok (.annotations 0)))]
    ∃ m, create? (.default 1) (new.run setup) = some m ∧
      let asked := (m.run backend before).1
      let changed := (asked.move backend (.act (.command (.configureProject "" [])))).1
      let last := (changed.run backend after).1.move backend (.turn (.job 0) turn)
      ⟨0, request, .executing⟩ ∈ asked.jobs ∧
        Event.ended request .zero (.ok (.annotations 0)) ∈ last.2 ∧
        (last.1.registry.documents.find? key).map Document.needsReparse = some false := by
  intro key turn backend setup request before after
  have hm : create? (.default 1) (new.run setup) = some _ := rfl
  exact ⟨_, hm, by decide +kernel, by decide +kernel, by decide +kernel⟩

end AnalysisJobs.Runner
