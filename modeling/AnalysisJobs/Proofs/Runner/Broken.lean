import AnalysisJobs.Proofs.Request.Freshness
import AnalysisJobs.Proofs.Runner.Occupied
import AnalysisJobs.Proofs.Runner.Wakeups
/-!
# Documents whose parse failed

Every kind of request requires an open and intact document.  A document whose parse failed
therefore gets no job, and it is only jobs, besides the caller, that could take the mark of
the failure from it.  `Broken` is the invariant that closes this circle; it holds until the
caller opens the document again or clears the mark.
-/

namespace AnalysisJobs

namespace Documents.Op

/-- Whether a change gives the document a copy that is intact. -/
def Mends (key : DocumentKey) : Op → Prop
  | openDocument k | setFailed k false | markParsed k _ => k.Same key
  | _ => False

theorem intact_onCopy {key : DocumentKey} {document : Option Document} {op : Op}
    (h : ∀ d ∈ document, d.intact = false) (hop : ¬ op.Mends key) (stamp : Stamp) :
    ∀ d ∈ op.onCopy key stamp document, d.intact = false := by
  cases op with
  | openDocument k | markParsed k revision =>
    have hk : ¬ k.Same key := hop
    rw [onCopy, if_neg hk]
    exact h
  | edit k =>
    refine Registry.forall_mem_ite_map h ?_
    exact fun _ hd => hd
  | close k => exact Registry.forall_mem_ite_none h
  | setFailed k failed =>
    cases failed with
    | false =>
      have hk : ¬ k.Same key := hop
      rw [onCopy, if_neg hk]
      exact h
    | true =>
      refine Registry.forall_mem_ite_map h ?_
      exact fun _ _ => rfl
  | showPaths paths | focus path => exact Registry.forall_mem_map h fun _ hd => hd
  | flagProject project =>
    refine Registry.forall_mem_map h fun d hd => ?_
    split <;> exact hd

end Documents.Op

open Registry

theorem Request.staleness_ne_none {r : Request} {view : View}
    (hkind : r.requirements = r.kind.requirements)
    (h : ∀ d ∈ view.document r.key, d.intact = false) : r.staleness view ≠ none := by
  have hall (q : Requirement) (hq : Kind.completeCode.requirements.has q = true) :
      r.requirements.has q = true := by
    rw [hkind]
    exact Requirements.covers_iff.1 r.kind.completeCode_covered q hq
  intro hfresh
  obtain ⟨⟨d, hd, hintact, -⟩, -⟩ :=
    (staleness_eq_none_iff (hall .documentOpen rfl) (hall .projectExists rfl) view).1 hfresh
  exact absurd (hintact (hall .documentIntact rfl)) (by simp [h d hd])

namespace Runner

variable {crashes : Prop} {m n : Runner} {backend : Backend} {key : DocumentKey}

/-- The document is closed or its last parse failed, it has no job, and the requests that
wait for it require what their kinds require. -/
structure Broken (key : DocumentKey) (m : Runner) : Prop where
  intact : ∀ d ∈ m.registry.documents.find? key, d.intact = false
  roster : ∀ e ∈ m.roster, ¬ e.2.key.Same key
  pending : ∀ r ∈ m.queue.pending, r.key.Same key → r.requirements = r.kind.requirements

theorem Broken.congr (h : m.Broken key) (hregistry : n.registry = m.registry)
    (hroster : n.roster ⊆ m.roster) (hpending : n.queue.pending ⊆ m.queue.pending) :
    n.Broken key where
  intact := hregistry ▸ h.intact
  roster e he := h.roster e (hroster he)
  pending r hr := h.pending r (hpending hr)

theorem Broken.of_sameWork (h : m.Broken key) (hsame : SameWork crashes m n) : n.Broken key :=
  h.congr hsame.registry (hsame.roster ▸ List.Subset.refl _) (hsame.queue ▸ List.Subset.refl _)

/-! ## Passes -/

theorem Broken.not_same_of_mem_pass (h : m.Broken key) {r : Request}
    (hr : r ∈ m.nextPass.batch ++ m.nextPass.left) : ¬ r.key.Same key := by
  intro hkey
  obtain ⟨hpending, hfresh⟩ := Queue.mem_fresh.1 (Queue.mem_fresh_of_mem_pass hr)
  refine Request.staleness_ne_none (h.pending r hpending hkey) (fun d hd => ?_) hfresh
  rw [document_view, Documents.find?_congr _ hkey] at hd
  exact h.intact d hd

theorem Broken.passOver (h : m.Broken key) (turn : Turn) :
    (m.passOver turn).1.Broken key where
  intact := by
    rw [(passes_passOver m turn : Passes True _ _ _).registry]
    exact h.intact
  roster e he := by
    rcases mem_roster_passOver he with hold | ⟨-, -, hbatch⟩
    · exact h.roster e hold
    · exact h.not_same_of_mem_pass (List.mem_append_left _ hbatch)
  pending r hr := h.pending r (pending_passOver_subset _ turn hr)

theorem Passes.broken {events : List Event} (hpasses : Passes crashes m events n)
    (h : m.Broken key) : n.Broken key := by
  induction hpasses with
  | none hsame => exact h.of_sameWork hsame
  | pass turn hsame _ _ ih => exact ih ((h.of_sameWork hsame).passOver turn)

theorem Passes.not_started {events : List Event} (hpasses : Passes crashes m events n)
    (h : m.Broken key) : ∀ r ∈ events.filterMap Event.started?, ¬ r.key.Same key := by
  induction hpasses with
  | none _ hquiet =>
    rw [filterMap_quiet seesFates_started hquiet]
    exact fun r hr => absurd hr List.not_mem_nil
  | pass turn hsame hquiet _ ih =>
    have hbroken := h.of_sameWork hsame
    rw [List.filterMap_append, List.filterMap_append, filterMap_quiet seesFates_started hquiet,
      List.nil_append, started_passOver]
    refine List.forall_mem_append.2 ⟨fun r hr => ?_, ih (hbroken.passOver turn)⟩
    exact hbroken.not_same_of_mem_pass (List.mem_append_left _ hr)

/-! ## What is left after a pass -/

theorem Broken.not_same_passOver (h : m.Broken key) (turn : Turn) :
    ∀ r ∈ (m.passOver turn).1.queue.pending, ¬ r.key.Same key := by
  obtain ⟨running, ready, heq, -⟩ := passOver_eq m turn
  rw [heq]
  exact fun r hr => h.not_same_of_mem_pass (List.mem_append_right _ hr)

theorem Broken.not_same_of_endsInPass (h : m.Broken key) (hends : EndsInPass crashes m n) :
    ∀ r ∈ n.queue.pending, ¬ r.key.Same key := by
  obtain ⟨events, last, turn, hpasses, hsame⟩ := hends
  rw [hsame.queue]
  exact (hpasses.broken h).not_same_passOver turn

theorem Broken.passes_of_isPass (h : m.Broken key) {move : Move}
    (hpass : ∃ e ∈ (m.move backend move).2, e.IsPass) :
    Passes True m (m.move backend move).2 (m.move backend move).1 ∧
      ∀ r ∈ (m.move backend move).1.queue.pending, ¬ r.key.Same key :=
  ⟨Runner.passes_of_isPass hpass,
    h.not_same_of_endsInPass (endsInPass_move hpass : EndsInPass True _ _)⟩

theorem Broken.dropped_of_isPass (h : m.Broken key) {move : Move}
    (hpass : ∃ e ∈ (m.move backend move).2, e.IsPass) {r : Request}
    (hr : r ∈ m.queue.pending) (hkey : r.key.Same key) :
    ∃ reason, .dropped r reason ∈ (m.move backend move).2 := by
  obtain ⟨hpasses, hleft⟩ := h.passes_of_isPass hpass
  have hsplit := hpasses.flow.queued.subset (List.mem_append_left _ hr)
  rcases List.mem_append.1 hsplit with hdropped | hkept
  · obtain ⟨⟨s, reason⟩, hmem, rfl⟩ := List.mem_map.1 hdropped
    obtain ⟨e, he, hfate⟩ := List.mem_filterMap.1 hmem
    cases e <;> simp [Event.dropped?] at hfate
    obtain ⟨rfl, rfl⟩ := hfate
    exact ⟨_, he⟩
  · rcases List.mem_append.1 hkept with hstarted | hpending
    · exact absurd hkey (hpasses.not_started h r hstarted)
    · exact absurd hkey (hleft r hpending)

/-! ## Steps -/

/-- The caller opens the document, perhaps again, or clears the mark of its failed parse. -/
def Move.Mends (key : DocumentKey) : Move → Prop
  | .act (.command c) => ∃ op ∈ c.changes, op.Mends key
  | _ => False

theorem Broken.intact_step (h : m.Broken key) {move : Move} {events : List Event}
    (hstep : Step crashes m move events n) (hmove : ¬ move.Mends key) :
    ∀ d ∈ n.registry.documents.find? key, d.intact = false := by
  rcases hstep.registry_cases with hrun | ⟨-, e, he, -, result, hlearned⟩
  · rw [hrun]
    cases move with
    | act a =>
      cases a with
      | command c =>
        refine find?_after_induction (P := fun document => ∀ d ∈ document, d.intact = false)
          h.intact fun op hop document hdocument => ?_
        exact Documents.Op.intact_onCopy hdocument (fun hmends => hmove ⟨op, hop, hmends⟩) _
      | _ => exact h.intact
    | turn task turn => exact h.intact
  · -- the job that ends is for another document
    rw [hlearned, (changesOnly_learn m.registry e.2 result).find? key (h.roster e he)]
    exact h.intact

theorem Step.pending_subset {move : Move} {events : List Event}
    (hstep : Step crashes m move events n) :
    n.queue.pending ⊆ m.queue.pending ++ m.asked move := by
  rcases hstep.flow_or_job with hflow | ⟨id, turn, rfl, hjob⟩
  · exact hflow.pending_subset
  · have hqueue : n.queue = m.queue := by
      cases hjob with
      | goesOn hsame | dies _ hsame => exact hsame.queue
      | @ends l job _ turn' result hsame =>
        obtain ⟨ready, wakeup, dispatcher, heq⟩ := conclude_eq l job turn' result
        rw [heq]
        exact hsame.queue
    rw [hqueue]
    exact List.subset_append_left _ _

theorem Broken.step (h : m.Broken key) {move : Move} {events : List Event}
    (hstep : Step crashes m move events n) (hmove : ¬ move.Mends key)
    (hasked : ∀ r ∈ m.asked move, r.key.Same key → r.requirements = r.kind.requirements) :
    n.Broken key where
  intact := h.intact_step hstep hmove
  roster := by
    rcases hstep.passes_or_roster_subset with hpasses | ⟨-, hsubset⟩
    · exact (hpasses.broken h).roster
    · exact fun e he => h.roster e (hsubset he)
  pending r hr := by
    rcases List.mem_append.1 (hstep.pending_subset hr) with hold | hnew
    · exact h.pending r hold
    · exact hasked r hnew

theorem Broken.not_started (h : m.Broken key) {move : Move} {events : List Event}
    (hstep : Step crashes m move events n) :
    ∀ r ∈ events.filterMap Event.started?, ¬ r.key.Same key := by
  rcases hstep.passes_or_passive with hpasses | hpassive
  · exact hpasses.not_started h
  · rw [List.filterMap_eq_nil_iff.2 fun e he => (hpassive e he).2]
    exact fun r hr => absurd hr List.not_mem_nil

/-! ## Runs -/

theorem Broken.run {moves : List Move} (h : m.Broken key)
    (hmoves : ∀ move ∈ moves, ¬ move.Mends key)
    (hasked : ∀ r ∈ m.requested backend moves, r.key.Same key →
      r.requirements = r.kind.requirements) :
    (m.run backend moves).1.Broken key ∧
      ∀ r ∈ (m.run backend moves).2.filterMap Event.started?, ¬ r.key.Same key := by
  induction moves generalizing m with
  | nil => exact ⟨h, by simp⟩
  | cons move rest ih =>
    obtain ⟨hmove, hrest⟩ := List.forall_mem_cons.1 hmoves
    obtain ⟨hfirst, hlater⟩ := List.forall_mem_append.1 hasked
    have hstep := step_any m backend move
    obtain ⟨hbroken, hstarted⟩ := ih (h.step hstep hmove hfirst) hrest hlater
    rw [run_cons, List.filterMap_append]
    exact ⟨hbroken, List.forall_mem_append.2 ⟨h.not_started hstep, hstarted⟩⟩

/-- From any state in which the parse of an open document has failed and the document has no
job, the document stays as it is and idle until it is opened again or the caller clears the
mark: no request for it is started, every pass drops all that wait for it, and as long as it
is open it is not intact. -/
theorem idle_until_mended (m : Runner) (backend : Backend) (moves : List Move)
    (key : DocumentKey) {d : Document} (hd : m.registry.documents.find? key = some d)
    (hfailed : d.intact = false) (hjobs : ∀ j ∈ m.jobs, ¬ j.request.key.Same key)
    (hkind : ∀ r ∈ m.queue.pending ++ m.requested backend moves, r.key.Same key →
      r.requirements = r.kind.requirements)
    (hmoves : ∀ move ∈ moves, ¬ move.Mends key) :
    let last := (m.run backend moves).1
    (∀ d, last.registry.documents.find? key = some d → d.intact = false) ∧
      (∀ j ∈ last.jobs, ¬ j.request.key.Same key) ∧
      (∀ r, .started r ∈ (m.run backend moves).2 → ¬ r.key.Same key) ∧
      ∀ move, (∃ e ∈ (last.move backend move).2, e.IsPass) →
        (∀ r ∈ last.queue.pending, r.key.Same key →
          ∃ reason, .dropped r reason ∈ (last.move backend move).2) ∧
        ∀ r ∈ (last.move backend move).1.queue.pending, ¬ r.key.Same key := by
  intro last
  obtain ⟨hpending, hasked⟩ := List.forall_mem_append.1 hkind
  have hstart : m.Broken key := by
    refine ⟨fun d' hd' => ?_, fun e he => ?_, hpending⟩
    · rw [hd, Option.mem_some_iff] at hd'
      exact hd' ▸ hfailed
    · obtain ⟨j, hj, rfl⟩ := List.mem_map.1 he
      exact hjobs j hj
  obtain ⟨hlast, hstarted⟩ := hstart.run hmoves hasked
  refine ⟨hlast.intact, fun j hj => ?_, fun r hr => ?_, fun move hpass => ⟨?_, ?_⟩⟩
  · exact hlast.roster (j.id, j.request) (List.mem_map_of_mem hj)
  · exact hstarted r (List.mem_filterMap.2 ⟨_, hr, rfl⟩)
  · exact fun r hr hkey => hlast.dropped_of_isPass hpass hr hkey
  · exact (hlast.passes_of_isPass hpass).2

/-- The premises hold where the parse of a document failed and then the document is edited,
its project is configured and completions are asked for: a pass drops this request. -/
theorem idle_until_mended_edited :
    let key : DocumentKey := ⟨⟨""⟩, ""⟩
    let turn : Turn := ⟨.zero, false⟩
    let backend : Backend := fun _ => some (.returned (.failed (.parseFailed ⟨""⟩ "")))
    let setup : List Command := [.putProject "" [], .openDocument key]
    let before : List Move :=
      [.act (.enqueue .updateAnnotations key), .act (.process turn), .turn (.job 0) turn]
    let after : List Move :=
      [.act (.command (.onDocuments (.edit key))),
        .act (.command (.configureProject "" [])), .act (.enqueue .completeCode key)]
    ∃ m, create? (.default 1) (new.run setup) = some m ∧
      let broken := (m.run backend before).1
      let last := (broken.run backend after).1
      (∃ d, broken.registry.documents.find? key = some d ∧ d.intact = false) ∧
        (∃ r ∈ last.queue.pending, r.key.Same key ∧
          ∃ reason, .dropped r reason ∈ (last.move backend (.act (.process turn))).2) ∧
        ∀ r ∈ (last.move backend (.act (.process turn))).1.queue.pending, ¬ r.key.Same key := by
  intro key turn backend setup before after
  have hm : create? (.default 1) (new.run setup) = some _ := rfl
  refine ⟨_, hm, ?_⟩
  intro broken last
  have hfailed : (broken.registry.documents.find? key).map Document.intact = some false := by
    decide +kernel
  have hjobs : ∀ j ∈ broken.jobs, ¬ j.request.key.Same key := by decide +kernel
  have hkind : ∀ r ∈ broken.queue.pending ++ broken.requested backend after,
      r.key.Same key → r.requirements = r.kind.requirements := by decide +kernel
  have hmoves : ∀ move ∈ after, ¬ move.Mends key := by
    simp [after, Move.Mends, Command.changes, Documents.Op.Mends]
  have hwaits : ∃ r ∈ last.queue.pending, r.key.Same key := by decide +kernel
  have hpass : ∃ e ∈ (last.move backend (.act (.process turn))).2, e.IsPass :=
    exists_isPass_dispatch (by decide +kernel) turn
  obtain ⟨d, hd, hintact⟩ := Option.map_eq_some_iff.1 hfailed
  obtain ⟨r, hr, hkey⟩ := hwaits
  obtain ⟨-, -, -, hpasses⟩ :=
    idle_until_mended broken backend after key hd hintact hjobs hkind hmoves
  obtain ⟨hdropped, hleft⟩ := hpasses (.act (.process turn)) hpass
  exact ⟨⟨d, hd, hintact⟩, ⟨r, hr, hkey, hdropped r hr hkey⟩, hleft⟩

end Runner

end AnalysisJobs
