import AnalysisJobs.Proofs.Registry.Copies
import AnalysisJobs.Proofs.Request.Freshness
/-!
# Requests for an earlier copy of a document

A request for annotations carries the revision of its copy, and revisions start over
with every copy.  After its document was opened again the request is therefore told from
one for the present copy by the number of edits alone: it is stale unless both copies were
edited equally often, in words of 32 bits.  The stamp that tells the copies apart is in
the snapshot too, but the check does not look at it.
-/

namespace AnalysisJobs

open Registry

theorem uint32_ofNat_eq_iff (a b : Nat) :
    UInt32.ofNat a = UInt32.ofNat b ↔ a % UInt32.size = b % UInt32.size := by
  rw [← UInt32.toNat_inj, UInt32.toNat_ofNat', UInt32.toNat_ofNat']

theorem Request.revision_make {before : List Command} {key : DocumentKey}
    (hopen : (new.run before).documents.isOpen key = true) (kind : Kind) :
    (make kind key (new.run before).view).revision =
      UInt32.ofNat (editsSinceOpen key before) := by
  obtain ⟨d, hd⟩ := Option.isSome_iff_exists.1 hopen
  have hnew : ∀ d ∈ new.documents.find? key, d.revision = UInt32.ofNat 0 := nofun
  have hrevision := revision_run hnew before d hd
  simp only [make, document_view, hd, Option.map_some, Option.getD_some, hrevision,
    editsSinceOpen]

/-- A request for annotations of a document that was opened again since is stale, except
where the present copy is intact and was edited as often as the copy of the request, and
buffers and project are unchanged. -/
theorem earlier_copy_stale_iff (before after : List Command) (key : DocumentKey) {kind : Kind}
    (hkind : kind = .updateAnnotations ∨ kind = .requestAnnotations)
    (hopen : (new.run before).documents.isOpen key = true)
    (hreopened : ∃ c ∈ after, copyEffect key c = .renewed) :
    let start := new.run before
    let now := start.run after
    (Request.make kind key start.view).isStale now.view = true ↔
      ¬ ((∃ d, now.documents.find? key = some d ∧ d.intact = true) ∧
        editsSinceOpen key after % UInt32.size = editsSinceOpen key before % UInt32.size ∧
        now.buffers.changedAt.isAfter start.buffers.changedAt = false ∧
        ∃ live, projectStamp key.project now = some live ∧
          live.isAfter ((projectStamp key.project start).getD .origin) = false) := by
  intro start now
  have hfull : kind.requirements = .full := by
    rcases hkind with rfl | rfl <;> rfl
  have hnow (d : Document) (hd : now.documents.find? key = some d) :
      d.revision = UInt32.ofNat (editsSinceOpen key after) := by
    have hnew : ∀ d ∈ new.documents.find? key, d.revision = UInt32.ofNat 0 := nofun
    have hrevision := revision_run hnew (before ++ after) d
    rw [Registry.run_append, List.foldl_append, foldl_countEdits_of_renewed hreopened] at hrevision
    exact hrevision hd
  have hsame (d : Document) (hd : now.documents.find? key = some d) :
      d.revision = (Request.make kind key start.view).revision ↔
        editsSinceOpen key after % UInt32.size = editsSinceOpen key before % UInt32.size := by
    rw [hnow d hd, Request.revision_make hopen, uint32_ofNat_eq_iff]
  have hfresh := Request.annotations_fresh_iff key start.view now.view hfull
  rw [Request.isStale, Option.isSome_iff_ne_none, ne_eq, hfresh, not_iff_not]
  constructor
  · rintro ⟨⟨d, hd, hintact, hrevision⟩, hrest⟩
    exact ⟨⟨d, hd, hintact⟩, (hsame d hd).1 hrevision, hrest⟩
  · rintro ⟨⟨d, hd, hintact⟩, hedits, hrest⟩
    exact ⟨⟨d, hd, hintact, (hsame d hd).2 hedits⟩, hrest⟩

/-- The premises hold where a document is edited, closed and opened again, and a request
from before is stale. -/
theorem earlier_copy_stale_iff_edited_once :
    let key : DocumentKey := ⟨⟨""⟩, ""⟩
    let before : List Command := [.putProject "" [], .openDocument key, .onDocuments (.edit key)]
    let after : List Command := [.onDocuments (.close key), .openDocument key]
    (new.run before).documents.isOpen key = true ∧
      (∃ c ∈ after, copyEffect key c = .renewed) ∧
      (Request.make .updateAnnotations key (new.run before).view).isStale
        ((new.run before).run after).view = true := by
  intro key before after
  have hopen : (new.run before).documents.isOpen key = true := by decide
  have hreopened : ∃ c ∈ after, copyEffect key c = .renewed :=
    ⟨.openDocument key, by simp [after], rfl⟩
  refine ⟨hopen, hreopened, ?_⟩
  refine (earlier_copy_stale_iff before after key (.inl rfl) hopen hreopened).2 ?_
  rintro ⟨-, hedits, -⟩
  exact absurd hedits (by decide)

/-- A request for a copy that was never edited passes for one of the copy that is opened
after it. -/
theorem unedited_earlier_copy_passes :
    let key : DocumentKey := ⟨⟨""⟩, ""⟩
    let before : List Command := [.putProject "" [], .openDocument key]
    let after : List Command := [.onDocuments (.close key), .openDocument key]
    (new.run before).documents.isOpen key = true ∧
      (∃ c ∈ after, copyEffect key c = .renewed) ∧
      (Request.make .updateAnnotations key (new.run before).view).staleness
        ((new.run before).run after).view = none := by
  intro key before after
  exact ⟨by decide, ⟨.openDocument key, by simp [after], rfl⟩, by decide⟩

end AnalysisJobs
