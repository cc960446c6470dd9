import AnalysisJobs.Proofs.Registry.Copies
/-!
# Documents on their own

A document's copy depends on the changes that concern its key and on nothing else.  Leaving
out the other changes moves the stamps of those that stay, so two copies are compared
`undated`: which stamps they carry is the business of the clock.
-/

namespace AnalysisJobs

/-- A copy without the stamps it carries; whether it was ever parsed remains. -/
def Document.undated (d : Document) : Document :=
  { d with openedAt := .origin, lastParse := d.lastParse.map fun _ => .origin }

namespace Documents

/-- Whether a change is about a document: its own changes, what the editor shows, and what
flags its project. -/
def Op.concerns (key : DocumentKey) : Op → Bool
  | openDocument k | edit k | close k | setFailed k _ | markParsed k _ => k.Same key
  | showPaths _ | focus _ => true
  | flagProject project => project = key.project

variable {key : DocumentKey} {document : Option Document}

theorem undated_ite_map {f g : Document → Document} (hfg : ∀ d, (f d).undated = g d.undated)
    (c : Prop) [Decidable c] :
    (if c then document.map f else document).map Document.undated =
      if c then (document.map Document.undated).map g else document.map Document.undated := by
  cases document with
  | none => split <;> rfl
  | some d =>
    split
    · exact congrArg some (hfg d)
    · rfl

theorem undated_onCopy (op : Op) (stamp : Stamp) :
    (op.onCopy key stamp document).map Document.undated =
      op.onCopy key .origin (document.map Document.undated) := by
  cases op with
  | openDocument k =>
    simp only [Op.onCopy]
    split
    · cases document <;> rfl
    · rfl
  | close k =>
    simp only [Op.onCopy]
    split <;> rfl
  | edit k | setFailed k failed | markParsed k revision =>
    apply undated_ite_map
    exact fun _ => rfl
  | showPaths paths | focus path => cases document <;> rfl
  | flagProject project =>
    cases document with
    | none => rfl
    | some d =>
      refine congrArg some ?_
      by_cases hproject : d.key.project = project <;>
        simp [hproject, Document.undated]

theorem undated_run (ds : Documents) (changes : List (Stamp × Op)) :
    ((ds.run changes).find? key).map Document.undated =
      (changes.map Prod.snd).foldl (fun document op => op.onCopy key .origin document)
        ((ds.find? key).map Document.undated) := by
  induction changes generalizing ds with
  | nil => rfl
  | cons change rest ih =>
    rw [run_cons, ih, find?_apply, undated_onCopy, List.map_cons, List.foldl_cons]

theorem onCopy_of_not_concerns (hown : ∀ d ∈ document, d.key.Same key) {op : Op}
    (h : op.concerns key = false) (stamp : Stamp) : op.onCopy key stamp document = document := by
  cases op with
  | openDocument k | edit k | close k | setFailed k failed | markParsed k revision =>
    exact if_neg (of_decide_eq_false h)
  | showPaths paths | focus path => cases h
  | flagProject project =>
    cases document with
    | none => rfl
    | some d =>
      -- the copy that is found by the key carries the key's project
      have hproject : d.key.project ≠ project := by
        rw [(DocumentKey.same_iff.1 (hown d rfl)).2]
        exact Ne.symm (of_decide_eq_false h)
      exact congrArg some (if_neg hproject)

theorem foldl_onCopy_filter (hown : ∀ d ∈ document, d.key.Same key) (ops : List Op)
    (stamp : Stamp) :
    (ops.filter (Op.concerns key)).foldl (fun document op => op.onCopy key stamp document)
        document =
      ops.foldl (fun document op => op.onCopy key stamp document) document := by
  induction ops generalizing document with
  | nil => rfl
  | cons op rest ih =>
    cases hop : op.concerns key with
    | false =>
      rw [List.filter_cons_of_neg (by simp [hop]), List.foldl_cons,
        onCopy_of_not_concerns hown hop, ih hown]
    | true =>
      rw [List.filter_cons_of_pos hop, List.foldl_cons, List.foldl_cons,
        ih (Registry.ownKey_onCopy hown stamp op)]

/-- Documents do not interfere: leaving out every change that does not concern a document
leaves the document as it is, up to its stamps. -/
theorem find?_run_filter_concerns (key : DocumentKey) (changes others : List (Stamp × Op))
    (h : others.map Prod.snd = (changes.map Prod.snd).filter (Op.concerns key)) :
    ((empty.run others).find? key).map Document.undated =
      ((empty.run changes).find? key).map Document.undated := by
  rw [undated_run, undated_run, h, foldl_onCopy_filter]
  exact nofun

/-- A file that is open under two projects: what happens to the one document and its
project leaves the other, though the stamps that this one carries are earlier without it. -/
theorem find?_run_filter_concerns_two_projects :
    let file : Path := ⟨"/src/a.cpp"⟩
    let key : DocumentKey := ⟨file, "a"⟩
    let other : DocumentKey := ⟨file, "b"⟩
    let changes : List (Stamp × Op) :=
      [(⟨2⟩, .openDocument other), (⟨3⟩, .openDocument key), (⟨4⟩, .edit key),
        (⟨4⟩, .setFailed other true), (⟨4⟩, .markParsed key 1), (⟨5⟩, .flagProject "b"),
        (⟨5⟩, .focus (some file)), (⟨5⟩, .close other)]
    let others : List (Stamp × Op) :=
      [(⟨2⟩, .openDocument key), (⟨3⟩, .edit key), (⟨3⟩, .markParsed key 1),
        (⟨4⟩, .focus (some file))]
    (empty.run others).find? key ≠ (empty.run changes).find? key ∧
      ((empty.run others).find? key).map Document.undated =
        ((empty.run changes).find? key).map Document.undated := by
  intro file key other changes others
  have h : others.map Prod.snd = (changes.map Prod.snd).filter (Op.concerns key) := by
    decide +kernel
  exact ⟨by decide +kernel, find?_run_filter_concerns key changes others h⟩

end Documents

end AnalysisJobs
