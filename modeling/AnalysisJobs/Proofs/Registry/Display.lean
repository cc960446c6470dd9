import AnalysisJobs.Proofs.Registry.Copies
import AnalysisJobs.Queue
/-!
# What the editor shows

A copy is shown because a notification listed its path, whether it came as a change of the
documents or as an activity.  So a copy that is hidden stays hidden until then, whatever else
happens to it.
-/

namespace AnalysisJobs

namespace Documents.Op

/-- The change says that the editor shows the files of a path. -/
def Shows (path : Path) : Documents.Op → Prop
  | showPaths paths => ∃ p ∈ paths, path.Same p
  | focus shown => ∃ p ∈ shown, path.Same p
  | _ => False

end Documents.Op

def Registry.Command.Shows (path : Path) (c : Registry.Command) : Prop :=
  ∃ op ∈ c.changes, op.Shows path

/-- The copy of `key`, if there is one, is shown nowhere. -/
def HiddenCopy (key : DocumentKey) (document : Option Document) : Prop :=
  ∀ d ∈ document, d.key.Same key ∧ d.visible = false ∧ d.current = false

variable {key : DocumentKey} {document : Option Document}

theorem Priority.ofDocument_eq_hidden_iff :
    Priority.ofDocument document = .hidden ↔
      ∀ d ∈ document, d.visible = false ∧ d.current = false := by
  cases document with
  | none => simp [ofDocument]
  | some d => cases hcurrent : d.current <;> cases hvisible : d.visible <;>
      simp [ofDocument, hcurrent, hvisible]

theorem HiddenCopy.priority (h : HiddenCopy key document) :
    Priority.ofDocument document = .hidden :=
  Priority.ofDocument_eq_hidden_iff.2 fun d hd => (h d hd).2

namespace Registry

theorem hidden_onCopy (h : HiddenCopy key document) (stamp : Stamp) {op : Documents.Op}
    (hop : ¬ op.Shows key.path) : HiddenCopy key (op.onCopy key stamp document) := by
  have hlisted {d : Document} (hd : d.key.Same key) {p : Path} (hp : d.key.path.Same p) :
      key.path.Same p := (DocumentKey.same_iff.1 hd).1.symm.trans hp
  cases op with
  | openDocument k =>
    exact forall_mem_ite_opened h (fun hk => ⟨hk, rfl, rfl⟩) fun hk _ hd => ⟨hk, hd.2⟩
  | edit k | setFailed k failed | markParsed k revision =>
    refine forall_mem_ite_map h ?_
    exact fun _ hd => hd
  | close k => exact forall_mem_ite_none h
  | showPaths paths =>
    refine forall_mem_map h fun d hd => ⟨hd.1, ?_, hd.2.2⟩
    refine List.any_eq_false.2 fun p hp hsame => hop ⟨p, hp, ?_⟩
    exact hlisted hd.1 (of_decide_eq_true hsame)
  | focus shown =>
    refine forall_mem_map h fun d hd => ⟨hd.1, hd.2.1, ?_⟩
    refine (Option.any_eq_false _ _).2 fun p hp => ?_
    exact decide_eq_false fun hsame => hop ⟨p, hp, hlisted hd.1 hsame⟩
  | flagProject project =>
    refine forall_mem_map h fun d hd => ?_
    split <;> exact hd

theorem hidden_after {reg : Registry} (h : HiddenCopy key (reg.documents.find? key))
    {c : Command} (hc : ¬ c.Shows key.path) :
    HiddenCopy key ((reg.after c).documents.find? key) :=
  find?_after_induction (P := HiddenCopy key) h
    fun op hop _ hd => hidden_onCopy hd _ fun hshows => hc ⟨op, hop, hshows⟩

theorem hidden_run {reg : Registry} (h : HiddenCopy key (reg.documents.find? key))
    {commands : List Command} (hnone : ∀ c ∈ commands, ¬ c.Shows key.path) :
    HiddenCopy key ((reg.run commands).documents.find? key) :=
  run_induction (P := fun reg => HiddenCopy key (reg.documents.find? key)) h
    fun _ c hc hreg => hidden_after hreg (hnone c hc)

theorem hiddenCopy_run (commands : List Command)
    (h : Priority.ofDocument ((new.run commands).documents.find? key) = .hidden) :
    HiddenCopy key ((new.run commands).documents.find? key) := by
  intro d hd
  have hempty : ∀ d ∈ new.documents.find? key, d.key.Same key := nofun
  exact ⟨ownKey_run hempty commands d hd, Priority.ofDocument_eq_hidden_iff.1 h d hd⟩

end Registry

end AnalysisJobs
