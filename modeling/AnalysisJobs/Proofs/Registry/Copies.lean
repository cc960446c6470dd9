import AnalysisJobs.Proofs.Registry.Stamps
/-!
# The life of one copy

What a command does to the copy that is open under a key depends on this copy alone:
`onCopy` says so for one change of the documents and `find?_after` for a command.
From it follow the laws of a copy: its own key is the one it is found by, its revision
counts its edits, and it stays flagged for a reparse until a parse is recorded for it.
-/

namespace AnalysisJobs

namespace Documents.Op

/-- What a change makes of the copy that is open under `key`, if one is. -/
def onCopy (key : DocumentKey) (stamp : Stamp) (op : Op) (document : Option Document) :
    Option Document :=
  match op with
  | openDocument k =>
    if k.Same key then some (document.elim (.fresh k stamp) (·.reopened k stamp)) else document
  | edit k => if k.Same key then document.map .edited else document
  | close k => if k.Same key then none else document
  | setFailed k failed =>
    if k.Same key then document.map ({ · with failed := failed }) else document
  | markParsed k revision =>
    if k.Same key then document.map (·.parsed revision stamp) else document
  | showPaths paths =>
    document.map fun d => { d with visible := paths.any fun p => d.key.path.Same p }
  | focus path =>
    document.map fun d => { d with current := path.any fun p => d.key.path.Same p }
  | flagProject project =>
    document.map fun d => if d.key.project = project then { d with needsReparse := true } else d

end Documents.Op

theorem Documents.find?_apply (ds : Documents) (stamp : Stamp) (op : Documents.Op)
    (key : DocumentKey) :
    (ds.apply stamp op).find? key = op.onCopy key stamp (ds.find? key) := by
  cases op with
  | openDocument k => exact find?_openAt ds k key stamp
  | edit k => exact find?_edit ds k key
  | close k => exact find?_close ds k key
  | showPaths paths => exact find?_showPaths ds paths key
  | focus path => exact find?_focus ds path key
  | setFailed k failed => exact find?_setFailed ds k key failed
  | markParsed k revision => exact find?_markParsed ds k key revision stamp
  | flagProject project => exact find?_flagProject ds project key

namespace Registry

def Command.changes : Command → List Documents.Op
  | .openDocument key => [.openDocument key]
  | .onDocuments op => [op]
  | .configureProject id _ => [.flagProject id]
  | .showActivity activity => [.focus activity.active, .showPaths activity.visible]
  | _ => []

theorem documents_after (reg : Registry) (c : Command) :
    (reg.after c).documents =
      c.changes.foldl (fun ds op => ds.apply reg.clock.next op) reg.documents := by
  cases c <;> rfl

theorem find?_after (reg : Registry) (c : Command) (key : DocumentKey) :
    (reg.after c).documents.find? key =
      c.changes.foldl (fun document op => op.onCopy key reg.clock.next document)
        (reg.documents.find? key) := by
  rw [documents_after]
  generalize reg.documents = ds
  induction c.changes generalizing ds with
  | nil => rfl
  | cons op rest ih => rw [List.foldl_cons, List.foldl_cons, ih, Documents.find?_apply]

/-- What every change of a command keeps of a copy, the command keeps. -/
theorem find?_after_induction {P : Option Document → Prop} {reg : Registry} {c : Command}
    {key : DocumentKey} (h : P (reg.documents.find? key))
    (hchange : ∀ op ∈ c.changes, ∀ document, P document →
      P (op.onCopy key reg.clock.next document)) :
    P ((reg.after c).documents.find? key) := by
  rw [find?_after]
  generalize reg.documents.find? key = document at h
  generalize c.changes = changes at hchange
  induction changes generalizing document with
  | nil => exact h
  | cons op rest ih =>
    obtain ⟨hfirst, hrest⟩ := List.forall_mem_cons.1 hchange
    exact ih (op.onCopy key reg.clock.next document) (hfirst document h) hrest

theorem run_induction {P : Registry → Prop} {reg : Registry} {commands : List Command}
    (h : P reg) (hafter : ∀ reg, ∀ c ∈ commands, P reg → P (reg.after c)) :
    P (reg.run commands) := by
  induction commands generalizing reg with
  | nil => exact h
  | cons c rest ih =>
    refine ih (hafter reg c List.mem_cons_self h) ?_
    exact fun reg c hc => hafter reg c (List.mem_cons_of_mem _ hc)

section Laws

variable {P : Document → Prop} {key : DocumentKey} {document : Option Document}

theorem forall_mem_map (h : ∀ d ∈ document, P d) {f : Document → Document}
    (hf : ∀ d, P d → P (f d)) : ∀ d ∈ document.map f, P d := by
  intro d hd
  obtain ⟨old, hold, rfl⟩ := Option.map_eq_some_iff.1 hd
  exact hf old (h old hold)

theorem forall_mem_ite_map (h : ∀ d ∈ document, P d) {f : Document → Document}
    (hf : ∀ d, P d → P (f d)) {c : Prop} [Decidable c] :
    ∀ d ∈ (if c then document.map f else document), P d := by
  split
  · exact forall_mem_map h hf
  · exact h

theorem forall_mem_ite_none (h : ∀ d ∈ document, P d) {c : Prop} [Decidable c] :
    ∀ d ∈ (if c then none else document), P d := by
  split
  · exact nofun
  · exact h

theorem forall_mem_ite_opened (h : ∀ d ∈ document, P d) {k : DocumentKey} {stamp : Stamp}
    (hfresh : k.Same key → P (.fresh k stamp))
    (hreopened : k.Same key → ∀ d, P d → P (d.reopened k stamp)) :
    ∀ d ∈ (if k.Same key then some (document.elim (.fresh k stamp) (·.reopened k stamp))
      else document), P d := by
  split
  · rename_i hk
    intro d hd
    obtain rfl := Option.some.inj hd
    cases document with
    | none => exact hfresh hk
    | some old => exact hreopened hk old (h old rfl)
  · exact h

/-! ## The key of a copy -/

theorem ownKey_onCopy (h : ∀ d ∈ document, d.key.Same key) (stamp : Stamp)
    (op : Documents.Op) : ∀ d ∈ op.onCopy key stamp document, d.key.Same key := by
  cases op with
  | openDocument k => exact forall_mem_ite_opened h id fun hk _ _ => hk
  | edit k | setFailed k failed | markParsed k revision =>
    refine forall_mem_ite_map h ?_
    exact fun _ hd => hd
  | close k =>
    exact forall_mem_ite_none h
  | showPaths paths | focus path => exact forall_mem_map h fun _ hd => hd
  | flagProject project =>
    refine forall_mem_map h fun d hd => ?_
    split <;> exact hd

theorem ownKey_after {reg : Registry} (h : ∀ d ∈ reg.documents.find? key, d.key.Same key)
    (c : Command) : ∀ d ∈ (reg.after c).documents.find? key, d.key.Same key :=
  find?_after_induction (P := fun document => ∀ d ∈ document, d.key.Same key) h
    fun op _ _ hd => ownKey_onCopy hd _ op

theorem ownKey_run {reg : Registry} (h : ∀ d ∈ reg.documents.find? key, d.key.Same key)
    (commands : List Command) :
    ∀ d ∈ (reg.run commands).documents.find? key, d.key.Same key :=
  run_induction (P := fun reg => ∀ d ∈ reg.documents.find? key, d.key.Same key) h
    fun _ c _ hreg => ownKey_after hreg c

/-! ## The revision of a copy -/

/-- The edits of a document's copy after a change. -/
def countChange (key : DocumentKey) (edits : Nat) : Documents.Op → Nat
  | .openDocument k => if k.Same key then 0 else edits
  | .edit k => if k.Same key then edits + 1 else edits
  | _ => edits

def countEdits (key : DocumentKey) (edits : Nat) (c : Command) : Nat :=
  c.changes.foldl (countChange key) edits

/-- How often a document was edited since it was last opened. -/
def editsSinceOpen (key : DocumentKey) (commands : List Command) : Nat :=
  commands.foldl (countEdits key) 0

theorem revision_onCopy {edits : Nat} (h : ∀ d ∈ document, d.revision = UInt32.ofNat edits)
    (stamp : Stamp) (op : Documents.Op) :
    ∀ d ∈ op.onCopy key stamp document, d.revision = UInt32.ofNat (countChange key edits op) := by
  cases op with
  | openDocument k =>
    rw [countChange, Documents.Op.onCopy]
    split
    · intro d hd
      obtain rfl := Option.some.inj hd
      cases document <;> rfl
    · exact h
  | edit k =>
    rw [countChange, Documents.Op.onCopy]
    split
    · intro d hd
      obtain ⟨old, hold, rfl⟩ := Option.map_eq_some_iff.1 hd
      rw [Document.edited, h old hold, UInt32.ofNat_add]
      rfl
    · exact h
  | setFailed k failed | markParsed k revision =>
    refine forall_mem_ite_map h ?_
    exact fun _ hd => hd
  | close k =>
    exact forall_mem_ite_none h
  | showPaths paths | focus path => exact forall_mem_map h fun _ hd => hd
  | flagProject project =>
    refine forall_mem_map h fun d hd => ?_
    split <;> exact hd

theorem revision_after {edits : Nat} {reg : Registry}
    (h : ∀ d ∈ reg.documents.find? key, d.revision = UInt32.ofNat edits) (c : Command) :
    ∀ d ∈ (reg.after c).documents.find? key,
      d.revision = UInt32.ofNat (countEdits key edits c) := by
  rw [find?_after, countEdits]
  generalize reg.documents.find? key = document at h
  induction c.changes generalizing document edits with
  | nil => exact h
  | cons op rest ih => exact ih _ (revision_onCopy h _ op)

theorem revision_run {edits : Nat} {reg : Registry}
    (h : ∀ d ∈ reg.documents.find? key, d.revision = UInt32.ofNat edits)
    (commands : List Command) :
    ∀ d ∈ (reg.run commands).documents.find? key,
      d.revision = UInt32.ofNat (commands.foldl (countEdits key) edits) := by
  induction commands generalizing reg edits with
  | nil => exact h
  | cons c rest ih => exact ih (revision_after h c)

theorem countEdits_of_renewed {c : Command} (h : copyEffect key c = .renewed) (edits : Nat) :
    countEdits key edits c = 0 := by
  obtain ⟨k, hk, hc⟩ := openDocument_of_copyEffect h
  have hchanges : c.changes = [.openDocument k] := by
    rcases hc with rfl | rfl <;> rfl
  rw [countEdits, hchanges, List.foldl_cons, countChange, if_pos hk, List.foldl_nil]

theorem foldl_countEdits_of_renewed {commands : List Command}
    (h : ∃ c ∈ commands, copyEffect key c = .renewed) (edits : Nat) :
    commands.foldl (countEdits key) edits = editsSinceOpen key commands := by
  obtain ⟨c, hc, hrenewed⟩ := h
  obtain ⟨first, later, rfl⟩ := List.append_of_mem hc
  simp only [editsSinceOpen, List.foldl_append, List.foldl_cons, countEdits_of_renewed hrenewed]

/-! ## The need for a reparse -/

/-- Whether a command records a successful parse of a document. -/
def Command.RecordsParse (key : DocumentKey) : Command → Prop
  | .onDocuments (.markParsed k _) => k.Same key
  | _ => False

theorem recordsParse_of_mem_changes {c : Command} {k : DocumentKey} {revision : UInt32}
    (h : .markParsed k revision ∈ c.changes) (hk : k.Same key) : c.RecordsParse key := by
  cases c with
  | onDocuments op =>
    obtain rfl := List.mem_singleton.1 h
    exact hk
  | _ => simp [Command.changes] at h

theorem needsReparse_onCopy (h : ∀ d ∈ document, d.needsReparse = true) (stamp : Stamp)
    {op : Documents.Op} (hparse : ∀ k revision, op = .markParsed k revision → ¬ k.Same key) :
    ∀ d ∈ op.onCopy key stamp document, d.needsReparse = true := by
  cases op with
  | openDocument k => exact forall_mem_ite_opened h (fun _ => rfl) fun _ _ _ => rfl
  | edit k =>
    refine forall_mem_ite_map h ?_
    exact fun _ _ => rfl
  | setFailed k failed =>
    refine forall_mem_ite_map h ?_
    exact fun _ hd => hd
  | markParsed k revision =>
    rw [Documents.Op.onCopy, if_neg (hparse k revision rfl)]
    exact h
  | close k => exact forall_mem_ite_none h
  | showPaths paths | focus path => exact forall_mem_map h fun _ hd => hd
  | flagProject project =>
    refine forall_mem_map h fun d hd => ?_
    split
    · rfl
    · exact hd

/-- Only the record of a parse takes the flag from a copy. -/
theorem needsReparse_after {reg : Registry}
    (h : ∀ d ∈ reg.documents.find? key, d.needsReparse = true) {c : Command}
    (hparse : ¬ c.RecordsParse key) :
    ∀ d ∈ (reg.after c).documents.find? key, d.needsReparse = true := by
  refine find?_after_induction (P := fun document => ∀ d ∈ document, d.needsReparse = true) h ?_
  intro op hop document hdocument
  refine needsReparse_onCopy hdocument _ ?_
  rintro k revision rfl hk
  exact hparse (recordsParse_of_mem_changes hop hk)

theorem needsReparse_configureProject {reg : Registry}
    (hown : ∀ d ∈ reg.documents.find? key, d.key.Same key) (arguments : List String) :
    ∀ d ∈ (reg.after (.configureProject key.project arguments)).documents.find? key,
      d.needsReparse = true := by
  intro d hd
  rw [find?_after] at hd
  obtain ⟨old, hold, rfl⟩ := Option.map_eq_some_iff.1 hd
  have hproject : old.key.project = key.project :=
    (DocumentKey.same_iff.1 (hown old hold)).2
  rw [if_pos hproject]

end Laws

end Registry

end AnalysisJobs
