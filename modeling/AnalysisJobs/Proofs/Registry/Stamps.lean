import AnalysisJobs.Documents.Lemmas
import AnalysisJobs.Registry.Command
import Mathlib.Tactic.ByContra
/-!
# What stamps say about histories

Three things carry stamps: the copy of a document, a project, and the buffers taken
together.  To each of them a command does one of three things, and a stamp is new
exactly when its thing was renewed.  `Tracked` says so of one command and
`Tracked.run` of a history: as long as the clock does not run out of words, what was
renewed since carries a stamp that is later than every stamp taken before.
-/

namespace AnalysisJobs.Registry

/-- What a command does to something that carries a stamp. -/
inductive Effect
  | kept
  | renewed
  | gone
  deriving DecidableEq, Repr

/-- The stamp that something carries afterwards, where `next` is the next stamp. -/
def Effect.stamp (old : Option Stamp) (next : Stamp) : Effect → Option Stamp
  | kept => old
  | renewed => some next
  | gone => none

theorem Effect.stamp_eq_some {e : Effect} {old : Option Stamp} {next s : Stamp}
    (h : e.stamp old next = some s) : e = .kept ∧ old = some s ∨ e = .renewed ∧ next = s := by
  cases e with
  | kept => exact .inl ⟨rfl, h⟩
  | renewed => exact .inr ⟨rfl, Option.some.inj h⟩
  | gone => cases h

/-- What a change of the documents does to the copy of a document. -/
def changeEffect (key : DocumentKey) : Documents.Op → Effect
  | .openDocument k => if k.Same key then .renewed else .kept
  | .close k => if k.Same key then .gone else .kept
  | _ => .kept

def copyEffect (key : DocumentKey) : Command → Effect
  | .openDocument k => changeEffect key (.openDocument k)
  | .onDocuments op => changeEffect key op
  | _ => .kept

theorem openDocument_of_changeEffect {key : DocumentKey} {op : Documents.Op}
    (h : changeEffect key op = .renewed) : ∃ k, op = .openDocument k ∧ k.Same key := by
  cases op with
  | openDocument k => exact ⟨k, rfl, by simpa [changeEffect] using h⟩
  | close k =>
    rw [changeEffect] at h
    split at h <;> cases h
  | _ => cases h

theorem openDocument_of_copyEffect {key : DocumentKey} {c : Command}
    (h : copyEffect key c = .renewed) :
    ∃ k : DocumentKey, k.Same key ∧ (c = .openDocument k ∨ c = .onDocuments (.openDocument k)) := by
  cases c with
  | openDocument k =>
    rw [copyEffect] at h
    obtain ⟨l, hl, hkey⟩ := openDocument_of_changeEffect h
    cases hl
    exact ⟨k, hkey, .inl rfl⟩
  | onDocuments op =>
    obtain ⟨k, rfl, hk⟩ := openDocument_of_changeEffect h
    exact ⟨k, hk, .inr rfl⟩
  | _ => cases h

def projectEffect (id : ProjectId) : Command → Effect
  | .configureProject i _ | .putProject i _ => if i = id then .renewed else .kept
  | .removeProject i => if i = id then .gone else .kept
  | _ => .kept

theorem putProject_of_projectEffect {id : ProjectId} {c : Command}
    (h : projectEffect id c = .renewed) :
    ∃ arguments, c = .configureProject id arguments ∨ c = .putProject id arguments := by
  cases c with
  | configureProject other arguments =>
    obtain rfl : other = id := by simpa [projectEffect] using h
    exact ⟨arguments, .inl rfl⟩
  | putProject other arguments =>
    obtain rfl : other = id := by simpa [projectEffect] using h
    exact ⟨arguments, .inr rfl⟩
  | removeProject other =>
    simp only [projectEffect] at h
    split at h <;> cases h
  | _ => cases h

/-- What a command does to the unsaved buffers: it may create or update one or
actually remove one. -/
def buffersEffect (reg : Registry) : Command → Effect
  | .putBuffer .. => .renewed
  | .removeBuffer path => if reg.buffers.isUnsaved path then .renewed else .kept
  | _ => .kept

/-- The effects of a history, one for each command. -/
def effects (effect : Registry → Command → Effect) (reg : Registry) : List Command → List Effect
  | [] => []
  | c :: rest => effect reg c :: effects effect (reg.after c) rest

theorem effects_of_forall (effect : Command → Effect) (reg : Registry) (commands : List Command) :
    effects (fun _ c => effect c) reg commands = commands.map effect := by
  induction commands generalizing reg with
  | nil => rfl
  | cons c rest ih => rw [effects, ih, List.map_cons]

/-! ## The clock -/

theorem clock_onDocuments (reg : Registry) (op : Documents.Op) :
    (reg.onDocuments op).clock = reg.clock ∨ (reg.onDocuments op).clock = reg.clock.advance := by
  simp only [onDocuments]
  split
  · exact .inr rfl
  · exact .inl rfl

theorem clock_after (reg : Registry) (c : Command) :
    (reg.after c).clock = reg.clock ∨ (reg.after c).clock = reg.clock.advance := by
  cases c with
  | openDocument key => exact clock_onDocuments reg _
  | onDocuments op => exact clock_onDocuments reg op
  | configureProject | putProject | putBuffer | takeStamp => exact .inr rfl
  | removeProject | showActivity => exact .inl rfl
  | removeBuffer path =>
    simp only [after, removeBuffer]
    split
    · exact .inr rfl
    · exact .inl rfl

theorem taken_le_after (reg : Registry) (c : Command) :
    reg.clock.taken ≤ (reg.after c).clock.taken := by
  rcases clock_after reg c with h | h
  · exact Nat.le_of_eq (congrArg Clock.taken h.symm)
  · rw [h, Clock.taken_advance]
    omega

theorem taken_le_run (reg : Registry) (commands : List Command) :
    reg.clock.taken ≤ (reg.run commands).clock.taken := by
  induction commands generalizing reg with
  | nil => exact Nat.le_refl _
  | cons c rest ih => exact Nat.le_trans (taken_le_after reg c) (ih (reg.after c))

/-! ## Stamps of one thing -/

/-- `read` is the stamp of something to which commands do what `effect` says. -/
structure Tracked (read : Registry → Option Stamp) (effect : Registry → Command → Effect) :
    Prop where
  read_after : ∀ reg c, read (reg.after c) = (effect reg c).stamp (read reg) reg.clock.next
  clock_after : ∀ reg c, effect reg c = .renewed → (reg.after c).clock = reg.clock.advance

section Tracked

variable {read : Registry → Option Stamp} {effect : Registry → Command → Effect}
  {reg : Registry} {commands : List Command}

theorem Tracked.run_kept (h : Tracked read effect)
    (hkept : ∀ e ∈ effects effect reg commands, e = .kept) :
    read (reg.run commands) = read reg := by
  induction commands generalizing reg with
  | nil => rfl
  | cons c rest ih =>
    obtain ⟨hc, hrest⟩ := List.forall_mem_cons.1 hkept
    rw [run_cons, ih hrest, h.read_after, hc]
    rfl

theorem Tracked.run_not_renewed (h : Tracked read effect)
    (hnot : Effect.renewed ∉ effects effect reg commands) :
    read (reg.run commands) = none ∨ read (reg.run commands) = read reg := by
  induction commands generalizing reg with
  | nil => exact .inr rfl
  | cons c rest ih =>
    rw [effects, List.mem_cons, not_or] at hnot
    rcases ih hnot.2 with hnone | hsame
    · exact .inl hnone
    · rw [run_cons, hsame, h.read_after]
      cases hc : effect reg c with
      | kept => exact .inr rfl
      | renewed => exact absurd hc.symm hnot.1
      | gone => exact .inl rfl

theorem Tracked.toNat_next (h : Tracked read effect) {c : Command}
    (hc : effect reg c = .renewed) (hclock : (reg.after c).clock.taken < UInt64.size) :
    reg.clock.next.tick.toNat = reg.clock.taken + 1 := by
  rw [h.clock_after reg c hc, Clock.taken_advance] at hclock
  apply Clock.toNat_next
  omega

theorem Tracked.run_not_kept (h : Tracked read effect)
    (hclock : (reg.run commands).clock.taken < UInt64.size)
    (hnot : ¬ ∀ e ∈ effects effect reg commands, e = .kept) :
    ∀ s, read (reg.run commands) = some s → reg.clock.taken < s.tick.toNat := by
  induction commands generalizing reg with
  | nil => exact absurd (by simp [effects]) hnot
  | cons c rest ih =>
    intro s hs
    have hle := taken_le_after reg c
    by_cases hrest : ∀ e ∈ effects effect (reg.after c) rest, e = .kept
    · -- the first command is the last that did something
      rw [run_cons, h.run_kept hrest, h.read_after] at hs
      cases hc : effect reg c with
      | kept =>
        refine absurd ?_ hnot
        intro e he
        rcases List.mem_cons.1 he with rfl | he
        · exact hc
        · exact hrest e he
      | renewed =>
        have hfirst := Nat.lt_of_le_of_lt (taken_le_run (reg.after c) rest) hclock
        rw [hc, Effect.stamp, Option.some.injEq] at hs
        rw [← hs, h.toNat_next hc hfirst]
        omega
      | gone =>
        rw [hc] at hs
        cases hs
    · have hlater := ih hclock hrest s hs
      omega

def Dates (reg : Registry) (s : Stamp) : Prop :=
  0 < s.tick.toNat ∧ s.tick.toNat ≤ reg.clock.taken

theorem Tracked.dates_after (h : Tracked read effect) {c : Command}
    (hdates : ∀ s, read reg = some s → reg.Dates s)
    (hclock : (reg.after c).clock.taken < UInt64.size) :
    ∀ s, read (reg.after c) = some s → (reg.after c).Dates s := by
  intro s hs
  rw [h.read_after] at hs
  rcases Effect.stamp_eq_some hs with ⟨-, hold⟩ | ⟨hc, rfl⟩
  · obtain ⟨hpos, hbound⟩ := hdates s hold
    exact ⟨hpos, Nat.le_trans hbound (taken_le_after reg c)⟩
  · rw [Dates, h.toNat_next hc hclock, h.clock_after reg c hc, Clock.taken_advance]
    omega

theorem Tracked.dates_run (h : Tracked read effect) (hdates : ∀ s, read reg = some s → reg.Dates s)
    (hclock : (reg.run commands).clock.taken < UInt64.size) :
    ∀ s, read (reg.run commands) = some s → (reg.run commands).Dates s := by
  induction commands generalizing reg with
  | nil => exact hdates
  | cons c rest ih =>
    have hfirst := Nat.lt_of_le_of_lt (taken_le_run (reg.after c) rest) hclock
    exact ih (h.dates_after hdates hfirst) hclock

/-- A stamp is after the one of a snapshot exactly if its thing was renewed since. -/
theorem Tracked.isAfter_iff (h : Tracked read effect)
    (hdates : ∀ s, read reg = some s → reg.Dates s)
    (hclock : (reg.run commands).clock.taken < UInt64.size) {live : Stamp}
    (hlive : read (reg.run commands) = some live) :
    live.isAfter ((read reg).getD .origin) = true ↔
      Effect.renewed ∈ effects effect reg commands := by
  rw [Stamp.isAfter, decide_eq_true_eq, UInt64.lt_iff_toNat_lt]
  constructor
  · intro hafter
    by_contra hnot
    rcases h.run_not_renewed hnot with hnone | hsame
    · rw [hnone] at hlive
      cases hlive
    · rw [← hsame, hlive] at hafter
      exact Nat.lt_irrefl _ hafter
  · intro hmem
    have hlater := h.run_not_kept hclock (fun hkept => nomatch hkept _ hmem) live hlive
    refine Nat.lt_of_le_of_lt ?_ hlater
    cases hs : read reg with
    | none => exact Nat.zero_le _
    | some s => exact (hdates s hs).2

end Tracked

/-! ## Copies of documents -/

section Fields

variable {β : Type} {field : Document → β} {f : Document → Document}

theorem map_field_map (hf : ∀ d, field (f d) = field d) (document : Option Document) :
    (document.map f).map field = document.map field := by
  rw [Option.map_map]
  congr 1
  funext d
  exact hf d

theorem map_field_ite (hf : ∀ d, field (f d) = field d) (c : Prop) [Decidable c]
    (document : Option Document) :
    (if c then document.map f else document).map field = document.map field := by
  split
  · exact map_field_map hf document
  · rfl

end Fields

theorem openedAt_apply_of_kept {key : DocumentKey} (ds : Documents) (stamp : Stamp)
    {op : Documents.Op} (h : changeEffect key op = .kept) :
    ((ds.apply stamp op).find? key).map Document.openedAt =
      (ds.find? key).map Document.openedAt := by
  cases op with
  | openDocument k =>
    have hk : ¬ k.Same key := fun hk => by simp [changeEffect, hk] at h
    rw [Documents.apply, Documents.find?_openAt, if_neg hk]
  | close k =>
    have hk : ¬ k.Same key := fun hk => by simp [changeEffect, hk] at h
    rw [Documents.apply, Documents.find?_close, if_neg hk]
  | edit k =>
    rw [Documents.apply, Documents.find?_edit]
    apply map_field_ite
    exact fun _ => rfl
  | setFailed k failed =>
    rw [Documents.apply, Documents.find?_setFailed]
    apply map_field_ite
    exact fun _ => rfl
  | markParsed k revision =>
    rw [Documents.apply, Documents.find?_markParsed]
    apply map_field_ite
    exact fun _ => rfl
  | showPaths paths =>
    rw [Documents.apply, Documents.find?_showPaths]
    apply map_field_map
    exact fun _ => rfl
  | focus path =>
    rw [Documents.apply, Documents.find?_focus]
    apply map_field_map
    exact fun _ => rfl
  | flagProject project =>
    rw [Documents.apply, Documents.find?_flagProject]
    apply map_field_map
    intro d
    split <;> rfl

def copyStamp (key : DocumentKey) (reg : Registry) : Option Stamp :=
  (reg.documents.find? key).map Document.openedAt

theorem copyStamp_onDocuments (key : DocumentKey) (reg : Registry) (op : Documents.Op) :
    copyStamp key (reg.onDocuments op) =
      (changeEffect key op).stamp (copyStamp key reg) reg.clock.next := by
  cases op with
  | openDocument k =>
    by_cases hk : k.Same key
    · rw [changeEffect, if_pos hk, Effect.stamp]
      simp only [copyStamp, onDocuments, Documents.apply, Documents.find?_openAt, if_pos hk]
      cases reg.documents.find? key <;> rfl
    · have hkept : changeEffect key (.openDocument k) = .kept := if_neg hk
      rw [hkept]
      exact openedAt_apply_of_kept reg.documents reg.clock.next hkept
  | close k =>
    by_cases hk : k.Same key
    · rw [changeEffect, if_pos hk, Effect.stamp]
      simp only [copyStamp, onDocuments, Documents.apply, Documents.find?_close, if_pos hk]
      rfl
    · have hkept : changeEffect key (.close k) = .kept := if_neg hk
      rw [hkept]
      exact openedAt_apply_of_kept reg.documents reg.clock.next hkept
  | _ => exact openedAt_apply_of_kept reg.documents reg.clock.next rfl

theorem tracked_copy (key : DocumentKey) :
    Tracked (copyStamp key) fun _ c => copyEffect key c where
  read_after reg c := by
    cases c with
    | openDocument k => exact copyStamp_onDocuments key reg _
    | onDocuments op => exact copyStamp_onDocuments key reg op
    | configureProject id arguments =>
      exact copyStamp_onDocuments key (reg.putProject id arguments) _
    | showActivity activity =>
      exact (copyStamp_onDocuments key (reg.onDocuments _) _).trans
        (copyStamp_onDocuments key reg _)
    | _ => rfl
  clock_after reg c hc := by
    obtain ⟨k, -, rfl | rfl⟩ := openDocument_of_copyEffect hc <;> rfl

theorem isSome_copyStamp (key : DocumentKey) (reg : Registry) :
    (copyStamp key reg).isSome = reg.documents.isOpen key := Option.isSome_map

theorem isOpen_after_of_kept {key : DocumentKey} {c : Command} (h : copyEffect key c = .kept)
    (reg : Registry) : (reg.after c).documents.isOpen key = reg.documents.isOpen key := by
  rw [← isSome_copyStamp, (tracked_copy key).read_after, h, Effect.stamp, isSome_copyStamp]

/-! ## Projects -/

def projectStamp (id : ProjectId) (reg : Registry) : Option Stamp :=
  (reg.projects.find? id).map Project.changedAt

theorem projectStamp_put (id other : ProjectId) (reg : Registry) (arguments : List String) :
    projectStamp id (reg.putProject other arguments) =
      if other = id then some reg.clock.next else projectStamp id reg := by
  split
  · rename_i h
    rw [projectStamp, putProject, h, Projects.find?_put_self]
    rfl
  · rename_i h
    rw [projectStamp, putProject, Projects.find?_put_of_ne _ (Ne.symm h), projectStamp]

theorem isKnown_iff (reg : Registry) (id : ProjectId) :
    reg.projects.isKnown id = true ↔ ∃ s, projectStamp id reg = some s := by
  rw [Projects.isKnown, projectStamp]
  cases reg.projects.find? id <;> simp

theorem tracked_project (id : ProjectId) :
    Tracked (projectStamp id) fun _ c => projectEffect id c where
  read_after reg c := by
    cases c with
    | configureProject other arguments | putProject other arguments =>
      refine (projectStamp_put id other reg arguments).trans ?_
      rw [projectEffect]
      split <;> rfl
    | removeProject other =>
      rw [projectEffect]
      split
      · rename_i h
        rw [after, removeProject, projectStamp, h, Projects.find?_remove_self]
        rfl
      · rename_i h
        rw [after, removeProject, projectStamp, Projects.find?_remove_of_ne _ (Ne.symm h)]
        rfl
    | _ => rfl
  clock_after reg c hc := by
    obtain ⟨arguments, rfl | rfl⟩ := putProject_of_projectEffect hc <;> rfl

/-! ## Unsaved buffers -/

theorem tracked_buffers :
    Tracked (fun reg => some reg.buffers.changedAt) buffersEffect where
  read_after reg c := by
    cases c with
    | removeBuffer path =>
      rw [after, removeBuffer, Buffers.changedAt_remove, buffersEffect]
      split <;> rfl
    | _ => rfl
  clock_after reg c hc := by
    cases c with
    | putBuffer => rfl
    | removeBuffer path =>
      rw [buffersEffect] at hc
      split at hc
      · rename_i h
        rw [after, removeBuffer, if_pos h]
      · cases hc
    | _ => cases hc

/-! ## Histories from the start -/

theorem dates_copy {commands : List Command} (hclock : (new.run commands).clock.taken < UInt64.size)
    (key : DocumentKey) :
    ∀ s, copyStamp key (new.run commands) = some s → (new.run commands).Dates s :=
  (tracked_copy key).dates_run nofun hclock

theorem dates_project {commands : List Command}
    (hclock : (new.run commands).clock.taken < UInt64.size) (id : ProjectId) :
    ∀ s, projectStamp id (new.run commands) = some s → (new.run commands).Dates s :=
  (tracked_project id).dates_run nofun hclock

theorem dates_buffers {commands : List Command}
    (hclock : (new.run commands).clock.taken < UInt64.size) :
    (new.run commands).Dates (new.run commands).buffers.changedAt := by
  refine tracked_buffers.dates_run (fun s hs => ?_) hclock _ rfl
  obtain rfl := Option.some.inj hs
  exact ⟨by decide, by decide⟩

/-- A document is open since a snapshot was taken exactly if it was open then and was
neither closed nor opened again. -/
theorem isOpenSince_iff {before after : List Command}
    (hclock : ((new.run before).run after).clock.taken < UInt64.size) (key : DocumentKey) :
    ((new.run before).run after).documents.isOpenSince key
        ((copyStamp key (new.run before)).getD .origin) = true ↔
      (new.run before).documents.isOpen key = true ∧ ∀ c ∈ after, copyEffect key c = .kept := by
  have hstart := Nat.lt_of_le_of_lt (taken_le_run (new.run before) after) hclock
  have hopen : (new.run before).documents.isOpen key = true ↔
      ∃ s, copyStamp key (new.run before) = some s := by
    rw [Documents.isOpen, copyStamp]
    cases (new.run before).documents.find? key <;> simp
  have hsince (stamp : Stamp) :
      ((new.run before).run after).documents.isOpenSince key stamp = true ↔
        copyStamp key ((new.run before).run after) = some stamp := by
    rw [Documents.isOpenSince, copyStamp]
    cases ((new.run before).run after).documents.find? key <;> simp
  have hkept : (∀ c ∈ after, copyEffect key c = .kept) ↔
      ∀ e ∈ effects (fun _ c => copyEffect key c) (new.run before) after, e = .kept := by
    rw [effects_of_forall, List.forall_mem_map]
  rw [hsince, hopen, hkept]
  constructor
  · intro hnow
    obtain ⟨hpos, -⟩ := (tracked_copy key).dates_run (dates_copy hstart key) hclock _ hnow
    cases hs : copyStamp key (new.run before) with
    | none =>
      -- no copy carries the stamp that stands for none
      rw [hs] at hpos
      exact absurd hpos (Nat.lt_irrefl 0)
    | some s =>
      rw [hs] at hnow
      refine ⟨⟨s, rfl⟩, ?_⟩
      by_contra hnot
      have hlater := (tracked_copy key).run_not_kept hclock hnot s hnow
      have hbound := (dates_copy hstart key s hs).2
      omega
  · rintro ⟨⟨s, hs⟩, hall⟩
    rw [(tracked_copy key).run_kept hall, hs]
    rfl

end AnalysisJobs.Registry
