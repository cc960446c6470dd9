import AnalysisJobs.Proofs.Registry.Stamps
import Mathlib.Data.List.Forall2
/-!
# Two registries that differ in spelling

Paths are compared by their components wherever the registry compares them, so a history with
other spellings leads to a registry that differs in the spellings it keeps and in nothing else.
The relations below pair up what differs in spelling only, from one path up to a whole
registry; every operation takes related things to related things.
-/

namespace AnalysisJobs

/-! ## Lists and options of related things -/

section Related

variable {α β γ δ : Type} {R : α → β → Prop} {l : List α} {m : List β} {a : Option α} {b : Option β}

theorem rel_find? (h : List.Forall₂ R l m) {p : α → Bool} {q : β → Bool}
    (hpq : ∀ x y, R x y → p x = q y) : Option.Rel R (l.find? p) (m.find? q) := by
  induction h with
  | nil => exact .none
  | @cons x y l m hxy _ ih =>
    rw [List.find?_cons, List.find?_cons, hpq x y hxy]
    split
    · exact .some hxy
    · exact ih

theorem any_eq_of_rel (h : List.Forall₂ R l m) {p : α → Bool} {q : β → Bool}
    (hpq : ∀ x y, R x y → p x = q y) : l.any p = m.any q := by
  induction h with
  | nil => rfl
  | cons hxy _ ih => rw [List.any_cons, List.any_cons, hpq _ _ hxy, ih]

theorem map_eq_of_rel {f : α → γ} {g : β → γ} (h : List.Forall₂ R l m)
    (hfg : ∀ x y, R x y → f x = g y) : l.map f = m.map g := by
  induction h with
  | nil => rfl
  | cons hxy _ ih => rw [List.map_cons, List.map_cons, hfg _ _ hxy, ih]

theorem rel_option_map {S : γ → δ → Prop} {f : α → γ} {g : β → δ} (h : Option.Rel R a b)
    (hfg : ∀ x y, R x y → S (f x) (g y)) : Option.Rel S (a.map f) (b.map g) := by
  cases h with
  | none => exact .none
  | some hxy => exact .some (hfg _ _ hxy)

theorem option_map_eq_of_rel {f : α → γ} {g : β → γ} (h : Option.Rel R a b)
    (hfg : ∀ x y, R x y → f x = g y) : a.map f = b.map g := by
  cases h with
  | none => rfl
  | some hxy => exact congrArg some (hfg _ _ hxy)

theorem isSome_eq_of_rel (h : Option.Rel R a b) : a.isSome = b.isSome := by
  cases h <;> rfl

theorem rel_map_ite {f : α → α} {g : β → β} (h : List.Forall₂ R l m) {p : α → Prop} {q : β → Prop}
    [DecidablePred p] [DecidablePred q] (hpq : ∀ x y, R x y → (p x ↔ q y))
    (hfg : ∀ x y, R x y → R (f x) (g y)) :
    List.Forall₂ R (l.map fun x => if p x then f x else x)
      (m.map fun y => if q y then g y else y) := by
  refine List.rel_map (fun {x y} hxy => ?_) h
  by_cases hp : p x
  · rw [if_pos hp, if_pos ((hpq x y hxy).1 hp)]
    exact hfg x y hxy
  · rw [if_neg hp, if_neg fun hq => hp ((hpq x y hxy).2 hq)]
    exact hxy

end Related

/-! ## Paths and keys -/

theorem Path.Same.same_iff {p p' q q' : Path} (hp : p.Same p') (hq : q.Same q') :
    p.Same q ↔ p'.Same q' :=
  ⟨fun h => hp.symm.trans (h.trans hq), fun h => hp.trans (h.trans hq.symm)⟩

theorem DocumentKey.Same.same_iff {k k' l l' : DocumentKey} (hk : k.Same k') (hl : l.Same l') :
    k.Same l ↔ k'.Same l' :=
  ⟨fun h => hk.symm.trans (h.trans hl), fun h => hk.trans (h.trans hl.symm)⟩

/-! ## Documents -/

/-- Two copies that differ at most in how their paths are spelled. -/
def Document.Same (d e : Document) : Prop := ∃ k, d.key.Same k ∧ e = { d with key := k }

structure Slot.Same (s t : Slot) : Prop where
  key : s.key.Same t.key
  document : s.document.Same t.document

structure Documents.Same (ds es : Documents) : Prop where
  slots : List.Forall₂ Slot.Same ds.slots es.slots
  counts : ds.counts = es.counts

namespace Documents

/-- Two changes that differ at most in how their paths are spelled. -/
inductive Op.Same : Op → Op → Prop
  | openDocument {k l : DocumentKey} (h : k.Same l) : Op.Same (.openDocument k) (.openDocument l)
  | edit {k l : DocumentKey} (h : k.Same l) : Op.Same (.edit k) (.edit l)
  | close {k l : DocumentKey} (h : k.Same l) : Op.Same (.close k) (.close l)
  | showPaths {paths others : List Path} (h : List.Forall₂ Path.Same paths others) :
    Op.Same (.showPaths paths) (.showPaths others)
  | focus {path other : Option Path} (h : Option.Rel Path.Same path other) :
    Op.Same (.focus path) (.focus other)
  | setFailed {k l : DocumentKey} (h : k.Same l) (failed : Bool) :
    Op.Same (.setFailed k failed) (.setFailed l failed)
  | markParsed {k l : DocumentKey} (h : k.Same l) (revision : UInt32) :
    Op.Same (.markParsed k revision) (.markParsed l revision)
  | flagProject (project : ProjectId) : Op.Same (.flagProject project) (.flagProject project)

variable {ds es : Documents} {k l : DocumentKey} {op op' : Op}

theorem Same.find? (h : ds.Same es) (hk : k.Same l) :
    Option.Rel Document.Same (ds.find? k) (es.find? l) := by
  refine rel_option_map (rel_find? h.slots fun s t hst => ?_) fun s t hst => hst.document
  exact decide_eq_decide.2 (hst.key.same_iff hk)

theorem Same.isOpen (h : ds.Same es) (hk : k.Same l) : ds.isOpen k = es.isOpen l :=
  isSome_eq_of_rel (h.find? hk)

theorem Same.modify (h : ds.Same es) (hk : k.Same l) {f g : Document → Document}
    (hfg : ∀ d e, d.Same e → (f d).Same (g e)) : (ds.modify k f).Same (es.modify l g) where
  slots := rel_map_ite h.slots (fun _ _ hst => hst.key.same_iff hk)
    fun s t hst => ⟨hst.key, hfg s.document t.document hst.document⟩
  counts := h.counts

theorem Same.modifyAll (h : ds.Same es) {f g : Document → Document}
    (hfg : ∀ d e, d.Same e → (f d).Same (g e)) : (ds.modifyAll f).Same (es.modifyAll g) where
  slots := List.rel_map (fun _ _ hst => ⟨hst.key, hfg _ _ hst.document⟩) h.slots
  counts := h.counts

theorem Same.recount (h : ds.Same es) (f : DocumentCounts → DocumentCounts) :
    Documents.Same { ds with counts := f ds.counts } { es with counts := f es.counts } :=
  ⟨h.slots, congrArg f h.counts⟩

theorem Same.openAt (h : ds.Same es) (hk : k.Same l) (stamp : Stamp) :
    (ds.openAt k stamp).Same (es.openAt l stamp) := by
  have hreopened (d e : Document) (hde : d.Same e) :
      (d.reopened k stamp).Same (e.reopened l stamp) := by
    obtain ⟨-, -, rfl⟩ := hde
    exact ⟨l, hk, rfl⟩
  have happended : Documents.Same { ds with slots := ds.slots ++ [⟨k, .fresh k stamp⟩] }
      { es with slots := es.slots ++ [⟨l, .fresh l stamp⟩] } :=
    ⟨List.rel_append h.slots (.cons ⟨hk, l, hk, rfl⟩ .nil), h.counts⟩
  rw [Documents.openAt, Documents.openAt, h.isOpen hk]
  split
  · exact (h.modify hk hreopened).recount fun c => { c with opened := c.opened + 1 }
  · exact happended.recount fun c => { c with opened := c.opened + 1 }

theorem Same.edit (h : ds.Same es) (hk : k.Same l) : (ds.edit k).Same (es.edit l) := by
  have hedited (d e : Document) (hde : d.Same e) : d.edited.Same e.edited := by
    obtain ⟨k', hk', rfl⟩ := hde
    exact ⟨k', hk', rfl⟩
  rw [Documents.edit, Documents.edit, h.isOpen hk]
  split
  · exact (h.modify hk hedited).recount fun c => { c with edited := c.edited + 1 }
  · exact h

theorem Same.close (h : ds.Same es) (hk : k.Same l) : (ds.close k).Same (es.close l) := by
  have hfiltered : Documents.Same { ds with slots := ds.slots.filter fun s => ¬ s.key.Same k }
      { es with slots := es.slots.filter fun s => ¬ s.key.Same l } := by
    refine ⟨List.rel_filter (fun s t hst => ?_) h.slots, h.counts⟩
    simpa using not_congr (hst.key.same_iff hk)
  rw [Documents.close, Documents.close, h.isOpen hk]
  split
  · exact hfiltered.recount fun c => { c with closed := c.closed + 1 }
  · exact h

theorem Same.showPaths (h : ds.Same es) {paths others : List Path}
    (hpaths : List.Forall₂ Path.Same paths others) :
    (ds.showPaths paths).Same (es.showPaths others) := by
  refine h.modifyAll fun d e hde => ?_
  obtain ⟨k, hk, rfl⟩ := hde
  have hshown : (paths.any fun p => d.key.path.Same p) = others.any fun p => k.path.Same p :=
    any_eq_of_rel hpaths fun p q hpq =>
      decide_eq_decide.2 ((DocumentKey.same_iff.1 hk).1.same_iff hpq)
  exact ⟨k, hk, by rw [hshown]⟩

theorem Same.focus (h : ds.Same es) {path other : Option Path}
    (hpath : Option.Rel Path.Same path other) : (ds.focus path).Same (es.focus other) := by
  refine h.modifyAll fun d e hde => ?_
  obtain ⟨k, hk, rfl⟩ := hde
  have hfocused : (path.any fun p => d.key.path.Same p) = other.any fun p => k.path.Same p := by
    cases hpath with
    | none => rfl
    | some hpq => exact decide_eq_decide.2 ((DocumentKey.same_iff.1 hk).1.same_iff hpq)
  exact ⟨k, hk, by rw [hfocused]⟩

theorem Same.setFailed (h : ds.Same es) (hk : k.Same l) (failed : Bool) :
    (ds.setFailed k failed).Same (es.setFailed l failed) := by
  have hset (d e : Document) (hde : d.Same e) :
      Document.Same { d with failed := failed } { e with failed := failed } := by
    obtain ⟨k', hk', rfl⟩ := hde
    exact ⟨k', hk', rfl⟩
  rw [Documents.setFailed, Documents.setFailed]
  match ds.find? k, es.find? l, h.find? hk with
  | none, none, .none => exact h
  | some d, some e, .some hde =>
    obtain ⟨k', hk', rfl⟩ := hde
    exact (h.modify hk hset).recount fun c => { c with failures := c.failures + _ }

theorem Same.markParsed (h : ds.Same es) (hk : k.Same l) (revision : UInt32) (stamp : Stamp) :
    (ds.markParsed k revision stamp).Same (es.markParsed l revision stamp) := by
  refine h.modify hk fun d e hde => ?_
  obtain ⟨k', hk', rfl⟩ := hde
  exact ⟨k', hk', rfl⟩

theorem Same.flagProject (h : ds.Same es) (project : ProjectId) :
    (ds.flagProject project).Same (es.flagProject project) := by
  refine h.modifyAll fun d e hde => ?_
  obtain ⟨k, hk, rfl⟩ := hde
  dsimp only
  rw [(DocumentKey.same_iff.1 hk).2]
  split
  · exact ⟨k, hk, rfl⟩
  · exact ⟨k, hk, rfl⟩

theorem Same.countOf (h : ds.Same es) (project : ProjectId) :
    ds.countOf project = es.countOf project := by
  have hprojects : ds.slots.map (fun s => s.document.key.project) =
      es.slots.map fun s => s.document.key.project := by
    refine map_eq_of_rel h.slots fun s t hst => ?_
    obtain ⟨k, hk, ht⟩ := hst.document
    rw [ht]
    exact (DocumentKey.same_iff.1 hk).2
  have hcount (ds : Documents) : ds.countOf project =
      (ds.slots.map fun s => s.document.key.project).countP fun id => id = project := by
    rw [List.countP_map]
    rfl
  rw [hcount, hcount, hprojects]

theorem Same.keys (h : ds.Same es) : List.Forall₂ DocumentKey.Same ds.keys es.keys :=
  List.rel_map (fun _ _ hst => hst.key) h.slots

theorem Same.dirty (h : ds.Same es) : List.Forall₂ DocumentKey.Same ds.dirty es.dirty := by
  refine List.rel_map (R := Document.Same) ?_ (List.rel_filter ?_ (List.rel_map ?_ h.slots))
  · rintro d e ⟨k, hk, rfl⟩
    exact hk
  · rintro d e ⟨k, hk, rfl⟩
    exact Iff.rfl
  · exact fun _ _ hst => hst.document

theorem Same.apply (h : ds.Same es) (hop : op.Same op') (stamp : Stamp) :
    (ds.apply stamp op).Same (es.apply stamp op') := by
  cases hop with
  | openDocument hk => exact h.openAt hk stamp
  | edit hk => exact h.edit hk
  | close hk => exact h.close hk
  | showPaths hpaths => exact h.showPaths hpaths
  | focus hpath => exact h.focus hpath
  | setFailed hk failed => exact h.setFailed hk failed
  | markParsed hk revision => exact h.markParsed hk revision stamp
  | flagProject project => exact h.flagProject project

theorem Same.takesStamp (h : ds.Same es) (hop : op.Same op') :
    ds.takesStamp op = es.takesStamp op' := by
  cases hop with
  | markParsed hk revision => exact h.isOpen hk
  | _ => rfl

end Documents

/-! ## Buffers -/

structure Buffer.Same (b c : Buffer) : Prop where
  path : b.path.Same c.path
  content : b.content = c.content

structure Buffers.Same (bs cs : Buffers) : Prop where
  entries : List.Forall₂ Buffer.Same bs.entries cs.entries
  changedAt : bs.changedAt = cs.changedAt

namespace Buffers

variable {bs cs : Buffers} {p q : Path}

theorem Same.find? (h : bs.Same cs) (hp : p.Same q) :
    Option.Rel Buffer.Same (bs.find? p) (cs.find? q) :=
  rel_find? h.entries fun _ _ hbc => decide_eq_decide.2 (hbc.path.same_iff hp)

theorem Same.isUnsaved (h : bs.Same cs) (hp : p.Same q) : bs.isUnsaved p = cs.isUnsaved q :=
  isSome_eq_of_rel (h.find? hp)

theorem Same.put (h : bs.Same cs) (hp : p.Same q) (content : String) (stamp : Stamp) :
    (bs.put p content stamp).Same (cs.put q content stamp) := by
  refine ⟨?_, rfl⟩
  simp only [Buffers.put, h.isUnsaved hp]
  split
  · exact rel_map_ite h.entries (fun b c hbc => hbc.path.same_iff hp)
      fun b c hbc => ⟨hbc.path, rfl⟩
  · exact List.rel_append h.entries (.cons ⟨hp, rfl⟩ .nil)

theorem Same.remove (h : bs.Same cs) (hp : p.Same q) (stamp : Stamp) :
    (bs.remove p stamp).Same (cs.remove q stamp) := by
  rw [Buffers.remove, Buffers.remove, h.isUnsaved hp]
  split
  · refine ⟨List.rel_filter (fun b c hbc => ?_) h.entries, rfl⟩
    simpa using not_congr (hbc.path.same_iff hp)
  · exact h

end Buffers

/-! ## Registries -/

structure Activity.Same (a b : Activity) : Prop where
  active : Option.Rel Path.Same a.active b.active
  visible : List.Forall₂ Path.Same a.visible b.visible

namespace Registry

/-- Two registries that differ at most in how their paths are spelled. -/
structure Same (reg other : Registry) : Prop where
  clock : reg.clock = other.clock
  documents : reg.documents.Same other.documents
  projects : reg.projects = other.projects
  buffers : reg.buffers.Same other.buffers

/-- Two commands that differ at most in how their paths are spelled. -/
inductive Command.Same : Command → Command → Prop
  | openDocument {k l : DocumentKey} (h : k.Same l) :
    Command.Same (.openDocument k) (.openDocument l)
  | onDocuments {op op' : Documents.Op} (h : op.Same op') :
    Command.Same (.onDocuments op) (.onDocuments op')
  | configureProject (id : ProjectId) (arguments : List String) :
    Command.Same (.configureProject id arguments) (.configureProject id arguments)
  | putProject (id : ProjectId) (arguments : List String) :
    Command.Same (.putProject id arguments) (.putProject id arguments)
  | removeProject (id : ProjectId) : Command.Same (.removeProject id) (.removeProject id)
  | putBuffer {p q : Path} (h : p.Same q) (content : String) :
    Command.Same (.putBuffer p content) (.putBuffer q content)
  | removeBuffer {p q : Path} (h : p.Same q) : Command.Same (.removeBuffer p) (.removeBuffer q)
  | showActivity {a b : Activity} (h : a.Same b) :
    Command.Same (.showActivity a) (.showActivity b)
  | takeStamp : Command.Same .takeStamp .takeStamp

variable {reg other : Registry} {c c' : Command}

theorem Same.onDocuments (h : reg.Same other) {op op' : Documents.Op} (hop : op.Same op') :
    (reg.onDocuments op).Same (other.onDocuments op') where
  clock := by simp only [Registry.onDocuments, h.clock, h.documents.takesStamp hop]
  documents := by
    rw [Registry.onDocuments, Registry.onDocuments, h.clock]
    exact h.documents.apply hop _
  projects := h.projects
  buffers := h.buffers

theorem Same.putProject (h : reg.Same other) (id : ProjectId) (arguments : List String) :
    (reg.putProject id arguments).Same (other.putProject id arguments) where
  clock := congrArg Clock.advance h.clock
  documents := h.documents
  projects := by simp only [Registry.putProject, h.clock, h.projects]
  buffers := h.buffers

theorem Same.after (h : reg.Same other) (hc : c.Same c') : (reg.after c).Same (other.after c') := by
  cases hc with
  | openDocument hk => exact h.onDocuments (.openDocument hk)
  | onDocuments hop => exact h.onDocuments hop
  | configureProject id arguments =>
    exact (h.putProject id arguments).onDocuments (.flagProject id)
  | putProject id arguments => exact h.putProject id arguments
  | removeProject id =>
    exact ⟨h.clock, h.documents, congrArg (·.remove id) h.projects, h.buffers⟩
  | @putBuffer p q hp content =>
    refine ⟨congrArg Clock.advance h.clock, h.documents, h.projects, ?_⟩
    have hput := h.buffers.put hp content reg.clock.next
    simpa only [Registry.after, Registry.putBuffer, h.clock] using hput
  | @removeBuffer p q hp =>
    refine ⟨?_, h.documents, h.projects, ?_⟩
    · simp only [Registry.after, Registry.removeBuffer, h.clock, h.buffers.isUnsaved hp]
    · have hremove := h.buffers.remove hp reg.clock.next
      simpa only [Registry.after, Registry.removeBuffer, h.clock] using hremove
  | showActivity ha => exact (h.onDocuments (.focus ha.active)).onDocuments (.showPaths ha.visible)
  | takeStamp => exact ⟨congrArg Clock.advance h.clock, h.documents, h.projects, h.buffers⟩

theorem Same.documentsReply (h : reg.Same other) {op op' : Documents.Op} (hop : op.Same op') :
    reg.documentsReply op = other.documentsReply op' := by
  cases hop with
  | edit hk =>
    refine congrArg Reply.revision (option_map_eq_of_rel (h.documents.find? hk) ?_)
    rintro d e ⟨k, -, rfl⟩
    rfl
  | close hk | setFailed hk | markParsed hk => exact congrArg Reply.flag (h.documents.isOpen hk)
  | flagProject project => exact congrArg Reply.count (h.documents.countOf project)
  | _ => rfl

theorem Same.reply (h : reg.Same other) (hc : c.Same c') : reg.reply c = other.reply c' := by
  cases hc with
  | onDocuments hop => exact h.documentsReply hop
  | configureProject | putProject | takeStamp => exact congrArg (Reply.stamp ·.next) h.clock
  | removeProject id => exact congrArg (Reply.flag <| ·.isKnown id) h.projects
  | removeBuffer hp => exact congrArg Reply.flag (h.buffers.isUnsaved hp)
  | _ => rfl

end Registry

end AnalysisJobs
