import AnalysisJobs.Proofs.Registry.Spelling
import AnalysisJobs.Session
/-!
# Two sessions that differ in spelling

A queue judges its requests by their documents, and these it finds by the components of their
paths.  Two sessions whose callers say the same with other spellings therefore give the same
answers: what is dropped, what is started and what waits agree position by position.
-/

namespace AnalysisJobs

theorem rel_mergeSort {α β : Type} {R : α → β → Prop} {l : List α} {m : List β}
    (h : List.Forall₂ R l m) {le : α → α → Bool} {le' : β → β → Bool}
    (hle : ∀ a a' b b', R a b → R a' b' → le a a' = le' b b') :
    List.Forall₂ R (l.mergeSort le) (m.mergeSort le') := by
  -- both lists are sorted by sorting the pairs
  have hpairs : ∀ x ∈ l.zip m, R x.1 x.2 := fun x hx => List.forall₂_zip h hx
  have hfst := List.map_mergeSort (r := fun x y : α × β => le x.1 y.1) (s := le) (f := Prod.fst)
    (l := l.zip m) fun _ _ _ _ => rfl
  have hsnd := List.map_mergeSort (r := fun x y : α × β => le x.1 y.1) (s := le') (f := Prod.snd)
    (l := l.zip m) fun x hx y hy => hle _ _ _ _ (hpairs x hx) (hpairs y hy)
  rw [List.map_fst_zip (Nat.le_of_eq h.length_eq)] at hfst
  rw [List.map_snd_zip (Nat.le_of_eq h.length_eq.symm)] at hsnd
  rw [← hfst, ← hsnd, List.forall₂_map_left_iff, List.forall₂_map_right_iff, List.forall₂_same]
  exact fun x hx => hpairs x (List.mem_mergeSort.1 hx)

/-! ## Requests -/

structure View.Same (view other : View) : Prop where
  document : ∀ k l, k.Same l → Option.Rel Document.Same (view.document k) (other.document l)
  projectChange : view.projectChange = other.projectChange
  buffersChange : view.buffersChange = other.buffersChange

theorem Registry.Same.view {reg other : Registry} (h : reg.Same other) :
    reg.view.Same other.view where
  document _ _ hk := h.documents.find? hk
  projectChange := by rw [Registry.view, Registry.view, h.projects]
  buffersChange := h.buffers.changedAt

namespace Request

variable {r s : Request} {view other : View} {k l : DocumentKey}

theorem same_iff : r.Same s ↔ ∃ k, r.key.Same k ∧ s = { r with key := k } := by
  constructor
  · exact fun h => ⟨s.key, h.1, h.2.symm⟩
  · rintro ⟨k, hk, rfl⟩
    exact ⟨hk, rfl⟩

theorem same_make (h : view.Same other) (hk : k.Same l) (kind : Kind) :
    (make kind k view).Same (make kind l other) := by
  have hfield {α : Type} (field : Document → α)
      (hkey : ∀ (d : Document) k', field { d with key := k' } = field d) :
      (view.document k).map field = (other.document l).map field := by
    refine option_map_eq_of_rel (h.document k l hk) ?_
    rintro d e ⟨k', -, rfl⟩
    exact (hkey d k').symm
  have hrevision := hfield Document.revision fun _ _ => rfl
  have hopened := hfield Document.openedAt fun _ _ => rfl
  refine ⟨hk, ?_⟩
  simp only [make, hrevision, hopened, h.buffersChange, h.projectChange,
    (DocumentKey.same_iff.1 hk).2]

theorem Same.check (h : r.Same s) (hview : view.Same other) (part : Part) :
    r.check view part = s.check other part := by
  obtain ⟨k, hk, rfl⟩ := same_iff.1 h
  cases part with
  | document =>
    rw [Request.check, Request.check]
    match view.document r.key, other.document k, hview.document r.key k hk with
    | none, none, .none => rfl
    | some d, some e, .some ⟨_, _, he⟩ => exact he ▸ rfl
  | buffers =>
    rw [Request.check, Request.check, hview.buffersChange]
    rfl
  | project =>
    rw [Request.check, Request.check, hview.projectChange, (DocumentKey.same_iff.1 hk).2]
    rfl

theorem Same.examine (h : r.Same s) (hview : view.Same other) (parts : List Part) :
    r.examine view parts = s.examine other parts := by
  have hreads (part : Part) : r.readsPart part = s.readsPart part := by
    obtain ⟨k, -, rfl⟩ := same_iff.1 h
    cases part <;> rfl
  induction parts with
  | nil => rfl
  | cons part rest ih => rw [Request.examine, Request.examine, hreads, h.check hview, ih]

theorem Same.staleness (h : r.Same s) (hview : view.Same other) :
    r.staleness view = s.staleness other :=
  congrArg Prod.snd (h.examine hview stages)

theorem Same.priority (h : r.Same s) (hview : view.Same other) :
    r.priority view = s.priority other := by
  rw [Request.priority, Request.priority]
  match view.document r.key, other.document s.key, hview.document r.key s.key h.1 with
  | none, none, .none => rfl
  | some d, some e, .some ⟨_, _, he⟩ => exact he ▸ rfl

end Request

/-! ## Passes -/

structure Selection.Same (x y : Selection) : Prop where
  batch : List.Forall₂ Request.Same x.batch y.batch
  left : List.Forall₂ Request.Same x.left y.left
  asked : List.Forall₂ Request.Same x.asked y.asked

structure Pass.Same (p q : Pass) : Prop where
  dropped : List.Forall₂ (fun d e => d.1.Same e.1 ∧ d.2 = e.2) p.dropped q.dropped
  selection : p.selection.Same q.selection

structure Queue.Same (p q : Queue) : Prop where
  pending : List.Forall₂ Request.Same p.pending q.pending
  settings : p.settings = q.settings

section Passes

variable {view other : View} {running running' : DocumentKey → Bool}

theorem same_select (hview : view.Same other) (settings : Settings)
    (hrunning : ∀ k l, k.Same l → running k = running' l) {taken taken' : List DocumentKey}
    (htaken : List.Forall₂ DocumentKey.Same taken taken') {rs ss : List Request}
    (h : List.Forall₂ Request.Same rs ss) :
    (select settings view running taken rs).Same (select settings other running' taken' ss) := by
  induction h generalizing taken taken' with
  | nil => exact ⟨.nil, .nil, .nil⟩
  | @cons r s rs ss hrs _ ih =>
    have hsame := ih htaken
    have htaken' := ih (List.Forall₂.cons hrs.1 htaken)
    have hany : (taken.any fun k => k.Same r.key) = taken'.any fun k => k.Same s.key :=
      any_eq_of_rel htaken fun k l hkl => decide_eq_decide.2 (hkl.same_iff hrs.1)
    rw [select, select, htaken.length_eq, hany, hrunning _ _ hrs.1, hrs.priority hview]
    split
    · exact ⟨hsame.batch, .cons hrs hsame.left, hsame.asked⟩
    split
    · exact ⟨hsame.batch, .cons hrs hsame.left, hsame.asked⟩
    split
    · exact ⟨hsame.batch, .cons hrs hsame.left, .cons hrs hsame.asked⟩
    split
    · exact ⟨hsame.batch, .cons hrs hsame.left, .cons hrs hsame.asked⟩
    · exact ⟨.cons hrs htaken'.batch, htaken'.left, .cons hrs htaken'.asked⟩

theorem same_sortByPriority (hview : view.Same other) {rs ss : List Request}
    (h : List.Forall₂ Request.Same rs ss) :
    List.Forall₂ Request.Same (Queue.sortByPriority view rs) (Queue.sortByPriority other ss) := by
  refine rel_mergeSort h fun r r' s s' hrs hrs' => ?_
  rw [Queue.urgent, Queue.urgent, hrs.priority hview, hrs'.priority hview]

namespace Queue

variable {p q : Queue}

theorem Same.stale (h : p.Same q) (hview : view.Same other) :
    List.Forall₂ (fun d e => d.1.Same e.1 ∧ d.2 = e.2) (p.stale view) (q.stale other) := by
  refine List.rel_filterMap (R := Request.Same) (fun {r s} hrs => ?_) h.pending
  rw [hrs.staleness hview]
  cases s.staleness other with
  | none => exact .none
  | some reason => exact .some ⟨hrs, rfl⟩

theorem Same.fresh (h : p.Same q) (hview : view.Same other) :
    List.Forall₂ Request.Same (p.fresh view) (q.fresh other) := by
  refine List.rel_filter (fun r s hrs => ?_) h.pending
  have hstale : r.isStale view = s.isStale other := congrArg Option.isSome (hrs.staleness hview)
  simp only [hstale]

theorem Same.pass (h : p.Same q) (hview : view.Same other)
    (hrunning : ∀ k l, k.Same l → running k = running' l) :
    (p.pass view running).Same (q.pass other running') where
  dropped := h.stale hview
  selection := by
    rw [Queue.pass, Queue.pass, h.settings]
    exact same_select hview _ hrunning .nil (same_sortByPriority hview (h.fresh hview))

end Queue

end Passes

/-! ## Sessions -/

namespace Session

/-- Two sessions that differ at most in how their paths are spelled. -/
structure Same (m n : Session) : Prop where
  registry : m.registry.Same n.registry
  queue : m.queue.Same n.queue

/-- Two actions that differ at most in how their paths are spelled; what a pass is told of the
running documents does not depend on the spelling. -/
inductive Action.Same : Action → Action → Prop
  | command {c c' : Registry.Command} (h : c.Same c') : Action.Same (.command c) (.command c')
  | add {r s : Request} (h : r.Same s) : Action.Same (.add r) (.add s)
  | enqueue (kind : Kind) {k l : DocumentKey} (h : k.Same l) :
    Action.Same (.enqueue kind k) (.enqueue kind l)
  | prioritize : Action.Same .prioritize .prioritize
  | pass {running running' : DocumentKey → Bool} (h : ∀ k l, k.Same l → running k = running' l) :
    Action.Same (.pass running) (.pass running')

inductive Answer.Same : Answer → Answer → Prop
  | registry (r : Registry.Reply) : Answer.Same (.registry r) (.registry r)
  | size (n : Nat) : Answer.Same (.size n) (.size n)
  | order {rs ss : List Request} (h : List.Forall₂ Request.Same rs ss) :
    Answer.Same (.order rs) (.order ss)
  | passed {p q : Pass} (h : p.Same q) : Answer.Same (.passed p) (.passed q)

variable {m n : Session} {a b : Action}

theorem Same.add (h : m.Same n) {r s : Request} (hrs : r.Same s) :
    (m.add r).1.Same (n.add s).1 ∧ (m.add r).2.1.Same (n.add s).2.1 := by
  have hpending : List.Forall₂ Request.Same (m.queue.pending ++ [r]) (n.queue.pending ++ [s]) :=
    List.rel_append h.queue.pending (.cons hrs .nil)
  refine ⟨⟨h.registry, hpending, h.queue.settings⟩, ?_⟩
  have hsize : (m.queue.add r).size = (n.queue.add s).size := hpending.length_eq
  rw [Session.add, Session.add, hsize]
  exact .size _

theorem Same.act (h : m.Same n) (hab : a.Same b) :
    (m.act a).1.Same (n.act b).1 ∧ (m.act a).2.1.Same (n.act b).2.1 := by
  have hview := h.registry.view
  cases hab with
  | @command c c' hc =>
    refine ⟨⟨h.registry.after hc, h.queue⟩, ?_⟩
    simp only [Session.act, h.registry.reply hc]
    exact .registry _
  | add hrs => exact h.add hrs
  | enqueue kind hk => exact h.add (Request.same_make hview hk kind)
  | prioritize =>
    have hsorted := same_sortByPriority hview h.queue.pending
    exact ⟨⟨h.registry, hsorted, h.queue.settings⟩, .order hsorted⟩
  | pass hrunning =>
    have hpass := h.queue.pass hview hrunning
    exact ⟨⟨h.registry, hpass.selection.left, h.queue.settings⟩, .passed hpass⟩

theorem Same.run (h : m.Same n) {actions others : List Action}
    (hactions : List.Forall₂ Action.Same actions others) :
    (m.run actions).1.Same (n.run others).1 ∧
      List.Forall₂ Answer.Same (m.run actions).2 (n.run others).2 := by
  induction hactions generalizing m n with
  | nil => exact ⟨h, .nil⟩
  | cons hab _ ih =>
    obtain ⟨hfirst, hanswer⟩ := h.act hab
    obtain ⟨hlast, hanswers⟩ := ih hfirst
    exact ⟨hlast, .cons hanswer hanswers⟩

/-- What can be read of two sessions agrees, up to the spelling of paths. -/
structure Alike (m n : Session) : Prop where
  found : ∀ k l, k.Same l → Option.Rel Document.Same (m.registry.documents.find? k)
    (n.registry.documents.find? l)
  documents : List.Forall₂ Document.Same m.registry.documents.toList n.registry.documents.toList
  keys : List.Forall₂ DocumentKey.Same m.registry.documents.keys n.registry.documents.keys
  dirty : List.Forall₂ DocumentKey.Same m.registry.documents.dirty n.registry.documents.dirty
  counts : m.registry.documents.counts = n.registry.documents.counts
  buffer : ∀ p q, p.Same q → Option.Rel Buffer.Same (m.registry.buffers.find? p)
    (n.registry.buffers.find? q)
  buffersChange : m.registry.buffers.changedAt = n.registry.buffers.changedAt
  projects : m.registry.projects = n.registry.projects
  requests : List.Forall₂ Request.Same m.queue.pending n.queue.pending
  sizes : m.registry.documents.size = n.registry.documents.size ∧
    m.registry.buffers.size = n.registry.buffers.size ∧ m.queue.size = n.queue.size
  made : ∀ kind k l, k.Same l →
    (Request.make kind k m.registry.view).Same (.make kind l n.registry.view)
  judged : ∀ r s : Request, r.Same s →
    r.staleness m.registry.view = s.staleness n.registry.view ∧
      r.priority m.registry.view = s.priority n.registry.view

theorem Same.alike (h : m.Same n) : m.Alike n where
  found _ _ hk := h.registry.documents.find? hk
  documents := List.rel_map (fun _ _ hst => hst.document) h.registry.documents.slots
  keys := h.registry.documents.keys
  dirty := h.registry.documents.dirty
  counts := h.registry.documents.counts
  buffer _ _ hp := h.registry.buffers.find? hp
  buffersChange := h.registry.buffers.changedAt
  projects := h.registry.projects
  requests := h.queue.pending
  sizes := ⟨h.registry.documents.slots.length_eq, h.registry.buffers.entries.length_eq,
    h.queue.pending.length_eq⟩
  made kind _ _ hk := Request.same_make h.registry.view hk kind
  judged _ _ hrs := ⟨hrs.staleness h.registry.view, hrs.priority h.registry.view⟩

/-- Spelling never matters: actions that differ only in how their paths are spelled get the
same answers, and what can be read afterwards agrees, up to the spelling of paths. -/
theorem alike_of_spelling {m n : Session} (h : m.Same n) {actions others : List Action}
    (hactions : List.Forall₂ Action.Same actions others) :
    List.Forall₂ Answer.Same (m.run actions).2 (n.run others).2 ∧
      (m.run actions).1.Alike (n.run others).1 := by
  obtain ⟨hlast, hanswers⟩ := h.run hactions
  exact ⟨hanswers, hlast.alike⟩

/-- A document that is opened, shown, asked for and edited under changing spellings. -/
theorem alike_of_spelling_shown :
    let p : Path := ⟨"/src//a.cpp"⟩
    let q : Path := ⟨"/src/./a.cpp"⟩
    let calls (first second : Path) : List Action :=
      [.command (.configureProject "a" []), .command (.openDocument ⟨first, "a"⟩),
        .command (.showActivity ⟨some second, [second]⟩), .enqueue .updateAnnotations ⟨second, "a"⟩,
        .command (.onDocuments (.edit ⟨second, "a"⟩)), .enqueue .updateAnnotations ⟨first, "a"⟩,
        .command (.putBuffer second ""), .enqueue .completeCode ⟨first, "a"⟩,
        .pass fun k => k.path.Same ⟨"/src/b.cpp"⟩]
    let m := (new (.default 1)).run (calls p q)
    let n := (new (.default 1)).run (calls q p)
    m.1.registry.documents.keys = [⟨p, "a"⟩] ∧ n.1.registry.documents.keys = [⟨q, "a"⟩] ∧
      m.1.registry.documents.dirty = [⟨p, "a"⟩] ∧ m ≠ n ∧
      List.Forall₂ Answer.Same m.2 n.2 ∧ m.1.Alike n.1 := by
  intro p q calls m n
  have hpq : p.Same q := by decide +kernel
  have hkey (first second : Path) (h : first.Same second) :
      DocumentKey.Same ⟨first, "a"⟩ ⟨second, "a"⟩ := DocumentKey.same_iff.2 ⟨h, rfl⟩
  have hrunning (k l : DocumentKey) (h : k.Same l) :
      decide (k.path.Same ⟨"/src/b.cpp"⟩) = decide (l.path.Same ⟨"/src/b.cpp"⟩) :=
    decide_eq_decide.2 ((DocumentKey.same_iff.1 h).1.same_iff (Path.same_refl _))
  have hcalls : List.Forall₂ Action.Same (calls p q) (calls q p) :=
    .cons (.command (.configureProject _ _)) <|
    .cons (.command (.openDocument (hkey p q hpq))) <|
    .cons (.command (.showActivity ⟨.some hpq.symm, .cons hpq.symm .nil⟩)) <|
    .cons (.enqueue _ (hkey q p hpq.symm)) <|
    .cons (.command (.onDocuments (.edit (hkey q p hpq.symm)))) <|
    .cons (.enqueue _ (hkey p q hpq)) <|
    .cons (.command (.putBuffer hpq.symm _)) <|
    .cons (.enqueue _ (hkey p q hpq)) <|
    .cons (.pass hrunning) .nil
  have hnew : (new (.default 1)).Same (new (.default 1)) :=
    ⟨⟨rfl, ⟨.nil, rfl⟩, rfl, ⟨.nil, rfl⟩⟩, .nil, rfl⟩
  obtain ⟨hanswers, halike⟩ := alike_of_spelling hnew hcalls
  exact ⟨by decide +kernel, by decide +kernel, by decide +kernel, by decide +kernel, hanswers,
    halike⟩

end Session

end AnalysisJobs
