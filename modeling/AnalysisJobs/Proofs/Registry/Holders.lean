import AnalysisJobs.Proofs.Registry.Slots
import Mathlib.Data.List.Basic
import Mathlib.Data.List.Induction
/-!
# Stamps identify changes

Four kinds of things carry stamps: a copy carries the stamp of its opening and, once it was
parsed, the one of the parse, a project and the buffers that of their latest change.  A command
renews at most one of them (`Holder.same_of_renewed`), with a stamp that nobody carried before,
so no two ever carry the same.  The order of two stamps says which of the two changes came
first; this is what ties the parse of a clean copy to its project.
-/

namespace AnalysisJobs.Registry

/-! ## Parses -/

def parseStamp (key : DocumentKey) (reg : Registry) : Option Stamp :=
  ((reg.documents.find? key).map Document.lastParse).join

def parseChange (key : DocumentKey) (isOpen : Bool) : Documents.Op → Effect
  | .openDocument k | .close k => if k.Same key then .gone else .kept
  | .markParsed k _ => if k.Same key ∧ isOpen = true then .renewed else .kept
  | _ => .kept

def parseEffect (key : DocumentKey) (reg : Registry) : Command → Effect
  | .openDocument k => parseChange key (reg.documents.isOpen key) (.openDocument k)
  | .onDocuments op => parseChange key (reg.documents.isOpen key) op
  | _ => .kept

theorem lastParse_onCopy (key : DocumentKey) (stamp : Stamp) (document : Option Document)
    (op : Documents.Op) :
    ((op.onCopy key stamp document).map Document.lastParse).join =
      (parseChange key document.isSome op).stamp (document.map Document.lastParse).join stamp := by
  cases op with
  | openDocument k =>
    rw [Documents.Op.onCopy, parseChange]
    split
    · cases document <;> rfl
    · rfl
  | close k =>
    rw [Documents.Op.onCopy, parseChange]
    split <;> rfl
  | markParsed k revision =>
    rw [Documents.Op.onCopy, parseChange]
    cases document with
    | none => simp [Effect.stamp]
    | some d =>
      by_cases hk : k.Same key
      · simp [hk, Effect.stamp, Document.parsed]
      · simp [hk, Effect.stamp]
  | edit k | setFailed k failed =>
    refine congrArg Option.join ?_
    apply map_field_ite
    exact fun _ => rfl
  | showPaths paths | focus path =>
    refine congrArg Option.join ?_
    apply map_field_map
    exact fun _ => rfl
  | flagProject project =>
    refine congrArg Option.join ?_
    apply map_field_map
    intro d
    split <;> rfl

theorem markParsed_of_parseChange {key : DocumentKey} {isOpen : Bool} {op : Documents.Op}
    (h : parseChange key isOpen op = .renewed) :
    ∃ k revision, op = .markParsed k revision ∧ k.Same key ∧ isOpen = true := by
  cases op with
  | markParsed k revision =>
    refine ⟨k, revision, rfl, ?_⟩
    by_contra hnot
    rw [parseChange, if_neg hnot] at h
    cases h
  | openDocument k | close k =>
    rw [parseChange] at h
    split at h <;> cases h
  | _ => cases h

theorem markParsed_of_parseEffect {key : DocumentKey} {reg : Registry} {c : Command}
    (h : parseEffect key reg c = .renewed) :
    ∃ k revision, c = .onDocuments (.markParsed k revision) ∧ k.Same key ∧
      reg.documents.isOpen key = true := by
  cases c with
  | openDocument k =>
    rw [parseEffect] at h
    obtain ⟨l, revision, hl, -⟩ := markParsed_of_parseChange h
    cases hl
  | onDocuments op =>
    obtain ⟨k, revision, rfl, hk, hopen⟩ := markParsed_of_parseChange h
    exact ⟨k, revision, rfl, hk, hopen⟩
  | _ => cases h

theorem tracked_parse (key : DocumentKey) : Tracked (parseStamp key) (parseEffect key) where
  read_after reg c := by
    have hchange := lastParse_onCopy key reg.clock.next
    rw [parseStamp, find?_after]
    cases c with
    | openDocument k => exact hchange _ (.openDocument k)
    | onDocuments op => exact hchange _ op
    | configureProject id arguments => exact hchange _ (.flagProject id)
    | showActivity activity =>
      exact (hchange _ (.showPaths activity.visible)).trans (hchange _ (.focus activity.active))
    | _ => rfl
  clock_after reg c hc := by
    obtain ⟨k, revision, rfl, hk, hopen⟩ := markParsed_of_parseEffect hc
    have htakes : reg.documents.takesStamp (.markParsed k revision) = true :=
      (Documents.isOpen_congr _ hk).trans hopen
    rw [after, onDocuments, if_pos htakes]

/-! ## Holders -/

/-- What carries a stamp. -/
inductive Holder
  | copy (key : DocumentKey)
  | parse (key : DocumentKey)
  | project (id : ProjectId)
  | buffers

/-- The one holder that a command may renew. -/
def Command.renews? : Command → Option Holder
  | .openDocument k | .onDocuments (.openDocument k) => some (.copy k)
  | .onDocuments (.markParsed k _) => some (.parse k)
  | .configureProject id _ | .putProject id _ => some (.project id)
  | .putBuffer .. | .removeBuffer _ => some .buffers
  | _ => none

namespace Holder

/-- What a holder is, free of the spelling of its path. -/
def identity : Holder → Nat × List Component × ProjectId
  | copy key => (0, key.identity)
  | parse key => (1, key.identity)
  | project id => (2, [], id)
  | buffers => (3, [], "")

def Same (h i : Holder) : Prop := h.identity = i.identity

theorem same_copy {k l : DocumentKey} : (copy k).Same (copy l) ↔ k.Same l := by
  simp [Same, identity, DocumentKey.Same]

theorem same_parse {k l : DocumentKey} : (parse k).Same (parse l) ↔ k.Same l := by
  simp [Same, identity, DocumentKey.Same]

theorem same_project {i j : ProjectId} : (project i).Same (project j) ↔ i = j := by
  simp [Same, identity]

def stamp : Holder → Registry → Option Stamp
  | copy key => copyStamp key
  | parse key => parseStamp key
  | project id => projectStamp id
  | buffers => fun reg => some reg.buffers.changedAt

def effect : Holder → Registry → Command → Effect
  | copy key => fun _ => copyEffect key
  | parse key => parseEffect key
  | project id => fun _ => projectEffect id
  | buffers => buffersEffect

theorem tracked (h : Holder) : Tracked h.stamp h.effect :=
  match h with
  | copy key => tracked_copy key
  | parse key => tracked_parse key
  | project id => tracked_project id
  | buffers => tracked_buffers

theorem renews_of_effect {h : Holder} {reg : Registry} {c : Command}
    (hc : h.effect reg c = .renewed) : ∃ i, c.renews? = some i ∧ i.Same h := by
  cases h with
  | copy key =>
    obtain ⟨k, hk, rfl | rfl⟩ := openDocument_of_copyEffect hc
    all_goals exact ⟨.copy k, rfl, same_copy.2 hk⟩
  | parse key =>
    obtain ⟨k, revision, rfl, hk, -⟩ := markParsed_of_parseEffect hc
    exact ⟨.parse k, rfl, same_parse.2 hk⟩
  | project id =>
    obtain ⟨arguments, rfl | rfl⟩ := putProject_of_projectEffect hc
    all_goals exact ⟨.project id, rfl, rfl⟩
  | buffers =>
    cases c with
    | putBuffer path content => exact ⟨.buffers, rfl, rfl⟩
    | removeBuffer path => exact ⟨.buffers, rfl, rfl⟩
    | _ => cases hc

theorem same_of_renewed {h i : Holder} {reg : Registry} {c : Command}
    (hh : h.effect reg c = .renewed) (hi : i.effect reg c = .renewed) : h.Same i := by
  obtain ⟨j, hj, hjh⟩ := renews_of_effect hh
  obtain ⟨k, hk, hki⟩ := renews_of_effect hi
  obtain rfl : j = k := Option.some.inj (hj.symm.trans hk)
  exact hjh.symm.trans hki

theorem dates_run {commands : List Command}
    (hclock : (new.run commands).clock.taken < UInt64.size) (h : Holder) :
    ∀ s, h.stamp (new.run commands) = some s → (new.run commands).Dates s :=
  match h with
  | copy key => dates_copy hclock key
  | parse key => (tracked_parse key).dates_run nofun hclock
  | project id => dates_project hclock id
  | buffers => fun _ hs => Option.some.inj hs ▸ dates_buffers hclock

end Holder

/-! ## Stamps of two things -/

section Pairs

variable {read read' : Registry → Option Stamp} {effect effect' : Registry → Command → Effect}
  {reg : Registry} {commands : List Command} {s t : Stamp}

theorem Dates.isAfter_origin (h : reg.Dates s) : s.isAfter .origin = true := by
  rw [Stamp.isAfter, decide_eq_true_eq, UInt64.lt_iff_toNat_lt]
  exact h.1

theorem Dates.isAfter_next (h : reg.Dates s) (hclock : reg.clock.taken < UInt64.size - 1) :
    reg.clock.next.isAfter s = true := by
  rw [Stamp.isAfter, decide_eq_true_eq, UInt64.lt_iff_toNat_lt, Clock.toNat_next hclock]
  exact Nat.lt_succ_of_le h.2

theorem Dates.run (h : reg.Dates s) (later : List Command) : (reg.run later).Dates s :=
  ⟨h.1, Nat.le_trans h.2 (taken_le_run reg later)⟩

theorem ne_of_isAfter (h : s.isAfter t = true) : s ≠ t := by
  rintro rfl
  simp [Stamp.isAfter] at h

/-- Two things that are never renewed together do not come to carry one stamp. -/
theorem Tracked.distinct_run (h : Tracked read effect) (h' : Tracked read' effect')
    (hone : ∀ reg c, effect reg c = .renewed → effect' reg c ≠ .renewed)
    (hdates : ∀ s, read reg = some s → reg.Dates s)
    (hdates' : ∀ s, read' reg = some s → reg.Dates s)
    (hdistinct : ∀ s, read reg = some s → read' reg ≠ some s)
    (hclock : (reg.run commands).clock.taken < UInt64.size - 1) :
    ∀ s, read (reg.run commands) = some s → read' (reg.run commands) ≠ some s := by
  induction commands generalizing reg with
  | nil => exact hdistinct
  | cons c rest ih =>
    have hle := taken_le_after reg c
    have hlater := taken_le_run (reg.after c) rest
    rw [run_cons] at hclock
    have hfirst : (reg.after c).clock.taken < UInt64.size := by omega
    have hnow : reg.clock.taken < UInt64.size - 1 := by omega
    refine ih (h.dates_after hdates hfirst) (h'.dates_after hdates' hfirst) ?_ hclock
    intro s hs hs'
    rw [h.read_after] at hs
    rw [h'.read_after] at hs'
    rcases Effect.stamp_eq_some hs with ⟨-, hold⟩ | ⟨hc, hnext⟩ <;>
      rcases Effect.stamp_eq_some hs' with ⟨-, hold'⟩ | ⟨hc', hnext'⟩
    · exact hdistinct s hold hold'
    · exact ne_of_isAfter ((hdates s hold).isAfter_next hnow) hnext'
    · exact ne_of_isAfter ((hdates' s hold').isAfter_next hnow) hnext
    · exact hone reg c hc hc'

/-- A thing that is gone whenever another is renewed carries the later stamp. -/
theorem Tracked.isAfter_run (h : Tracked read effect) (h' : Tracked read' effect')
    (hgone : ∀ reg c, effect' reg c = .renewed → effect reg c = .gone)
    (hdates' : ∀ s, read' reg = some s → reg.Dates s)
    (hafter : ∀ s t, read reg = some s → read' reg = some t → s.isAfter t = true)
    (hclock : (reg.run commands).clock.taken < UInt64.size - 1) :
    ∀ s t, read (reg.run commands) = some s → read' (reg.run commands) = some t →
      s.isAfter t = true := by
  induction commands generalizing reg with
  | nil => exact hafter
  | cons c rest ih =>
    have hle := taken_le_after reg c
    have hlater := taken_le_run (reg.after c) rest
    rw [run_cons] at hclock
    have hfirst : (reg.after c).clock.taken < UInt64.size := by omega
    refine ih (h'.dates_after hdates' hfirst) ?_ hclock
    intro s t hs ht
    rw [h.read_after] at hs
    rw [h'.read_after] at ht
    rcases Effect.stamp_eq_some ht with ⟨-, hold'⟩ | ⟨hc', -⟩
    · rcases Effect.stamp_eq_some hs with ⟨-, hold⟩ | ⟨-, rfl⟩
      · exact hafter s t hold hold'
      · exact (hdates' t hold').isAfter_next (by omega)
    · rw [hgone reg c hc'] at hs
      cases hs

end Pairs

/-! ## The stamps of a registry -/

/-- Everything that may carry a stamp. -/
def holders (reg : Registry) : List Holder :=
  reg.documents.keys.map .copy ++ reg.documents.keys.map .parse ++
    reg.projects.entries.map (fun p => .project p.id) ++ [.buffers]

/-- The stamps that a registry holds: those of the copies, of their parses, of the projects
and of the buffers. -/
def stamps (reg : Registry) : List Stamp :=
  reg.documents.toList.map Document.openedAt ++ reg.documents.toList.filterMap Document.lastParse ++
    reg.projects.entries.map Project.changedAt ++ [reg.buffers.changedAt]

theorem filterMap_stamp_holders {reg : Registry} (hkeys : reg.documents.KeysApart)
    (hids : reg.projects.IdsApart) : reg.holders.filterMap (·.stamp reg) = reg.stamps := by
  have hcopies : (reg.documents.keys.map Holder.copy).filterMap (·.stamp reg) =
      reg.documents.toList.map Document.openedAt := by
    rw [Documents.keys, Documents.toList, List.filterMap_map, List.map_map, List.filterMap_map,
      ← List.filterMap_eq_map]
    refine List.filterMap_congr fun s hs => ?_
    simp [Holder.stamp, copyStamp, hkeys.find?_key hs]
  have hparses : (reg.documents.keys.map Holder.parse).filterMap (·.stamp reg) =
      reg.documents.toList.filterMap Document.lastParse := by
    rw [Documents.keys, Documents.toList, List.filterMap_map, List.filterMap_map,
      List.filterMap_map]
    refine List.filterMap_congr fun s hs => ?_
    simp [Holder.stamp, parseStamp, hkeys.find?_key hs]
  have hprojects : (reg.projects.entries.map fun p => Holder.project p.id).filterMap
      (·.stamp reg) = reg.projects.entries.map Project.changedAt := by
    rw [List.filterMap_map, ← List.filterMap_eq_map]
    refine List.filterMap_congr fun p hp => ?_
    simp [Holder.stamp, projectStamp, hids.find?_id hp]
  rw [holders, List.filterMap_append, List.filterMap_append, List.filterMap_append, hcopies,
    hparses, hprojects]
  rfl

theorem pairwise_holders {reg : Registry} (hkeys : reg.documents.KeysApart)
    (hids : reg.projects.IdsApart) : reg.holders.Pairwise fun h i => ¬ h.Same i := by
  have hcopies : (reg.documents.keys.map Holder.copy).Pairwise fun h i => ¬ h.Same i :=
    List.pairwise_map.2 (hkeys.imp fun hne h => hne (Holder.same_copy.1 h))
  have hparses : (reg.documents.keys.map Holder.parse).Pairwise fun h i => ¬ h.Same i :=
    List.pairwise_map.2 (hkeys.imp fun hne h => hne (Holder.same_parse.1 h))
  have hprojects : (reg.projects.entries.map fun p => Holder.project p.id).Pairwise
      fun h i => ¬ h.Same i :=
    List.pairwise_map.2 ((List.pairwise_map.1 hids).imp fun hne h => hne (Holder.same_project.1 h))
  -- holders of two kinds are told apart by their kind
  have hkinds {n : Nat} {front back : List Holder} (hfront : ∀ h ∈ front, h.identity.1 < n)
      (hback : ∀ i ∈ back, i.identity.1 = n) : ∀ h ∈ front, ∀ i ∈ back, ¬ h.Same i :=
    fun h hh i hi hsame => Nat.ne_of_lt (hfront h hh) (congrArg Prod.fst hsame ▸ hback i hi)
  rw [holders, List.pairwise_append, List.pairwise_append, List.pairwise_append]
  refine ⟨⟨⟨hcopies, hparses, hkinds (n := 1) ?_ ?_⟩, hprojects, hkinds (n := 2) ?_ ?_⟩,
    List.pairwise_singleton _ _, hkinds (n := 3) ?_ ?_⟩
  all_goals simp [or_imp, forall_and, Holder.identity]

theorem nodup_stamps {commands : List Command}
    (hclock : (new.run commands).clock.taken < UInt64.size - 1) :
    (new.run commands).stamps.Nodup := by
  have hkeys := keysApart_run commands
  have hids := idsApart_run commands
  rw [← filterMap_stamp_holders hkeys hids]
  refine List.pairwise_filterMap.2 ((pairwise_holders hkeys hids).imp ?_)
  intro h i hne s hs t ht hst
  have hnew (j : Holder) (u : Stamp) (hu : j.stamp new = some u) : j = .buffers := by
    cases j with
    | buffers => rfl
    | _ => cases hu
  have hstart : (new.run []).clock.taken < UInt64.size := by decide
  refine h.tracked.distinct_run i.tracked ?_ (h.dates_run hstart) (i.dates_run hstart) ?_ hclock
    s hs (hst ▸ ht)
  · exact fun _ _ hh hi => hne (Holder.same_of_renewed hh hi)
  · intro u hu hu'
    exact hne (hnew h u hu ▸ hnew i u hu' ▸ rfl)

theorem dates_of_mem_stamps {commands : List Command}
    (hclock : (new.run commands).clock.taken < UInt64.size) {s : Stamp}
    (hs : s ∈ (new.run commands).stamps) : (new.run commands).Dates s := by
  rw [← filterMap_stamp_holders (keysApart_run commands) (idsApart_run commands)] at hs
  obtain ⟨h, -, hh⟩ := List.mem_filterMap.1 hs
  exact h.dates_run hclock s hh

/-! ## Parses and what they came after -/

theorem openedAt_before_parse {commands : List Command}
    (hclock : (new.run commands).clock.taken < UInt64.size - 1) (key : DocumentKey) :
    ∀ s t, parseStamp key (new.run commands) = some s → copyStamp key (new.run commands) = some t →
      s.isAfter t = true := by
  refine (tracked_parse key).isAfter_run (tracked_copy key) ?_ nofun nofun hclock
  intro reg c hc
  obtain ⟨k, hk, rfl | rfl⟩ := openDocument_of_copyEffect hc
  all_goals exact if_pos hk

section Clean

variable {key : DocumentKey} {document : Option Document} {reg : Registry} {c : Command}

theorem clean_onCopy {stamp : Stamp} {op : Documents.Op} {d : Document}
    (hd : d ∈ op.onCopy key stamp document) (hclean : d.needsReparse = false) :
    (d.lastParse = some stamp ∧ ∃ k revision, op = .markParsed k revision ∧ k.Same key) ∨
      ∃ old ∈ document, old.needsReparse = false ∧ d.lastParse = old.lastParse := by
  have hsame (h : d ∈ document) :
      ∃ old ∈ document, old.needsReparse = false ∧ d.lastParse = old.lastParse :=
    ⟨d, h, hclean, rfl⟩
  cases op with
  | openDocument k =>
    rw [Documents.Op.onCopy] at hd
    split at hd
    · obtain rfl := Option.some.inj hd
      cases document <;> cases hclean
    · exact .inr (hsame hd)
  | edit k =>
    rw [Documents.Op.onCopy] at hd
    split at hd
    · obtain ⟨old, -, rfl⟩ := Option.map_eq_some_iff.1 hd
      cases hclean
    · exact .inr (hsame hd)
  | close k =>
    rw [Documents.Op.onCopy] at hd
    split at hd
    · cases hd
    · exact .inr (hsame hd)
  | setFailed k failed =>
    rw [Documents.Op.onCopy] at hd
    split at hd
    · obtain ⟨old, hold, rfl⟩ := Option.map_eq_some_iff.1 hd
      exact .inr ⟨old, hold, hclean, rfl⟩
    · exact .inr (hsame hd)
  | markParsed k revision =>
    rw [Documents.Op.onCopy] at hd
    split at hd
    · rename_i hk
      obtain ⟨old, -, rfl⟩ := Option.map_eq_some_iff.1 hd
      exact .inl ⟨rfl, k, revision, rfl, hk⟩
    · exact .inr (hsame hd)
  | showPaths paths | focus path =>
    obtain ⟨old, hold, rfl⟩ := Option.map_eq_some_iff.1 hd
    exact .inr ⟨old, hold, hclean, rfl⟩
  | flagProject project =>
    obtain ⟨old, hold, rfl⟩ := Option.map_eq_some_iff.1 hd
    split at hclean
    · cases hclean
    · rename_i hproject
      exact .inr ⟨old, hold, hclean, by rw [if_neg hproject]⟩

theorem clean_after {d : Document} (hd : d ∈ (reg.after c).documents.find? key)
    (hclean : d.needsReparse = false) :
    (d.lastParse = some reg.clock.next ∧ c.RecordsParse key) ∨
      ∃ old ∈ reg.documents.find? key, old.needsReparse = false ∧
        d.lastParse = old.lastParse := by
  refine find?_after_induction (c := c) (P := fun document => ∀ d ∈ document,
    d.needsReparse = false → (d.lastParse = some reg.clock.next ∧ c.RecordsParse key) ∨
      ∃ old ∈ reg.documents.find? key, old.needsReparse = false ∧ d.lastParse = old.lastParse)
    ?_ ?_ d hd hclean
  · exact fun d hd hclean => .inr ⟨d, hd, hclean, rfl⟩
  · intro op hop document ih d hd hclean
    rcases clean_onCopy hd hclean with ⟨hparse, k, revision, rfl, hk⟩ | ⟨old, hold, hclean', hparse⟩
    · exact .inl ⟨hparse, recordsParse_of_mem_changes hop hk⟩
    · exact hparse ▸ ih old hold hclean'

/-- The copy of a document is clean only after a parse that came after the latest change of
its project. -/
structure CleanAfterProject (key : DocumentKey) (reg : Registry) : Prop where
  own : ∀ d ∈ reg.documents.find? key, d.key.Same key
  parsed : ∀ d ∈ reg.documents.find? key, d.needsReparse = false →
    ∃ s ∈ d.lastParse, ∀ t ∈ projectStamp key.project reg, s.isAfter t = true

theorem CleanAfterProject.after (h : CleanAfterProject key reg)
    (hdates : ∀ t, projectStamp key.project reg = some t → reg.Dates t)
    (hclock : reg.clock.taken < UInt64.size - 1)
    (hproject : ∀ id arguments, c ≠ .putProject id arguments) :
    CleanAfterProject key (reg.after c) where
  own := ownKey_after h.own c
  parsed d hd hclean := by
    rcases clean_after hd hclean with ⟨hparse, hrecords⟩ | ⟨old, hold, hclean', hparse⟩
    · -- a command that records a parse leaves the projects
      refine ⟨reg.clock.next, hparse, fun t ht => ?_⟩
      cases c with
      | onDocuments op => exact (hdates t ht).isAfter_next hclock
      | _ => cases hrecords
    · obtain ⟨s, hs, hlater⟩ := h.parsed old hold hclean'
      refine ⟨s, hparse ▸ hs, fun t ht => ?_⟩
      rw [(tracked_project key.project).read_after] at ht
      rcases Effect.stamp_eq_some ht with ⟨-, ht'⟩ | ⟨hc, -⟩
      · exact hlater t ht'
      · -- a project that is configured leaves no copy clean
        obtain ⟨arguments, rfl | rfl⟩ := putProject_of_projectEffect hc
        · rw [needsReparse_configureProject h.own arguments d hd] at hclean
          cases hclean
        · exact absurd rfl (hproject _ arguments)

theorem cleanAfterProject_run {commands : List Command}
    (hproject : ∀ id arguments, .putProject id arguments ∉ commands)
    (hclock : (new.run commands).clock.taken < UInt64.size - 1) (key : DocumentKey) :
    CleanAfterProject key (new.run commands) := by
  induction commands using List.reverseRecOn with
  | nil => exact ⟨nofun, nofun⟩
  | append_singleton before c ih =>
    rw [run_append, run_cons, run_nil] at hclock ⊢
    have hle := taken_le_after (new.run before) c
    have hbefore : (new.run before).clock.taken < UInt64.size - 1 := by omega
    have hclean := ih (fun id arguments h => hproject id arguments (List.mem_append_left _ h))
      hbefore
    refine hclean.after (dates_project (by omega) key.project) hbefore ?_
    rintro id arguments rfl
    exact hproject id arguments (List.mem_append_right _ List.mem_cons_self)

end Clean

/-- In every state that a registry comes to, the stamps that it holds are all different, later
than the origin and earlier than every stamp taken later; the last parse of a copy came after
its opening, and a clean copy was parsed after the latest change of its project. -/
theorem stamps_identify_changes (commands : List Command)
    (hproject : ∀ id arguments, .putProject id arguments ∉ commands)
    (hclock : (new.run commands).clock.taken < UInt64.size - 1) :
    let reg := new.run commands
    reg.stamps.Nodup ∧
      (∀ s ∈ reg.stamps, s.isAfter .origin = true ∧
        ∀ later, (reg.run later).clock.taken < UInt64.size - 1 →
          (reg.run later).clock.next.isAfter s = true) ∧
      ∀ d ∈ reg.documents.toList,
        (∀ s ∈ d.lastParse, s.isAfter d.openedAt = true) ∧
        (d.needsReparse = false → ∃ s ∈ d.lastParse,
          ∀ p ∈ reg.projects.find? d.key.project, s.isAfter p.changedAt = true) := by
  intro reg
  have hwords : reg.clock.taken < UInt64.size := Nat.lt_of_lt_of_le hclock (Nat.sub_le _ _)
  refine ⟨nodup_stamps hclock, fun s hs => ?_, fun d hd => ?_⟩
  · have hdates := dates_of_mem_stamps hwords hs
    exact ⟨hdates.isAfter_origin, fun later hlater => (hdates.run later).isAfter_next hlater⟩
  · obtain ⟨slot, hslot, rfl⟩ := List.mem_map.1 hd
    have hfound : reg.documents.find? slot.key = some slot.document :=
      (keysApart_run commands).find?_key hslot
    refine ⟨fun s hs => ?_, fun hclean => ?_⟩
    · have hparse : parseStamp slot.key reg = some s := by
        rw [parseStamp, hfound]
        exact hs
      have hopened : copyStamp slot.key reg = some slot.document.openedAt := by
        rw [copyStamp, hfound]
        rfl
      exact openedAt_before_parse hclock slot.key s _ hparse hopened
    · have hcopy := cleanAfterProject_run hproject hclock slot.key
      have hkey := hcopy.own slot.document hfound
      obtain ⟨s, hs, hlater⟩ := hcopy.parsed slot.document hfound hclean
      refine ⟨s, hs, fun p hp => hlater _ ?_⟩
      rw [(DocumentKey.same_iff.1 hkey).2] at hp
      exact congrArg (Option.map Project.changedAt) hp

/-- A document that is opened before its project is known, parsed and opened again beside one
that was parsed after its project was configured: this one is clean, and all stamps differ. -/
theorem stamps_identify_changes_parsed :
    let a : DocumentKey := ⟨⟨"/a.cpp"⟩, "p"⟩
    let b : DocumentKey := ⟨⟨"/b.cpp"⟩, "p"⟩
    let commands : List Command :=
      [.openDocument a, .onDocuments (.markParsed a 0), .configureProject "p" [],
        .openDocument b, .onDocuments (.markParsed b 0), .putBuffer ⟨"/b.cpp"⟩ "",
        .openDocument a]
    let reg := new.run commands
    reg.stamps.length = 5 ∧ reg.stamps.Nodup ∧
      ∃ d ∈ reg.documents.toList, d.needsReparse = false ∧ ∃ s ∈ d.lastParse,
        s.isAfter d.openedAt = true ∧
          ∀ p ∈ reg.projects.find? d.key.project, s.isAfter p.changedAt = true := by
  intro a b commands reg
  have hproject : ∀ id arguments, .putProject id arguments ∉ commands := by simp [commands]
  have hclock : reg.clock.taken < UInt64.size - 1 := by decide +kernel
  obtain ⟨hdistinct, -, hcopies⟩ := stamps_identify_changes commands hproject hclock
  have hclean : ∃ d ∈ reg.documents.toList, d.needsReparse = false := by decide +kernel
  obtain ⟨d, hd, hd'⟩ := hclean
  obtain ⟨hparse, hproject⟩ := hcopies d hd
  obtain ⟨s, hs, hlater⟩ := hproject hd'
  exact ⟨by decide +kernel, hdistinct, d, hd, hd', s, hs, hparse s hs, hlater⟩

end AnalysisJobs.Registry
