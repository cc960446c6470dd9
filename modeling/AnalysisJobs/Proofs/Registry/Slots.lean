import AnalysisJobs.Proofs.Registry.Copies
/-!
# One slot for a document, one entry for a project

The store and the projects are lists that are searched from the front.  No operation makes a
second slot for a document or a second entry for a project, so what stands in the list is what
the search finds.
-/

namespace AnalysisJobs

theorem find?_eq_of_pairwise {α : Type} {R : α → α → Prop} [DecidableRel R] {l : List α} {a : α}
    (hrefl : R a a) (h : l.Pairwise fun b c => ¬ R b c) (ha : a ∈ l) :
    l.find? (fun b => R b a) = some a := by
  induction l with
  | nil => cases ha
  | cons b rest ih =>
    obtain ⟨hb, hrest⟩ := List.pairwise_cons.1 h
    rcases List.mem_cons.1 ha with rfl | ha
    · exact List.find?_cons_of_pos (decide_eq_true hrefl)
    · rw [List.find?_cons_of_neg (by simpa using hb a ha)]
      exact ih hrest ha

namespace Documents

theorem keys_apply (ds : Documents) (stamp : Stamp) (op : Op) :
    (ds.apply stamp op).keys =
      match op with
      | .openDocument k => if ds.isOpen k then ds.keys else ds.keys ++ [k]
      | .close k => ds.keys.filter fun l => ¬ l.Same k
      | _ => ds.keys := by
  cases op with
  | openDocument k => exact keys_openAt ds k stamp
  | edit k =>
    rw [apply, edit]
    split
    · exact keys_modify ds k .edited
    · rfl
  | close k => exact keys_close ds k
  | showPaths paths => exact keys_modifyAll ds _
  | focus path => exact keys_modifyAll ds _
  | setFailed k failed => exact keys_setFailed ds k failed
  | markParsed k revision => exact keys_modify ds k _
  | flagProject project => exact keys_modifyAll ds _

/-- No two slots are for one document. -/
def KeysApart (ds : Documents) : Prop := ds.keys.Pairwise fun k l => ¬ k.Same l

theorem KeysApart.apply {ds : Documents} (h : ds.KeysApart) (stamp : Stamp) (op : Op) :
    (ds.apply stamp op).KeysApart := by
  rw [KeysApart, keys_apply]
  cases op with
  | openDocument k =>
    dsimp only
    split
    · exact h
    · rename_i hclosed
      refine List.pairwise_append.2 ⟨h, List.pairwise_singleton _ _, ?_⟩
      intro l hl k' hk' hsame
      obtain rfl := List.mem_singleton.1 hk'
      obtain ⟨s, hs, rfl⟩ := List.mem_map.1 hl
      exact hclosed ((isOpen_iff ds _).2 ⟨s, hs, hsame⟩)
  | close k => exact h.filter _
  | _ => exact h

theorem KeysApart.find?_key {ds : Documents} (h : ds.KeysApart) {s : Slot} (hs : s ∈ ds.slots) :
    ds.find? s.key = some s.document := by
  have hslots : ds.slots.Pairwise fun s t => ¬ s.key.Same t.key := List.pairwise_map.1 h
  have hfound := find?_eq_of_pairwise (R := fun s t : Slot => s.key.Same t.key)
    s.key.same_refl hslots hs
  rw [find?, hfound, Option.map_some]

end Documents

namespace Projects

/-- No two entries are for one project. -/
def IdsApart (ps : Projects) : Prop := (ps.entries.map Project.id).Nodup

theorem IdsApart.put {ps : Projects} (h : ps.IdsApart) (id : ProjectId) (arguments : List String)
    (stamp : Stamp) : (ps.put id arguments stamp).IdsApart := by
  rw [IdsApart, Projects.put]
  split
  · have hids (p : Project) : (if p.id = id then ⟨id, arguments, stamp⟩ else p : Project).id =
        p.id := by
      split
      · rename_i hp
        exact hp.symm
      · rfl
    simpa only [IdsApart, List.map_map, Function.comp_def, hids] using h
  · rename_i hnew
    rw [isKnown, find?, List.find?_isSome] at hnew
    simp only [List.map_append, List.map_cons, List.map_nil]
    refine List.nodup_append.2 ⟨h, List.pairwise_singleton _ _, ?_⟩
    rintro i hi j hj rfl
    obtain rfl := List.mem_singleton.1 hj
    obtain ⟨p, hp, rfl⟩ := List.mem_map.1 hi
    exact hnew ⟨p, hp, decide_eq_true rfl⟩

theorem IdsApart.remove {ps : Projects} (h : ps.IdsApart) (id : ProjectId) :
    (ps.remove id).IdsApart :=
  List.Nodup.sublist (List.filter_sublist.map Project.id) h

theorem IdsApart.find?_id {ps : Projects} (h : ps.IdsApart) {p : Project}
    (hp : p ∈ ps.entries) : ps.find? p.id = some p := by
  have hentries : ps.entries.Pairwise fun p q => ¬ p.id = q.id := List.pairwise_map.1 h
  exact find?_eq_of_pairwise (R := fun p q : Project => p.id = q.id) rfl hentries hp

end Projects

namespace Registry

theorem keysApart_after {reg : Registry} (h : reg.documents.KeysApart) (c : Command) :
    (reg.after c).documents.KeysApart := by
  rw [documents_after]
  generalize reg.documents = ds at h
  induction c.changes generalizing ds with
  | nil => exact h
  | cons op rest ih => exact ih (ds.apply reg.clock.next op) (h.apply _ op)

theorem idsApart_after {reg : Registry} (h : reg.projects.IdsApart) (c : Command) :
    (reg.after c).projects.IdsApart := by
  cases c with
  | configureProject id arguments => exact h.put id arguments _
  | putProject id arguments => exact h.put id arguments _
  | removeProject id => exact h.remove id
  | _ => exact h

theorem keysApart_run (commands : List Command) : (new.run commands).documents.KeysApart := by
  have hnew : new.documents.KeysApart := List.Pairwise.nil
  exact run_induction (P := fun reg => reg.documents.KeysApart) hnew
    fun _ c _ h => keysApart_after h c

theorem idsApart_run (commands : List Command) : (new.run commands).projects.IdsApart := by
  have hnew : new.projects.IdsApart := List.nodup_nil
  exact run_induction (P := fun reg => reg.projects.IdsApart) hnew
    fun _ c _ h => idsApart_after h c

end Registry

end AnalysisJobs
