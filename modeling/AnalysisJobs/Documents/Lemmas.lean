import AnalysisJobs.Documents
/-!
# The store of documents through its views

What every operation does to the copy that is found under a key, and to the list
of keys.  A key finds the same copy as every other spelling of it, so the laws
for `find?` speak of keys up to spelling.
-/

namespace AnalysisJobs.Documents

/-! ## Finding -/

theorem find?_congr (ds : Documents) {k l : DocumentKey} (h : k.Same l) :
    ds.find? k = ds.find? l := by
  unfold find?
  congr 2
  funext s
  exact decide_eq_decide.2 ⟨fun hs => hs.trans h, fun hs => hs.trans h.symm⟩

theorem isOpen_congr (ds : Documents) {k l : DocumentKey} (h : k.Same l) :
    ds.isOpen k = ds.isOpen l := by
  rw [isOpen, isOpen, ds.find?_congr h]

theorem isOpen_iff (ds : Documents) (k : DocumentKey) :
    ds.isOpen k = true ↔ ∃ s ∈ ds.slots, s.key.Same k := by
  rw [isOpen, find?, Option.isSome_map, List.find?_isSome]
  simp only [decide_eq_true_eq]

theorem isOpen_of_isOpenSince {ds : Documents} {k : DocumentKey} {stamp : Stamp}
    (h : ds.isOpenSince k stamp = true) : ds.isOpen k = true := by
  cases hd : ds.find? k with
  | none => simp [isOpenSince, hd] at h
  | some d => simp [isOpen, hd]

@[simp] theorem find?_empty (k : DocumentKey) : empty.find? k = none := rfl

theorem find?_modify (ds : Documents) (k l : DocumentKey) (f : Document → Document) :
    (ds.modify k f).find? l = if k.Same l then (ds.find? l).map f else ds.find? l := by
  have hkey : ∀ s : Slot,
      (if s.key.Same k then { s with document := f s.document } else s).key = s.key := by
    intro s
    split <;> rfl
  simp only [find?, modify, List.find?_map, Function.comp_def, hkey]
  cases hs : ds.slots.find? fun s => s.key.Same l with
  | none => simp
  | some s =>
    have hl : s.key.Same l := by simpa using List.find?_some hs
    by_cases hk : k.Same l
    · simp [hk, hl.trans hk.symm]
    · have hsk : ¬ s.key.Same k := fun h => hk (h.symm.trans hl)
      simp [hk, hsk]

theorem find?_modifyAll (ds : Documents) (l : DocumentKey) (f : Document → Document) :
    (ds.modifyAll f).find? l = (ds.find? l).map f := by
  simp only [find?, modifyAll, List.find?_map, Option.map_map]
  rfl

theorem find?_openAt (ds : Documents) (k l : DocumentKey) (stamp : Stamp) :
    (ds.openAt k stamp).find? l =
      if k.Same l then
        some ((ds.find? l).elim (.fresh k stamp) (·.reopened k stamp))
      else ds.find? l := by
  unfold openAt
  split
  · rename_i hopen
    refine (find?_modify ds k l (·.reopened k stamp)).trans ?_
    by_cases hk : k.Same l
    · rw [isOpen_congr ds hk, isOpen, Option.isSome_iff_exists] at hopen
      obtain ⟨d, hd⟩ := hopen
      simp [hk, hd]
    · simp [hk]
  · rename_i hclosed
    by_cases hk : k.Same l
    · rw [isOpen_congr ds hk, isOpen, Option.not_isSome_iff_eq_none] at hclosed
      simp only [find?, Option.map_eq_none_iff] at hclosed
      simp [find?, List.find?_append, hclosed, hk]
    · cases hs : ds.slots.find? fun s => s.key.Same l <;>
        simp [find?, List.find?_append, hs, hk]

theorem find?_edit (ds : Documents) (k l : DocumentKey) :
    (ds.edit k).find? l = if k.Same l then (ds.find? l).map .edited else ds.find? l := by
  unfold edit
  split
  · exact find?_modify ds k l .edited
  · rename_i hclosed
    split
    · rename_i hk
      rw [isOpen_congr ds hk, isOpen, Option.not_isSome_iff_eq_none] at hclosed
      rw [hclosed, Option.map_none]
    · rfl

theorem find?_close (ds : Documents) (k l : DocumentKey) :
    (ds.close k).find? l = if k.Same l then none else ds.find? l := by
  unfold close
  split
  · simp only [find?, List.find?_filter]
    by_cases hk : k.Same l
    · have hnone : ∀ s : Slot, ¬ (¬ s.key.Same k ∧ s.key.Same l) :=
        fun s h => h.1 (h.2.trans hk.symm)
      simp [hk, hnone]
    · have hcongr : ∀ s : Slot, (¬ s.key.Same k ∧ s.key.Same l) ↔ s.key.Same l :=
        fun s => ⟨And.right, fun hl => ⟨fun h => hk (h.symm.trans hl), hl⟩⟩
      simp only [hk, if_false]
      congr 2
      funext s
      simpa using hcongr s
  · rename_i hclosed
    split
    · rename_i hk
      rwa [isOpen_congr ds hk, isOpen, Option.not_isSome_iff_eq_none] at hclosed
    · rfl

theorem find?_setFailed (ds : Documents) (k l : DocumentKey) (failed : Bool) :
    (ds.setFailed k failed).find? l =
      if k.Same l then (ds.find? l).map ({ · with failed := failed }) else ds.find? l := by
  unfold setFailed
  split
  · rename_i hclosed
    split
    · rename_i hk
      rw [find?_congr ds hk] at hclosed
      rw [hclosed, Option.map_none]
    · rfl
  · exact find?_modify ds k l ({ · with failed := failed })

theorem find?_markParsed (ds : Documents) (k l : DocumentKey) (revision : UInt32)
    (stamp : Stamp) :
    (ds.markParsed k revision stamp).find? l =
      if k.Same l then (ds.find? l).map (·.parsed revision stamp) else ds.find? l :=
  find?_modify ds k l _

theorem find?_showPaths (ds : Documents) (paths : List Path) (l : DocumentKey) :
    (ds.showPaths paths).find? l =
      (ds.find? l).map fun d => { d with visible := paths.any fun p => d.key.path.Same p } :=
  find?_modifyAll ds l _

theorem find?_focus (ds : Documents) (path : Option Path) (l : DocumentKey) :
    (ds.focus path).find? l =
      (ds.find? l).map fun d => { d with current := path.any fun p => d.key.path.Same p } :=
  find?_modifyAll ds l _

theorem find?_flagProject (ds : Documents) (project : ProjectId) (l : DocumentKey) :
    (ds.flagProject project).find? l =
      (ds.find? l).map fun d =>
        if d.key.project = project then { d with needsReparse := true } else d :=
  find?_modifyAll ds l _

/-! ## Keys -/

@[simp] theorem keys_modify (ds : Documents) (k : DocumentKey) (f : Document → Document) :
    (ds.modify k f).keys = ds.keys := by
  simp only [keys, modify, List.map_map]
  congr 1
  funext s
  by_cases h : s.key.Same k <;> simp [h]

@[simp] theorem keys_modifyAll (ds : Documents) (f : Document → Document) :
    (ds.modifyAll f).keys = ds.keys := by
  simp only [keys, modifyAll, List.map_map]
  rfl

theorem keys_openAt (ds : Documents) (k : DocumentKey) (stamp : Stamp) :
    (ds.openAt k stamp).keys = if ds.isOpen k then ds.keys else ds.keys ++ [k] := by
  unfold openAt
  split
  · exact keys_modify ds k (·.reopened k stamp)
  · simp [keys]

theorem keys_close (ds : Documents) (k : DocumentKey) :
    (ds.close k).keys = ds.keys.filter fun l => ¬ l.Same k := by
  unfold close
  split
  · simp only [keys, List.filter_map]
    rfl
  · rename_i hclosed
    rw [isOpen_iff] at hclosed
    refine (List.filter_eq_self.2 ?_).symm
    intro l hl
    obtain ⟨s, hs, rfl⟩ := List.mem_map.1 hl
    exact decide_eq_true fun h => hclosed ⟨s, hs, h⟩

theorem keys_setFailed (ds : Documents) (k : DocumentKey) (failed : Bool) :
    (ds.setFailed k failed).keys = ds.keys := by
  unfold setFailed
  split
  · rfl
  · exact keys_modify ds k ({ · with failed := failed })

/-! ## Counts -/

theorem counts_setFailed (ds : Documents) (k : DocumentKey) (failed : Bool) :
    ∃ more, more ≤ 1 ∧ (ds.setFailed k failed).counts =
      { ds.counts with failures := ds.counts.failures + more } := by
  unfold setFailed
  split
  · exact ⟨0, Nat.zero_le 1, rfl⟩
  · refine ⟨_, ?_, rfl⟩
    split <;> decide

end AnalysisJobs.Documents
