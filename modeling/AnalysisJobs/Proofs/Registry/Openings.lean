import AnalysisJobs.Proofs.Registry.Slots
import Mathlib.Data.List.Forall2
import Mathlib.Data.List.Induction
/-!
# The order of opening

Which documents a store holds, and in which order, can be told from the history alone: a
document is present since the open that found it absent, until it is closed.  The keys of the
store are the keys of these opens, in the order and in the spelling of the history.  With one
slot for each document, the counts of opens and closes then balance with the size, but for the
opens of documents that were open already.
-/

namespace AnalysisJobs.Documents

open Registry (Effect changeEffect)

/-! ## Histories -/

def Op.opens? : Op → Option DocumentKey
  | openDocument k => some k
  | _ => none

/-- The place in a history since which something is there, after an effect at `place`. -/
def presentSince (place : Nat) (since : Option Nat) : Effect → Option Nat
  | .kept => since
  | .renewed => since.or (some place)
  | .gone => none

/-- The place of the open that made a document present, if the document is present at the end
of a history. -/
def openedAt? (key : DocumentKey) (ops : List Op) : Option Nat :=
  ops.zipIdx.foldl
    (fun since change => presentSince change.2 since (changeEffect key change.1)) none

/-- The keys of the opens that made a document present which is still there, in order. -/
def lastingOpenings (ops : List Op) : List DocumentKey :=
  ops.zipIdx.filterMap fun change =>
    change.1.opens?.filter fun k => openedAt? k ops = some change.2

/-- How many of the changes open a document that is open already. -/
def reopenings (ds : Documents) : List (Stamp × Op) → Nat
  | [] => 0
  | change :: rest =>
    (if change.2.opens?.any ds.isOpen then 1 else 0) +
      (ds.apply change.1 change.2).reopenings rest

theorem run_concat (ds : Documents) (changes : List (Stamp × Op)) (change : Stamp × Op) :
    ds.run (changes ++ [change]) = (ds.run changes).apply change.1 change.2 := by
  rw [run, List.foldl_concat, run]

theorem run_induction {P : Documents → Prop} {ds : Documents} (h : P ds)
    (happly : ∀ ds stamp op, P ds → P (ds.apply stamp op)) (changes : List (Stamp × Op)) :
    P (ds.run changes) := by
  induction changes generalizing ds with
  | nil => exact h
  | cons change rest ih => exact ih (happly ds change.1 change.2 h)

theorem openedAt?_concat (key : DocumentKey) (ops : List Op) (op : Op) :
    openedAt? key (ops ++ [op]) =
      presentSince ops.length (openedAt? key ops) (changeEffect key op) := by
  simp [openedAt?, List.zipIdx_append]

theorem openedAt?_lt {key : DocumentKey} {ops : List Op} {place : Nat}
    (h : openedAt? key ops = some place) : place < ops.length := by
  induction ops using List.reverseRecOn with
  | nil => cases h
  | append_singleton ops op ih =>
    rw [openedAt?_concat] at h
    rw [List.length_append, List.length_singleton]
    cases hop : changeEffect key op with
    | kept =>
      rw [hop] at h
      exact Nat.lt_succ_of_lt (ih h)
    | renewed =>
      rw [hop] at h
      rcases Option.or_eq_some_iff.1 h with hold | ⟨-, hnew⟩
      · exact Nat.lt_succ_of_lt (ih hold)
      · exact Option.some.inj hnew ▸ Nat.lt_succ_self _
    | gone =>
      rw [hop] at h
      cases h

theorem presentSince_eq_some_iff {place found : Nat} (h : found < place) {since : Option Nat}
    {e : Effect} : presentSince place since e = some found ↔ since = some found ∧ e ≠ .gone := by
  cases e with
  | kept => simp [presentSince]
  | renewed =>
    have hne : place ≠ found := Nat.ne_of_gt h
    cases since <;> simp [presentSince, hne]
  | gone => simp [presentSince]

/-! ## What is present -/

theorem isSome_onCopy (key : DocumentKey) (stamp : Stamp) (op : Op) (place : Nat)
    {since : Option Nat} {document : Option Document} (h : since.isSome = document.isSome) :
    (presentSince place since (changeEffect key op)).isSome =
      (op.onCopy key stamp document).isSome := by
  cases op with
  | openDocument k =>
    simp only [changeEffect, Op.onCopy]
    split
    · simp [presentSince]
    · exact h
  | close k =>
    simp only [changeEffect, Op.onCopy]
    split
    · rfl
    · exact h
  | edit k | setFailed k failed | markParsed k revision =>
    simp only [changeEffect, presentSince, Op.onCopy]
    split
    · rw [Option.isSome_map, h]
    · exact h
  | showPaths paths | focus path | flagProject project =>
    simp only [changeEffect, presentSince, Op.onCopy, Option.isSome_map, h]

theorem isSome_onCopy_iff {key : DocumentKey} {stamp : Stamp} {op : Op} {d : Document} :
    (op.onCopy key stamp (some d)).isSome = true ↔ changeEffect key op ≠ .gone := by
  have hsince : (some 0 : Option Nat).isSome = (some d).isSome := rfl
  rw [← isSome_onCopy key stamp op 0 hsince]
  cases changeEffect key op <;> simp [presentSince]

theorem isSome_openedAt? (key : DocumentKey) (changes : List (Stamp × Op)) :
    (openedAt? key (changes.map Prod.snd)).isSome = (empty.run changes).isOpen key := by
  induction changes using List.reverseRecOn with
  | nil => rfl
  | append_singleton changes change ih =>
    rw [List.map_append, List.map_singleton, openedAt?_concat, run_concat, isOpen, find?_apply]
    exact isSome_onCopy key change.1 change.2 _ ih

/-! ## The keys -/

/-- A change leaves the keys that it does not close in order, and appends the one that it makes
present. -/
theorem keys_apply_eq (ds : Documents) (stamp : Stamp) (op : Op) :
    (ds.apply stamp op).keys =
      ds.keys.filter (fun l => changeEffect l op ≠ .gone) ++
        (op.opens?.filter fun k => !ds.isOpen k).toList := by
  rw [keys_apply]
  cases op with
  | openDocument k =>
    have hkept : ds.keys.filter (fun l => changeEffect l (.openDocument k) ≠ .gone) = ds.keys := by
      refine List.filter_eq_self.2 fun l _ => decide_eq_true ?_
      simp only [changeEffect]
      split <;> decide
    rw [hkept]
    cases hopen : ds.isOpen k <;> simp [Op.opens?, Option.filter, hopen]
  | close k =>
    simp only [Op.opens?, Option.filter_none, Option.toList_none, List.append_nil]
    refine List.filter_congr fun l _ => decide_eq_decide.2 ?_
    simp only [changeEffect]
    split
    · rename_i hk
      simp [hk.symm]
    · rename_i hk
      simpa using fun hl : l.Same k => hk hl.symm
  | _ => simp [changeEffect, Op.opens?]

theorem openedAt?_concat_eq_length_iff (k : DocumentKey) (ops : List Op) :
    openedAt? k (ops ++ [.openDocument k]) = some ops.length ↔ openedAt? k ops = none := by
  have hrenewed : changeEffect k (.openDocument k) = .renewed := if_pos k.same_refl
  rw [openedAt?_concat, hrenewed]
  cases hplace : openedAt? k ops with
  | none => simp [presentSince]
  | some place => simp [presentSince, Nat.ne_of_lt (openedAt?_lt hplace)]

theorem lastingOpenings_concat (ops : List Op) (op : Op) :
    lastingOpenings (ops ++ [op]) =
      (lastingOpenings ops).filter (fun l => changeEffect l op ≠ .gone) ++
        (op.opens?.filter fun k => (openedAt? k ops).isNone).toList := by
  rw [lastingOpenings, List.zipIdx_append, List.filterMap_append]
  congr 1
  · rw [lastingOpenings, List.filter_filterMap]
    refine List.filterMap_congr fun change hchange => ?_
    have hplace : change.2 < ops.length := List.snd_lt_of_mem_zipIdx hchange
    simp only [openedAt?_concat, presentSince_eq_some_iff hplace]
    cases change.1.opens? <;> simp
  · cases op with
    | openDocument k =>
      simp only [List.zipIdx_singleton, Nat.zero_add, List.filterMap_cons, Op.opens?]
      by_cases hnone : openedAt? k ops = none <;>
        simp [Option.filter, openedAt?_concat_eq_length_iff, hnone]
    | _ => simp [Op.opens?]

/-- The store lists the documents in the order of the opens that made them present. -/
theorem keys_run (changes : List (Stamp × Op)) :
    (empty.run changes).keys = lastingOpenings (changes.map Prod.snd) := by
  induction changes using List.reverseRecOn with
  | nil => rfl
  | append_singleton changes change ih =>
    rw [List.map_append, List.map_singleton, lastingOpenings_concat, run_concat, keys_apply_eq, ih]
    simp only [← isSome_openedAt?, Option.not_isSome]

-- opened again under another spelling a document keeps its place and its key; closed in
-- between it loses both
example :
    let a : DocumentKey := ⟨⟨"/a"⟩, ""⟩
    let b : DocumentKey := ⟨⟨"/b"⟩, ""⟩
    let respelled : DocumentKey := ⟨⟨"//a"⟩, ""⟩
    lastingOpenings [.openDocument a, .openDocument b, .openDocument respelled] = [a, b] ∧
      lastingOpenings [.openDocument a, .openDocument b, .close a, .openDocument respelled] =
        [b, respelled] := by
  decide +kernel

theorem keysApart_run (changes : List (Stamp × Op)) : (empty.run changes).KeysApart := by
  have hempty : empty.KeysApart := List.Pairwise.nil
  exact run_induction hempty (fun _ stamp op h => h.apply stamp op) changes

theorem ownKey_run (changes : List (Stamp × Op)) (key : DocumentKey) :
    ∀ d ∈ (empty.run changes).find? key, d.key.Same key := by
  have hempty : ∀ d ∈ empty.find? key, d.key.Same key := by simp
  refine run_induction (P := fun ds => ∀ d ∈ ds.find? key, d.key.Same key) hempty ?_ changes
  intro ds stamp op h
  rw [find?_apply]
  exact Registry.ownKey_onCopy h stamp op

theorem ownKey_of_mem_slots (changes : List (Stamp × Op)) {s : Slot}
    (hs : s ∈ (empty.run changes).slots) : s.document.key.Same s.key :=
  ownKey_run changes s.key s.document ((keysApart_run changes).find?_key hs)

theorem dirty_run (changes : List (Stamp × Op)) :
    let ds := empty.run changes
    List.Forall₂ DocumentKey.Same ds.dirty
      (ds.keys.filter fun k => (ds.find? k).any Document.needsReparse) := by
  intro ds
  have hkeys : ds.keys.filter (fun k => (ds.find? k).any Document.needsReparse) =
      (ds.slots.filter fun s => s.document.needsReparse).map Slot.key := by
    rw [keys, List.filter_map]
    refine congrArg (List.map Slot.key) (List.filter_congr fun s hs => ?_)
    rw [Function.comp, (keysApart_run changes).find?_key hs, Option.any_some]
  have hdirty : ds.dirty =
      (ds.slots.filter fun s => s.document.needsReparse).map fun s => s.document.key := by
    rw [dirty, toList, List.filter_map, List.map_map]
    rfl
  rw [hkeys, hdirty, List.forall₂_map_left_iff, List.forall₂_map_right_iff, List.forall₂_same]
  exact fun s hs => ownKey_of_mem_slots changes (List.mem_of_mem_filter hs)

/-! ## The counts -/

theorem size_eq (ds : Documents) : ds.size = ds.keys.length := by
  rw [size, keys, List.length_map]

theorem length_filter_not_same {keys : List DocumentKey} {k : DocumentKey}
    (happart : keys.Pairwise fun l m => ¬ l.Same m) (hk : ∃ l ∈ keys, l.Same k) :
    (keys.filter fun l => ¬ l.Same k).length + 1 = keys.length := by
  induction keys with
  | nil => simp at hk
  | cons l rest ih =>
    obtain ⟨hl, hrest⟩ := List.pairwise_cons.1 happart
    by_cases hlk : l.Same k
    · have hothers : rest.filter (fun m => ¬ m.Same k) = rest := by
        refine List.filter_eq_self.2 fun m hm => decide_eq_true fun hmk => ?_
        exact hl m hm (hlk.trans hmk.symm)
      rw [List.filter_cons_of_neg (by simpa using hlk), hothers, List.length_cons]
    · obtain ⟨m, hm, hmk⟩ := hk
      have hfound : ∃ m ∈ rest, m.Same k := by
        rcases List.mem_cons.1 hm with rfl | hm
        · exact absurd hmk hlk
        · exact ⟨m, hm, hmk⟩
      rw [List.filter_cons_of_pos (by simpa using hlk), List.length_cons, List.length_cons,
        ih hrest hfound]

theorem KeysApart.size_close {ds : Documents} (h : ds.KeysApart) {k : DocumentKey}
    (hopen : ds.isOpen k = true) : (ds.close k).size + 1 = ds.size := by
  obtain ⟨s, hs, hk⟩ := (isOpen_iff ds k).1 hopen
  rw [size_eq, size_eq, keys_close]
  exact length_filter_not_same h ⟨s.key, List.mem_map_of_mem hs, hk⟩

/-- What was opened was closed, is there, or was there already. -/
def Balanced (ds : Documents) (reopened : Nat) : Prop :=
  ds.counts.opened = ds.counts.closed + ds.size + reopened

theorem balanced_of_kept {ds : Documents} {reopened : Nat} (h : ds.Balanced reopened)
    {es : Documents} (hopened : es.counts.opened = ds.counts.opened)
    (hclosed : es.counts.closed = ds.counts.closed) (hkeys : es.keys = ds.keys) :
    es.Balanced reopened := by
  rw [Balanced, hopened, hclosed, size_eq, hkeys, ← size_eq]
  exact h

theorem Balanced.openAt {ds : Documents} {reopened : Nat} (h : ds.Balanced reopened)
    (k : DocumentKey) (stamp : Stamp) :
    (ds.openAt k stamp).Balanced (reopened + if ds.isOpen k then 1 else 0) := by
  rw [Balanced] at h ⊢
  rw [size_eq, keys_openAt, Documents.openAt]
  cases ds.isOpen k with
  | true =>
    simp only [if_true, modify]
    rw [← size_eq]
    omega
  | false =>
    simp only [Bool.false_eq_true, if_false, List.length_append, List.length_singleton]
    rw [← size_eq]
    omega

theorem Balanced.close {ds : Documents} {reopened : Nat} (h : ds.Balanced reopened)
    (hkeys : ds.KeysApart) (k : DocumentKey) : (ds.close k).Balanced reopened := by
  by_cases hopen : ds.isOpen k = true
  · have hsize := hkeys.size_close hopen
    have hcounts : (ds.close k).counts =
        { ds.counts with closed := ds.counts.closed + 1 } := by
      rw [Documents.close, if_pos hopen]
    rw [Balanced, hcounts]
    rw [Balanced] at h
    dsimp only
    omega
  · rwa [Documents.close, if_neg hopen]

theorem Balanced.apply {ds : Documents} {reopened : Nat} (h : ds.Balanced reopened)
    (hkeys : ds.KeysApart) (stamp : Stamp) (op : Op) :
    (ds.apply stamp op).Balanced (reopened + if op.opens?.any ds.isOpen then 1 else 0) := by
  cases op with
  | openDocument k => exact h.openAt k stamp
  | close k => exact h.close hkeys k
  | edit k =>
    refine balanced_of_kept h ?_ ?_ (keys_apply ds stamp (.edit k))
    · simp only [Documents.apply, edit]
      split <;> rfl
    · simp only [Documents.apply, edit]
      split <;> rfl
  | setFailed k failed =>
    obtain ⟨more, -, hcounts⟩ := counts_setFailed ds k failed
    refine balanced_of_kept h ?_ ?_ (keys_apply ds stamp (.setFailed k failed))
    · rw [Documents.apply, hcounts]
    · rw [Documents.apply, hcounts]
  | showPaths paths => exact balanced_of_kept h rfl rfl (keys_apply ds stamp (.showPaths paths))
  | focus path => exact balanced_of_kept h rfl rfl (keys_apply ds stamp (.focus path))
  | markParsed k revision =>
    exact balanced_of_kept h rfl rfl (keys_apply ds stamp (.markParsed k revision))
  | flagProject project =>
    exact balanced_of_kept h rfl rfl (keys_apply ds stamp (.flagProject project))

theorem Balanced.run {ds : Documents} {reopened : Nat} (h : ds.Balanced reopened)
    (hkeys : ds.KeysApart) (changes : List (Stamp × Op)) :
    (ds.run changes).Balanced (reopened + ds.reopenings changes) := by
  induction changes generalizing ds reopened with
  | nil => exact h
  | cons change rest ih =>
    rw [run_cons, reopenings, ← Nat.add_assoc]
    exact ih (h.apply hkeys change.1 change.2) (hkeys.apply change.1 change.2)

/-! ## The main result -/

theorem isOpen_close (ds : Documents) (k : DocumentKey) : (ds.close k).isOpen k = false := by
  rw [isOpen, find?_close, if_pos k.same_refl, Option.isSome_none]

/-- A store is an ordered map, whatever its history: no two keys are the same, every copy
carries the key of its slot, and the keys stand in the order of the opens that made their
documents present, in which a document that is opened again keeps its place, one that is
closed leaves the others in order, and one that is closed and opened again comes last.  The
keys that need a reparse are the listed ones whose copies do, in that order, and every open is
accounted for. -/
theorem ordered_by_opening (changes : List (Stamp × Op)) :
    let ds := empty.run changes
    ds.KeysApart ∧
    List.Forall₂ DocumentKey.Same (ds.toList.map Document.key) ds.keys ∧
    ds.keys = lastingOpenings (changes.map Prod.snd) ∧
    (∀ k stamp, (ds.apply stamp (.openDocument k)).keys =
      if ds.isOpen k then ds.keys else ds.keys ++ [k]) ∧
    (∀ k stamp, (ds.apply stamp (.close k)).keys = ds.keys.filter fun l => ¬ l.Same k) ∧
    (∀ k closed opened,
      ((ds.apply closed (.close k)).apply opened (.openDocument k)).keys =
        (ds.keys.filter fun l => ¬ l.Same k) ++ [k]) ∧
    List.Forall₂ DocumentKey.Same ds.dirty
      (ds.keys.filter fun k => (ds.find? k).any Document.needsReparse) ∧
    ds.counts.opened = ds.counts.closed + ds.size + empty.reopenings changes := by
  intro ds
  have hempty : empty.Balanced 0 := rfl
  have hbalanced := hempty.run List.Pairwise.nil changes
  rw [Nat.zero_add] at hbalanced
  refine ⟨keysApart_run changes, ?_, keys_run changes, fun k stamp => keys_openAt ds k stamp,
    fun k _ => keys_close ds k, fun k closed opened => ?_, dirty_run changes, hbalanced⟩
  · rw [toList, keys, List.map_map, List.forall₂_map_left_iff, List.forall₂_map_right_iff,
      List.forall₂_same]
    exact fun s hs => ownKey_of_mem_slots changes hs
  · have hclosed : (ds.apply closed (.close k)).isOpen k = false := isOpen_close ds k
    refine (keys_openAt _ k opened).trans ?_
    rw [hclosed, if_neg Bool.false_ne_true]
    exact congrArg (· ++ [k]) (keys_close ds k)

end AnalysisJobs.Documents
