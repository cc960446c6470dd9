import AnalysisJobs.Proofs.Registry.Openings
/-!
# What the editor said last

A copy carries two flags that say where the editor shows it.  Both are set for all documents at
once by a change that lists paths, and each follows the latest such change since its document
went from absent to open; nothing else moves it, not even opening the document again.
-/

namespace AnalysisJobs

open Documents (Op openedAt? openedAt?_concat openedAt?_lt presentSince isSome_openedAt?
  isSome_onCopy_iff)
open Registry (Command changeEffect)

inductive EditorFlag
  | visible
  | current
  deriving DecidableEq, Repr

namespace EditorFlag

def read : EditorFlag → Document → Bool
  | visible, d => d.visible
  | current, d => d.current

/-- The paths that a change lists for a flag, if it sets the flag. -/
def listed? : EditorFlag → Op → Option (List Path)
  | visible, .showPaths paths => some paths
  | current, .focus path => some path.toList
  | _, _ => none

/-- The paths that were listed last for a flag in a history. -/
def latest? (flag : EditorFlag) (ops : List Op) : Option (List Path) :=
  (ops.filterMap flag.listed?).getLast?

theorem latest?_concat (flag : EditorFlag) (ops : List Op) (op : Op) :
    flag.latest? (ops ++ [op]) = (flag.listed? op).or (flag.latest? ops) := by
  cases h : flag.listed? op <;> simp [latest?, List.filterMap_append, h]

theorem eq_toList_of_latest?_current {ops : List Op} {paths : List Path}
    (h : current.latest? ops = some paths) : ∃ path : Option Path, paths = path.toList := by
  obtain ⟨op, -, hlisted⟩ := List.mem_filterMap.1 (List.mem_of_getLast? h)
  cases op with
  | focus path => exact ⟨path, (Option.some.inj hlisted).symm⟩
  | _ => cases hlisted

/-- The changes of a history since a document last went from absent to open. -/
def sinceOpening (key : DocumentKey) (ops : List Op) : List Op :=
  (openedAt? key ops).elim [] fun place => ops.drop (place + 1)

theorem latest?_of_sinceOpening {flag : EditorFlag} {key : DocumentKey} {ops : List Op}
    {paths : List Path} (h : flag.latest? (sinceOpening key ops) = some paths) :
    flag.latest? ops = some paths := by
  rw [sinceOpening] at h
  cases hplace : openedAt? key ops with
  | none =>
    rw [hplace] at h
    cases h
  | some place =>
    rw [hplace, Option.elim_some, latest?] at h
    rw [latest?, ← List.take_append_drop (place + 1) ops, List.filterMap_append,
      List.getLast?_append, h, Option.some_or]

theorem sinceOpening_concat_of_isSome {key : DocumentKey} {ops : List Op} {op : Op}
    (hopen : (openedAt? key ops).isSome = true) (hop : changeEffect key op ≠ .gone) :
    sinceOpening key (ops ++ [op]) = sinceOpening key ops ++ [op] := by
  obtain ⟨place, hplace⟩ := Option.isSome_iff_exists.1 hopen
  have hkept : openedAt? key (ops ++ [op]) = some place := by
    rw [openedAt?_concat, Documents.presentSince_eq_some_iff (openedAt?_lt hplace)]
    exact ⟨hplace, hop⟩
  rw [sinceOpening, hkept, sinceOpening, hplace]
  exact List.drop_append_of_le_length (openedAt?_lt hplace)

theorem sinceOpening_concat_of_isNone {key : DocumentKey} {ops : List Op} {op : Op}
    (hclosed : openedAt? key ops = none) : sinceOpening key (ops ++ [op]) = [] := by
  rw [sinceOpening, openedAt?_concat, hclosed]
  cases changeEffect key op <;> simp [presentSince]

/-! ## One change -/

section

variable {key : DocumentKey} {stamp : Stamp} {op : Op} {d e : Document}

theorem read_onCopy (flag : EditorFlag) (h : e ∈ op.onCopy key stamp (some d)) :
    flag.read e =
      ((flag.listed? op).map fun paths => paths.any fun p => d.key.path.Same p).getD
        (flag.read d) := by
  cases op with
  | openDocument k | edit k | setFailed k failed | markParsed k revision =>
    simp only [Op.onCopy] at h
    split at h
    · obtain rfl := Option.some.inj h
      cases flag <;> rfl
    · obtain rfl := Option.some.inj h
      cases flag <;> rfl
  | close k =>
    simp only [Op.onCopy] at h
    split at h
    · cases h
    · obtain rfl := Option.some.inj h
      cases flag <;> rfl
  | showPaths paths =>
    obtain rfl := Option.some.inj h
    cases flag <;> rfl
  | focus path =>
    obtain rfl := Option.some.inj h
    cases flag with
    | visible => rfl
    | current => cases path <;> simp [read, listed?]
  | flagProject project =>
    obtain rfl := Option.some.inj h
    dsimp only
    split <;> cases flag <;> rfl

theorem read_onCopy_none (flag : EditorFlag) (h : e ∈ op.onCopy key stamp none) :
    flag.read e = false := by
  cases op with
  | openDocument k =>
    simp only [Op.onCopy] at h
    split at h
    · obtain rfl := Option.some.inj h
      cases flag <;> rfl
    · cases h
  | edit k | close k | setFailed k failed | markParsed k revision =>
    simp only [Op.onCopy] at h
    split at h <;> cases h
  | showPaths paths | focus path | flagProject project => cases h

/-- The change is none of the editor's and does not close the document. -/
def Leaves (key : DocumentKey) : Op → Prop
  | .showPaths _ | .focus _ => False
  | .close k => ¬ k.Same key
  | _ => True

theorem Leaves.listed?_eq_none (hop : Leaves key op) (flag : EditorFlag) :
    flag.listed? op = none := by
  cases op with
  | showPaths | focus => exact hop.elim
  | _ => cases flag <;> rfl

theorem Leaves.changeEffect_ne_gone (hop : Leaves key op) : changeEffect key op ≠ .gone := by
  cases op with
  | openDocument k =>
    rw [changeEffect]
    split <;> decide
  | close k =>
    rw [changeEffect, if_neg hop]
    decide
  | _ => simp [changeEffect]

/-- A document is there, and shown as the copy `d` is. -/
def ShownAs (d : Document) (document : Option Document) : Prop :=
  ∃ e ∈ document, ∀ flag : EditorFlag, flag.read e = flag.read d

theorem Leaves.shownAs_onCopy (hop : Leaves key op) {document : Option Document}
    (h : ShownAs d document) : ShownAs d (op.onCopy key stamp document) := by
  obtain ⟨e, he, hread⟩ := h
  obtain rfl := Option.mem_def.1 he
  obtain ⟨e', he'⟩ := Option.isSome_iff_exists.1 (isSome_onCopy_iff.2 hop.changeEffect_ne_gone)
  refine ⟨e', he', fun flag => ?_⟩
  rw [read_onCopy flag he', hop.listed?_eq_none flag, ← hread flag]
  rfl

end

/-! ## A history -/

/-- The flags of a copy follow the latest changes that listed paths for them since its document
went from absent to open. -/
theorem read_run (key : DocumentKey) (changes : List (Stamp × Op)) :
    ∀ d ∈ (Documents.empty.run changes).find? key, ∀ flag : EditorFlag,
      flag.read d =
        (flag.latest? (sinceOpening key (changes.map Prod.snd))).any fun paths =>
          paths.any fun p => key.path.Same p := by
  induction changes using List.reverseRecOn with
  | nil => exact nofun
  | append_singleton changes change ih =>
    intro e he flag
    rw [Documents.run_concat, Documents.find?_apply] at he
    have hpresent := isSome_openedAt? key changes
    rw [List.map_append, List.map_singleton]
    cases hd : (Documents.empty.run changes).find? key with
    | none =>
      rw [Documents.isOpen, hd, Option.isSome_none, Option.isSome_eq_false_iff,
        Option.isNone_iff_eq_none] at hpresent
      rw [hd] at he
      rw [read_onCopy_none flag he, sinceOpening_concat_of_isNone hpresent]
      rfl
    | some d =>
      rw [Documents.isOpen, hd, Option.isSome_some] at hpresent
      rw [hd] at he
      have hkept : changeEffect key change.2 ≠ .gone :=
        isSome_onCopy_iff.1 (Option.isSome_iff_exists.2 ⟨e, he⟩)
      have hpath : d.key.path.Same key.path :=
        (DocumentKey.same_iff.1 (Documents.ownKey_run changes key d hd)).1
      rw [read_onCopy flag he, ih d hd flag,
        sinceOpening_concat_of_isSome hpresent hkept, latest?_concat]
      cases flag.listed? change.2 with
      | none => rfl
      | some paths =>
        have hsame (p : Path) : d.key.path.Same p ↔ key.path.Same p :=
          ⟨hpath.symm.trans, hpath.trans⟩
        simp [hsame]

theorem read_eq_true_iff {key : DocumentKey} {changes : List (Stamp × Op)} {d : Document}
    (hd : d ∈ (Documents.empty.run changes).find? key) (flag : EditorFlag) :
    flag.read d = true ↔
      ∃ paths, flag.latest? (sinceOpening key (changes.map Prod.snd)) = some paths ∧
        ∃ p ∈ paths, d.key.path.Same p := by
  have hpath : d.key.path.Same key.path :=
    (DocumentKey.same_iff.1 (Documents.ownKey_run changes key d hd)).1
  have hsame (p : Path) : key.path.Same p ↔ d.key.path.Same p := ⟨hpath.trans, hpath.symm.trans⟩
  rw [read_run key changes d hd flag, Option.any_eq_true]
  simp only [List.any_eq_true, decide_eq_true_eq, hsame]

/-- All copies in focus are copies of one file: the one that was last focused, in all of the
history. -/
theorem same_of_current {key key' : DocumentKey} {changes : List (Stamp × Op)} {d e : Document}
    (hd : d ∈ (Documents.empty.run changes).find? key)
    (he : e ∈ (Documents.empty.run changes).find? key')
    (hcurrent : d.current = true) (hcurrent' : e.current = true) :
    d.key.path.Same e.key.path := by
  obtain ⟨paths, hpaths, p, hp, hdp⟩ := (read_eq_true_iff hd current).1 hcurrent
  obtain ⟨paths', hpaths', q, hq, heq⟩ := (read_eq_true_iff he current).1 hcurrent'
  obtain rfl : paths = paths' := Option.some.inj
    ((latest?_of_sinceOpening hpaths).symm.trans (latest?_of_sinceOpening hpaths'))
  obtain ⟨path, rfl⟩ := eq_toList_of_latest?_current hpaths
  rw [Option.mem_toList] at hp hq
  obtain rfl : p = q := Option.mem_unique hp hq
  exact hdp.trans heq.symm

end EditorFlag

namespace Registry

theorem documents_run (reg : Registry) (commands : List Command) :
    ∃ changes, (reg.run commands).documents = reg.documents.run changes ∧
      changes.map Prod.snd = commands.flatMap Command.changes := by
  induction commands generalizing reg with
  | nil => exact ⟨[], rfl, rfl⟩
  | cons c rest ih =>
    obtain ⟨later, hdocuments, hlater⟩ := ih (reg.after c)
    refine ⟨c.changes.map (reg.clock.next, ·) ++ later, ?_, ?_⟩
    · rw [run_cons, hdocuments, documents_after, Documents.run, Documents.run, List.foldl_append,
        List.foldl_map]
    · rw [List.map_append, List.map_map, hlater, List.flatMap_cons]
      simp [Function.comp_def]

theorem shownAs_run {reg : Registry} {key : DocumentKey} {d : Document}
    (h : EditorFlag.ShownAs d (reg.documents.find? key)) {commands : List Command}
    (hleaves : ∀ c ∈ commands, ∀ op ∈ c.changes, EditorFlag.Leaves key op) :
    EditorFlag.ShownAs d ((reg.run commands).documents.find? key) := by
  refine run_induction (P := fun reg => EditorFlag.ShownAs d (reg.documents.find? key)) h ?_
  intro reg c hc hreg
  exact find?_after_induction hreg
    fun op hop _ hshown => (hleaves c hc op hop).shownAs_onCopy hshown

/-- After every history of a registry the flags of a copy are what the editor said last since
its document went from absent to open: the copy is shown if the latest list of shown paths has
its path, and in focus if its path is the latest one in focus.  A document that stays open
keeps both flags through everything else, be it opened again, edited or parsed, and all copies
in focus have the same path. -/
theorem flags_follow_editor (commands : List Command) :
    let ops := commands.flatMap Command.changes
    let reg := new.run commands
    (∀ key, ∀ d ∈ reg.documents.find? key,
      (d.visible = true ↔
        ∃ paths, EditorFlag.visible.latest? (EditorFlag.sinceOpening key ops) = some paths ∧
          ∃ p ∈ paths, d.key.path.Same p) ∧
      (d.current = true ↔
        ∃ paths, EditorFlag.current.latest? (EditorFlag.sinceOpening key ops) = some paths ∧
          ∃ p ∈ paths, d.key.path.Same p)) ∧
    (∀ key, ∀ d ∈ reg.documents.find? key, ∀ later : List Command,
      (∀ c ∈ later, ∀ op ∈ c.changes, EditorFlag.Leaves key op) →
      ∃ e ∈ (reg.run later).documents.find? key,
        e.visible = d.visible ∧ e.current = d.current) ∧
    (∀ d ∈ reg.documents.toList, ∀ e ∈ reg.documents.toList,
      d.current = true → e.current = true → d.key.path.Same e.key.path) := by
  intro ops reg
  obtain ⟨changes, hdocuments, hops⟩ := documents_run new commands
  replace hdocuments : reg.documents = Documents.empty.run changes := hdocuments
  refine ⟨fun key d hd => ?_, fun key d hd later hleaves => ?_, fun d hd e he => ?_⟩
  · rw [hdocuments] at hd
    simp only [ops, ← hops]
    exact ⟨EditorFlag.read_eq_true_iff hd .visible, EditorFlag.read_eq_true_iff hd .current⟩
  · obtain ⟨e, he, hread⟩ := shownAs_run ⟨d, hd, fun _ => rfl⟩ hleaves
    exact ⟨e, he, hread .visible, hread .current⟩
  · rw [hdocuments] at hd he
    obtain ⟨s, hs, rfl⟩ := List.mem_map.1 hd
    obtain ⟨t, ht, rfl⟩ := List.mem_map.1 he
    have hkeys := Documents.keysApart_run changes
    exact EditorFlag.same_of_current (hkeys.find?_key hs) (hkeys.find?_key ht)

/-- A file that is open under two projects is focused under another spelling and then opened
again under one of them. -/
theorem flags_follow_editor_two_projects :
    let file : Path := ⟨"/src/a.cpp"⟩
    let key : DocumentKey := ⟨file, "a"⟩
    let other : DocumentKey := ⟨file, "b"⟩
    let reg := new.run [.openDocument key, .openDocument other,
      .showActivity ⟨some ⟨"/src//a.cpp"⟩, []⟩]
    ∃ d ∈ reg.documents.find? key, ∃ e ∈ reg.documents.find? other,
      d.current = true ∧ e.current = true ∧ d.key.path.Same e.key.path ∧
      ∃ d' ∈ (reg.run [.openDocument key]).documents.find? key,
        d'.visible = false ∧ d'.current = true := by
  intro file key other reg
  obtain ⟨hflags, hkept, hone⟩ := flags_follow_editor [.openDocument key, .openDocument other,
    .showActivity ⟨some ⟨"/src//a.cpp"⟩, []⟩]
  let d := (reg.documents.find? key).get (by decide +kernel)
  let e := (reg.documents.find? other).get (by decide +kernel)
  have hd : d ∈ reg.documents.find? key := Option.some_get _ |>.symm
  have he : e ∈ reg.documents.find? other := Option.some_get _ |>.symm
  have hcurrent : d.current = true :=
    (hflags key d hd).2.2 ⟨[⟨"/src//a.cpp"⟩], by decide +kernel, by decide +kernel⟩
  have hcurrent' : e.current = true :=
    (hflags other e he).2.2 ⟨[⟨"/src//a.cpp"⟩], by decide +kernel, by decide +kernel⟩
  have hsame : d.key.path.Same e.key.path :=
    hone d (by decide +kernel) e (by decide +kernel) hcurrent hcurrent'
  have hleaves : ∀ c ∈ [Command.openDocument key], ∀ op ∈ c.changes, EditorFlag.Leaves key op := by
    intro c hc op hop
    obtain rfl := List.mem_singleton.1 hc
    obtain rfl := List.mem_singleton.1 hop
    trivial
  obtain ⟨d', hd', hvisible, hfocus⟩ := hkept key d hd [.openDocument key] hleaves
  have hhidden : d.visible = false := by decide +kernel
  exact ⟨d, hd, e, he, hcurrent, hcurrent', hsame, d', hd', hvisible.trans hhidden,
    hfocus.trans hcurrent⟩

end Registry

end AnalysisJobs
