import AnalysisJobs.Runner.State
/-!
# Settings that no runner can be made with

Settings may ask for any positive number of jobs that a word can count, but a runner has no
more than `maxPermits` permits.  Nothing between the two looks at this limit: the number of
jobs asked for reaches the runner as it is, unless it is zero, in which case the number of
processors takes its place.
-/

namespace AnalysisJobs

namespace Settings

variable {processors : Nat} {settings : Json} {s : Settings}

/-- How many jobs the settings ask to execute at once, if they have a count for it. -/
def asked? (settings : Json) : Option Nat :=
  ((settings.field? "jobs").bind fun jobs => jobs.field? "maxConcurrentJobs").bind Json.count?

theorem readConcurrent_le_iff {standard bound : Nat} (hstandard : standard ≤ bound)
    (field : Option Json) :
    readConcurrent standard field ≤ bound ↔ ∀ n ∈ field.bind Json.count?, n ≤ bound := by
  unfold readConcurrent
  cases field.bind Json.count? with
  | none => simp [hstandard]
  | some n =>
    cases n with
    | zero => simp [hstandard]
    | succ n => simp

theorem maxConcurrent_of_read? (h : read? processors settings = some s) :
    ∃ field, s.maxConcurrent = readConcurrent processors field ∧
      asked? settings = field.bind Json.count? := by
  obtain ⟨jobs, hjobs, rfl⟩ := Option.map_eq_some_iff.1 h
  refine ⟨jobs.field? "maxConcurrentJobs", rfl, ?_⟩
  rw [asked?, hjobs, Option.bind_some]

end Settings

namespace Runner

theorem isSome_create?_iff {settings : Settings} {registry : Registry} :
    (create? settings registry).isSome ↔ settings.maxConcurrent ≤ maxPermits := by
  have hone : 1 ≤ maxPermits := by decide
  unfold create?
  split
  · rename_i hfits
    simp only [Option.isSome_some, true_iff]
    exact Nat.le_trans (Nat.le_max_left _ _) hfits
  · rename_i hnot
    simp only [Option.isSome_none, Bool.false_eq_true, false_iff]
    exact fun hfits => hnot (Nat.max_le.2 ⟨hfits, hone⟩)

/-- On a machine that has permits enough for its processors, settings that can be read give a
runner exactly if they do not ask for more jobs than there may be permits. -/
theorem creatable_iff_asked_le {processors : Nat} (hprocessors : processors ≤ maxPermits)
    {settings : Json} {s : Settings} (h : Settings.read? processors settings = some s)
    (registry : Registry) :
    (create? s registry).isSome ↔ ∀ n ∈ Settings.asked? settings, n ≤ maxPermits := by
  obtain ⟨field, hread, hasked⟩ := Settings.maxConcurrent_of_read? h
  rw [isSome_create?_iff, hread, hasked]
  exact Settings.readConcurrent_le_iff hprocessors field

/-- The premises hold for settings that ask for as many jobs as there may be permits, and these
settings give a runner. -/
theorem creatable_iff_asked_le_all_permits :
    let settings : Json :=
      .object [("jobs", .object [("maxConcurrentJobs", .number (.ofNat maxPermits))])]
    ∃ s, Settings.read? 1 settings = some s ∧ s.maxConcurrent = maxPermits ∧
      (create? s .new).isSome := by
  intro settings
  have hread : Settings.read? 1 settings = some ⟨maxPermits, none, false⟩ := by decide
  refine ⟨_, hread, rfl, ?_⟩
  rw [creatable_iff_asked_le (by decide) hread]
  decide

/-- Settings that ask for one job more than there may be permits are read and give no runner. -/
theorem no_runner_beyond_permits :
    let settings : Json :=
      .object [("jobs", .object [("maxConcurrentJobs", .number (.ofNat 2305843009213693952))])]
    ∃ s, Settings.read? 1 settings = some s ∧ create? s .new = none := by
  intro settings
  have hread : Settings.read? 1 settings = some ⟨2305843009213693952, none, false⟩ := by decide
  exact ⟨_, hread, by decide⟩

end Runner

end AnalysisJobs
