import AnalysisJobs.Settings
/-!
# Settings are decided field by field

Each setting has one field of the `jobs` section for it.  Either the field holds a value that says
something about the setting, which is then taken as it stands, or the setting keeps its default;
what else the section holds makes no difference.  What a field says is told here by the value
that it holds, so that one sees which values say nothing: a number with a sign, a point or an
exponent, one that no word can hold, a value of another type, and a zero where none is allowed.
-/

namespace AnalysisJobs.Settings

variable {processors : Nat} {settings : Json} {s : Settings} {field : Option Json}

/-! ## What a field says -/

/-- A number of jobs or of requests that settings can ask for. -/
def IsLimit (n : Nat) : Prop := 0 < n ∧ n < UInt64.size

def SaysLimit (field : Option Json) (n : Nat) : Prop :=
  field = some (.number (.ofNat n)) ∧ IsLimit n

/-- Null and zero both say that there is no bound. -/
def SaysBound (field : Option Json) : Option Nat → Prop
  | none => field = some .null ∨ field = some (.number (.ofNat 0))
  | some n => SaysLimit field n

def SaysFlag (field : Option Json) (b : Bool) : Prop := field = some (.bool b)

/-- The value is what is said, or the default if nothing is said. -/
def Decided {α : Type} (said : α → Prop) (standard value : α) : Prop :=
  said value ∨ (∀ v, ¬ said v) ∧ value = standard

theorem Decided.unique {α : Type} {said : α → Prop} {standard v w : α}
    (hunique : ∀ v w, said v → said w → v = w) (hv : Decided said standard v)
    (hw : Decided said standard w) : v = w := by
  rcases hv with hv | ⟨hnone, rfl⟩
  · rcases hw with hw | ⟨hnone, -⟩
    · exact hunique v w hv hw
    · exact absurd hv (hnone v)
  · rcases hw with hw | ⟨-, rfl⟩
    · exact absurd hw (hnone w)
    · rfl

theorem saysLimit_unique (m n : Nat) (hm : SaysLimit field m) (hn : SaysLimit field n) :
    m = n := by
  have heq := hm.1.symm.trans hn.1
  simpa [Numeral.ofNat] using heq

theorem saysBound_unique (a b : Option Nat) (ha : SaysBound field a) (hb : SaysBound field b) :
    a = b := by
  cases a <;> cases b <;> grind [SaysBound, SaysLimit, IsLimit, Numeral.ofNat]

theorem saysFlag_unique (a b : Bool) (ha : SaysFlag field a) (hb : SaysFlag field b) :
    a = b := by
  have heq := ha.symm.trans hb
  simpa using heq

/-! ## Reading one setting -/

theorem bind_count?_eq_some_iff {n : Nat} :
    field.bind Json.count? = some n ↔ field = some (.number (.ofNat n)) ∧ n < UInt64.size := by
  cases field with
  | none => simp
  | some v => simp [Json.count?_eq_some_iff]

theorem saysLimit_iff {n : Nat} :
    SaysLimit field n ↔ field.bind Json.count? = some n ∧ 0 < n := by
  rw [bind_count?_eq_some_iff, SaysLimit, IsLimit]
  grind

theorem decided_readConcurrent (standard : Nat) (field : Option Json) :
    Decided (SaysLimit field) standard (readConcurrent standard field) := by
  unfold readConcurrent
  split
  · rename_i hzero
    refine .inr ⟨fun n hn => ?_, rfl⟩
    obtain ⟨hcount, hpos⟩ := saysLimit_iff.1 hn
    grind
  · rename_i n hne hcount
    exact .inl (saysLimit_iff.2 ⟨hcount, Nat.pos_of_ne_zero hne⟩)
  · rename_i hnone
    refine .inr ⟨fun n hn => ?_, rfl⟩
    have hcount := (saysLimit_iff.1 hn).1
    grind

theorem decided_readBatch (standard : Option Nat) (field : Option Json) :
    Decided (SaysBound field) standard (readBatch standard field) := by
  unfold readBatch
  split
  · refine .inr ⟨fun bound hbound => ?_, rfl⟩
    cases bound <;> simp [SaysBound, SaysLimit] at hbound
  · exact .inl (.inl rfl)
  rename_i v hnull
  split
  · rename_i hzero
    exact .inl (.inr (congrArg some (Json.count?_eq_some_iff.1 hzero).1))
  · rename_i n hne hcount
    exact .inl (saysLimit_iff.2 ⟨hcount, Nat.pos_of_ne_zero hne⟩)
  · rename_i hnone
    refine .inr ⟨fun bound hbound => ?_, rfl⟩
    cases bound with
    | none =>
      rcases hbound with hbound | hbound
      · exact hnull (Option.some.inj hbound)
      · cases hbound
        simp [Json.count?, Numeral.count?, Numeral.ofNat] at hnone
    | some n =>
      have hcount := (saysLimit_iff.1 hbound).1
      grind

theorem decided_readDefer (standard : Bool) (field : Option Json) :
    Decided (SaysFlag field) standard (readDefer standard field) := by
  rw [readDefer]
  cases hbool : field.bind Json.bool? with
  | none =>
    refine .inr ⟨fun b hb => ?_, rfl⟩
    rw [hb] at hbool
    cases hbool
  | some b =>
    obtain ⟨v, hv, hb⟩ := Option.bind_eq_some_iff.1 hbool
    exact .inl (hv.trans (congrArg some (Json.bool?_eq_some_iff.1 hb)))

/-! ## Reading all settings -/

def own? (settings : Json) (name : String) : Option Json :=
  (settings.field? "jobs").bind fun jobs => jobs.field? name

/-- Each setting is decided by its own field. -/
structure FieldByField (processors : Nat) (settings : Json) (s : Settings) : Prop where
  maxConcurrent : Decided (SaysLimit (own? settings "maxConcurrentJobs"))
    (Settings.default processors).maxConcurrent s.maxConcurrent
  maxBatch : Decided (SaysBound (own? settings "maxBatchSize"))
    (Settings.default processors).maxBatch s.maxBatch
  deferHidden : Decided (SaysFlag (own? settings "deferHiddenDocuments"))
    (Settings.default processors).deferHidden s.deferHidden

theorem FieldByField.unique {t : Settings} (hs : FieldByField processors settings s)
    (ht : FieldByField processors settings t) : s = t := by
  have hconcurrent := hs.maxConcurrent.unique saysLimit_unique ht.maxConcurrent
  have hbatch := hs.maxBatch.unique saysBound_unique ht.maxBatch
  have hdefer := hs.deferHidden.unique saysFlag_unique ht.deferHidden
  cases s
  cases t
  simp only [mk.injEq]
  exact ⟨hconcurrent, hbatch, hdefer⟩

theorem isSome_read?_iff : (read? processors settings).isSome ↔ settings.HasField "jobs" := by
  rw [read?, Option.isSome_map, Json.isSome_field?_iff]

theorem fieldByField_of_read? (h : read? processors settings = some s) :
    FieldByField processors settings s := by
  obtain ⟨jobs, hjobs, rfl⟩ := Option.map_eq_some_iff.1 h
  have hown (name : String) : own? settings name = jobs.field? name := by
    rw [own?, hjobs, Option.bind_some]
  constructor
  · rw [hown]
    exact decided_readConcurrent _ _
  · rw [hown]
    exact decided_readBatch _ _
  · rw [hown]
    exact decided_readDefer _ _

theorem read?_eq_some_iff :
    read? processors settings = some s ↔
      settings.HasField "jobs" ∧ FieldByField processors settings s := by
  constructor
  · intro h
    exact ⟨isSome_read?_iff.1 (Option.isSome_of_eq_some h), fieldByField_of_read? h⟩
  · rintro ⟨hjobs, hfields⟩
    obtain ⟨t, ht⟩ := Option.isSome_iff_exists.1 (isSome_read?_iff.2 hjobs)
    rw [ht, (fieldByField_of_read? ht).unique hfields]

theorem FieldByField.maxBatch_ne_zero (h : FieldByField processors settings s) :
    s.maxBatch ≠ some 0 := by
  intro hzero
  rcases h.maxBatch with hsaid | ⟨-, hdefault⟩
  · rw [hzero] at hsaid
    exact Nat.lt_irrefl 0 hsaid.2.1
  · rw [hzero] at hdefault
    cases hdefault

theorem FieldByField.maxConcurrent_pos (h : FieldByField processors settings s)
    (hprocessors : 0 < processors) : 0 < s.maxConcurrent := by
  rcases h.maxConcurrent with hsaid | ⟨-, hdefault⟩
  · exact hsaid.2.1
  · rwa [hdefault]

/-! ## Writing settings -/

/-- Settings that a section can spell out. -/
structure Writable (s : Settings) : Prop where
  maxConcurrent : IsLimit s.maxConcurrent
  maxBatch : ∀ n ∈ s.maxBatch, IsLimit n

theorem own?_toJson (s : Settings) :
    own? s.toJson "maxConcurrentJobs" = some (.number (.ofNat s.maxConcurrent)) ∧
      own? s.toJson "maxBatchSize" =
        some ((s.maxBatch.map fun n => .number (.ofNat n)).getD .null) ∧
      own? s.toJson "deferHiddenDocuments" = some (.bool s.deferHidden) :=
  ⟨rfl, rfl, rfl⟩

theorem Writable.fieldByField (h : s.Writable) (processors : Nat) :
    FieldByField processors s.toJson s := by
  obtain ⟨hconcurrent, hbatch, hdefer⟩ := own?_toJson s
  constructor
  · exact .inl ⟨hconcurrent, h.maxConcurrent⟩
  · rw [hbatch]
    left
    cases hbound : s.maxBatch with
    | none => exact .inl rfl
    | some n => exact ⟨rfl, h.maxBatch n hbound⟩
  · exact .inl hdefer

/-- Reading settings needs a section and nothing else, and decides each setting by its own field
alone: whatever stands beside it, two sections that agree on the field agree on the setting.  No
limit that is read is zero on a machine with processors, and settings that a section can spell out
are read from what spells them out. -/
theorem read_field_by_field (processors : Nat) (settings : Json) :
    (read? processors settings = none ↔ ¬ settings.HasField "jobs") ∧
      (∀ s, read? processors settings = some s ↔
        settings.HasField "jobs" ∧ FieldByField processors settings s) ∧
      (∀ other s t, read? processors settings = some s → read? processors other = some t →
        (own? settings "maxConcurrentJobs" = own? other "maxConcurrentJobs" →
            s.maxConcurrent = t.maxConcurrent) ∧
          (own? settings "maxBatchSize" = own? other "maxBatchSize" →
            s.maxBatch = t.maxBatch) ∧
          (own? settings "deferHiddenDocuments" = own? other "deferHiddenDocuments" →
            s.deferHidden = t.deferHidden)) ∧
      (∀ s, read? processors settings = some s →
        s.maxBatch ≠ some 0 ∧ (0 < processors → s.maxConcurrent ≠ 0)) ∧
      ∀ s : Settings, s.Writable → read? processors s.toJson = some s := by
  refine ⟨?_, fun s => read?_eq_some_iff, fun other s t hs ht => ?_, fun s hs => ?_,
    fun s hs => ?_⟩
  · exact Option.not_isSome_iff_eq_none.symm.trans (not_congr isSome_read?_iff)
  · have hread := fieldByField_of_read? hs
    have hother := fieldByField_of_read? ht
    refine ⟨fun hown => ?_, fun hown => ?_, fun hown => ?_⟩
    · exact (hown ▸ hread.maxConcurrent).unique saysLimit_unique hother.maxConcurrent
    · exact (hown ▸ hread.maxBatch).unique saysBound_unique hother.maxBatch
    · exact (hown ▸ hread.deferHidden).unique saysFlag_unique hother.deferHidden
  · have hread := fieldByField_of_read? hs
    exact ⟨hread.maxBatch_ne_zero, fun hprocessors =>
      Nat.ne_of_gt (hread.maxConcurrent_pos hprocessors)⟩
  · exact read?_eq_some_iff.2 ⟨⟨_, rfl, List.mem_singleton.2 rfl⟩, hs.fieldByField processors⟩

/-- Of a section with a zero for the number of jobs, a bound with a fraction and a field that means
nothing, only the flag counts, and it counts as it does where it stands alone. -/
theorem read_field_by_field_malformed :
    let settings : Json := .object [("jobs", .object
      [("maxConcurrentJobs", .number (.ofNat 0)), ("maxBatchSize", .number ⟨false, 8, [5], none⟩),
        ("other", .array []), ("deferHiddenDocuments", .bool true)])]
    let alone : Json := .object [("jobs", .object [("deferHiddenDocuments", .bool true)])]
    ∃ s t, read? 4 settings = some s ∧ read? 4 alone = some t ∧ s.deferHidden = t.deferHidden ∧
      s.maxBatch ≠ some 0 ∧ s.maxConcurrent ≠ 0 ∧ s.Writable ∧ read? 4 s.toJson = some s := by
  intro settings alone
  have hread : read? 4 settings = some ⟨4, none, true⟩ := rfl
  have halone : read? 4 alone = some ⟨4, none, true⟩ := rfl
  have hwritable : Writable ⟨4, none, true⟩ := ⟨⟨by decide, by decide⟩, by simp⟩
  obtain ⟨-, -, hbeside, hlimits, hwritten⟩ := read_field_by_field 4 settings
  obtain ⟨hbatch, hconcurrent⟩ := hlimits _ hread
  exact ⟨_, _, hread, halone, (hbeside alone _ _ hread halone).2.2 rfl, hbatch,
    hconcurrent (by decide), hwritable, hwritten _ hwritable⟩

end AnalysisJobs.Settings
