import AnalysisJobs.Timings
import Mathlib.Algebra.Order.BigOperators.Group.List
import Mathlib.Algebra.Order.Ring.Nat
/-!
# What timings sum up

The timing of a kind depends on the durations recorded for this kind alone, in their order.  Its
count is how many there are.  Its total and its slowest are those of the durations that went into
the total: each of them, as long as the total stays in range.  Sums and maxima do not depend on
the order, so that timings in range do not either.
-/

namespace AnalysisJobs

namespace Duration

def sumOf (ds : List Duration) : Nat := (ds.map nanos).sum

def maxOf (ds : List Duration) : Nat := (ds.map nanos).max?.getD 0

/-- The spans that are added, one after the other, to a total of so many nanoseconds: those that
leave it in range. -/
def fitting (total : Nat) : List Duration → List Duration
  | [] => []
  | d :: rest =>
    if total + d.nanos < durationLimit then d :: fitting (total + d.nanos) rest
    else fitting total rest

variable {ds : List Duration} {total : Nat}

theorem sumOf_cons (d : Duration) (ds : List Duration) : sumOf (d :: ds) = d.nanos + sumOf ds :=
  List.sum_cons

theorem maxOf_cons (d : Duration) (ds : List Duration) :
    maxOf (d :: ds) = max d.nanos (maxOf ds) := by
  rw [maxOf, maxOf, List.map_cons, List.max?_cons', Option.getD_some, List.foldl_max]
  cases (ds.map nanos).max? <;> simp

theorem fitting_of_lt (h : total + sumOf ds < durationLimit) : fitting total ds = ds := by
  induction ds generalizing total with
  | nil => rfl
  | cons d rest ih =>
    rw [sumOf_cons] at h
    rw [fitting, if_pos (by omega), ih (by omega)]

theorem le_maxOf {d : Duration} (h : d ∈ ds) : d.nanos ≤ maxOf ds :=
  List.le_max?_getD_of_mem (List.mem_map_of_mem h)

theorem sumOf_le (ds : List Duration) : sumOf ds ≤ ds.length * maxOf ds := by
  have hbound : ∀ n ∈ ds.map nanos, n ≤ maxOf ds := by
    rintro n hn
    obtain ⟨d, hd, rfl⟩ := List.mem_map.1 hn
    exact le_maxOf hd
  simpa [sumOf] using List.sum_le_card_nsmul _ _ hbound

theorem sumOf_perm {es : List Duration} (h : ds.Perm es) : sumOf ds = sumOf es :=
  (h.map nanos).sum_eq

theorem maxOf_perm {es : List Duration} (h : ds.Perm es) : maxOf ds = maxOf es := by
  induction h with
  | nil => rfl
  | cons d _ ih => rw [maxOf_cons, maxOf_cons, ih]
  | swap d e ds =>
    simp only [maxOf_cons]
    omega
  | trans _ _ ih₁ ih₂ => exact ih₁.trans ih₂

end Duration

open Duration

/-! ## One kind -/

namespace Timing

theorem ext_nanos {t u : Timing} (hcount : t.count = u.count)
    (htotal : t.total.nanos = u.total.nanos) (hslowest : t.slowest.nanos = u.slowest.nanos) :
    t = u := by
  obtain ⟨_, ⟨_, _⟩, ⟨_, _⟩⟩ := t
  obtain ⟨_, ⟨_, _⟩, ⟨_, _⟩⟩ := u
  simp_all

theorem record_of_lt {t : Timing} {d : Duration} (h : t.total.nanos + d.nanos < durationLimit) :
    t.record d = ⟨t.count + 1, ⟨t.total.nanos + d.nanos, h⟩, t.slowest.longer d⟩ := by
  simp [record, Duration.add?, Duration.ofNanos?, h]

theorem record_of_le {t : Timing} {d : Duration} (h : durationLimit ≤ t.total.nanos + d.nanos) :
    t.record d = { t with count := t.count + 1 } := by
  rw [record, Duration.add?, Duration.ofNanos?_eq_none_iff.2 h]

theorem sums_foldl_record (ds : List Duration) (t : Timing) :
    (ds.foldl record t).total.nanos = t.total.nanos + sumOf (fitting t.total.nanos ds) ∧
      (ds.foldl record t).slowest.nanos =
        max t.slowest.nanos (maxOf (fitting t.total.nanos ds)) := by
  -- whether a duration fits depends on the total before it, so the summary is kept general
  induction ds generalizing t with
  | nil => exact ⟨rfl, (Nat.max_zero _).symm⟩
  | cons d rest ih =>
    rw [List.foldl_cons, fitting]
    obtain ⟨htotal, hslowest⟩ := ih (t.record d)
    split
    · rename_i hlt
      rw [htotal, hslowest, record_of_lt hlt, sumOf_cons, maxOf_cons, nanos_longer]
      dsimp only
      omega
    · rename_i hge
      rw [htotal, hslowest, record_of_le (Nat.le_of_not_lt hge)]
      exact ⟨rfl, rfl⟩

end Timing

/-! ## All kinds -/

namespace Timings

variable {records others : List (Kind × Duration)} {kind : Kind}

def durationsOf (kind : Kind) (records : List (Kind × Duration)) : List Duration :=
  (records.filter fun r => r.1 = kind).map Prod.snd

/-- Those of them that went into the total. -/
def summedOf (kind : Kind) (records : List (Kind × Duration)) : List Duration :=
  fitting 0 (durationsOf kind records)

def isRecorded (ts : Timings) (kind : Kind) : Bool := (ts.entry? kind).isSome

theorem durationsOf_cons (kind : Kind) (r : Kind × Duration) (rest : List (Kind × Duration)) :
    durationsOf kind (r :: rest) =
      if r.1 = kind then r.2 :: durationsOf kind rest else durationsOf kind rest := by
  unfold durationsOf
  split <;> simp [*]

theorem durationsOf_ne_nil (h : kind ∈ records.map Prod.fst) : durationsOf kind records ≠ [] := by
  obtain ⟨r, hr, rfl⟩ := List.mem_map.1 h
  refine List.ne_nil_of_mem (List.mem_map_of_mem (List.mem_filter.2 ⟨hr, ?_⟩))
  exact decide_eq_true rfl

theorem durationsOf_perm (h : records.Perm others) (kind : Kind) :
    (durationsOf kind records).Perm (durationsOf kind others) :=
  (h.filter _).map _

theorem get_ofRecords (records : List (Kind × Duration)) (kind : Kind) :
    (ofRecords records).get kind = (durationsOf kind records).foldl Timing.record .zero := by
  suffices h : ∀ ts : Timings,
      (records.foldl (fun ts r => ts.record r.1 r.2) ts).get kind =
        (durationsOf kind records).foldl Timing.record (ts.get kind) from h empty
  induction records with
  | nil => exact fun ts => rfl
  | cons r rest ih =>
    intro ts
    rw [List.foldl_cons, ih, get_record, durationsOf_cons]
    by_cases hkind : r.1 = kind
    · rw [if_pos hkind, if_pos hkind.symm, List.foldl_cons, hkind]
    · rw [if_neg hkind, if_neg (Ne.symm hkind)]

theorem isRecorded_record (ts : Timings) (kind other : Kind) (elapsed : Duration) :
    (ts.record kind elapsed).isRecorded other ↔ other = kind ∨ ts.isRecorded other := by
  by_cases h : other = kind <;> simp [isRecorded, record, h]

theorem isRecorded_ofRecords (records : List (Kind × Duration)) (kind : Kind) :
    (ofRecords records).isRecorded kind ↔ kind ∈ records.map Prod.fst := by
  suffices h : ∀ ts : Timings,
      (records.foldl (fun ts r => ts.record r.1 r.2) ts).isRecorded kind ↔
        kind ∈ records.map Prod.fst ∨ ts.isRecorded kind from
    (h empty).trans (or_iff_left Bool.false_ne_true)
  induction records with
  | nil => simp
  | cons r rest ih =>
    intro ts
    rw [List.foldl_cons, ih, isRecorded_record, List.map_cons, List.mem_cons, or_left_comm,
      or_assoc]

theorem entry_eq (ts : Timings) (kind : Kind) :
    ts.entry? kind = if ts.isRecorded kind then some (ts.get kind) else none := by
  unfold isRecorded get
  cases ts.entry? kind <;> rfl

theorem eq_of_get_eq {ts us : Timings}
    (hrecorded : ∀ kind, ts.isRecorded kind ↔ us.isRecorded kind)
    (hget : ∀ kind, ts.get kind = us.get kind) : ts = us := by
  have hentry (kind : Kind) : ts.entry? kind = us.entry? kind := by
    rw [entry_eq ts, entry_eq us, hget]
    simp only [hrecorded]
  cases ts
  cases us
  rw [mk.injEq]
  exact funext hentry

theorem snapshot_eq (ts : Timings) :
    ts.snapshot = (Kind.all.filter ts.isRecorded).map fun kind => (kind, ts.get kind) := by
  rw [snapshot, ← List.filterMap_eq_map, List.filterMap_filter]
  congr 1
  funext kind
  rw [entry_eq]
  split <;> simp [*]

theorem map_fst_snapshot (ts : Timings) :
    ts.snapshot.map Prod.fst = Kind.all.filter ts.isRecorded := by
  rw [snapshot_eq, List.map_map]
  exact List.map_id _

/-- What is known of the timing of a kind, whatever was recorded. -/
theorem sums_ofRecords (records : List (Kind × Duration)) (kind : Kind) :
    ((ofRecords records).get kind).count = (durationsOf kind records).length ∧
      ((ofRecords records).get kind).total.nanos = sumOf (summedOf kind records) ∧
      ((ofRecords records).get kind).slowest.nanos = maxOf (summedOf kind records) := by
  obtain ⟨htotal, hslowest⟩ := Timing.sums_foldl_record (durationsOf kind records) .zero
  rw [← get_ofRecords] at htotal hslowest
  refine ⟨?_, htotal.trans (Nat.zero_add _), hslowest.trans (Nat.zero_max _)⟩
  rw [count_get_ofRecords, durationsOf, List.length_map, List.countP_eq_length_filter]

theorem sums_of_lt (h : sumOf (durationsOf kind records) < durationLimit) :
    ((ofRecords records).get kind).count = (durationsOf kind records).length ∧
      ((ofRecords records).get kind).total.nanos = sumOf (durationsOf kind records) ∧
      ((ofRecords records).get kind).slowest.nanos = maxOf (durationsOf kind records) := by
  have hall : summedOf kind records = durationsOf kind records :=
    fitting_of_lt (by rwa [Nat.zero_add])
  have hsums := sums_ofRecords records kind
  rwa [hall] at hsums

theorem ofRecords_perm (hfits : ∀ kind, sumOf (durationsOf kind records) < durationLimit)
    (h : others.Perm records) : ofRecords others = ofRecords records := by
  refine eq_of_get_eq (fun kind => ?_) fun kind => ?_
  · rw [isRecorded_ofRecords, isRecorded_ofRecords]
    exact (h.map Prod.fst).mem_iff
  · have hperm := durationsOf_perm h kind
    have hother : sumOf (durationsOf kind others) < durationLimit := by
      rw [sumOf_perm hperm]
      exact hfits kind
    obtain ⟨hcount, htotal, hslowest⟩ := sums_of_lt (hfits kind)
    obtain ⟨hcount', htotal', hslowest'⟩ := sums_of_lt hother
    apply Timing.ext_nanos
    · rw [hcount, hcount', hperm.length_eq]
    · rw [htotal, htotal', sumOf_perm hperm]
    · rw [hslowest, hslowest', maxOf_perm hperm]

/-- Where the durations of each kind together stay in range, the timing of each kind has their
number, their sum and their maximum, and the order in which they were recorded makes no
difference.  A snapshot lists the kinds that were recorded in the order of all kinds.  The mean of
such a kind is the sum divided by the number, rounded down and capped at the largest word, and
never longer than the slowest. -/
theorem sums_in_range (records : List (Kind × Duration))
    (hfits : ∀ kind, sumOf (durationsOf kind records) < durationLimit) :
    let ts := ofRecords records
    (∀ kind, (ts.get kind).count = (durationsOf kind records).length ∧
        (ts.get kind).total.nanos = sumOf (durationsOf kind records) ∧
        (ts.get kind).slowest.nanos = maxOf (durationsOf kind records)) ∧
      (∀ others : List (Kind × Duration), others.Perm records →
        (∀ kind, (ofRecords others).get kind = ts.get kind) ∧
          (ofRecords others).snapshot = ts.snapshot) ∧
      ts.snapshot =
        (Kind.all.filter fun kind => kind ∈ records.map Prod.fst).map
          (fun kind => (kind, ts.get kind)) ∧
      ∀ kind ∈ records.map Prod.fst,
        let exact := sumOf (durationsOf kind records) / (durationsOf kind records).length
        ∃ mean, (ts.get kind).mean = some mean ∧
          mean = (if exact < UInt64.size then exact else UInt64.size - 1) ∧
          mean ≤ (ts.get kind).slowest.nanos := by
  intro ts
  refine ⟨fun kind => sums_of_lt (hfits kind), fun others hperm => ?_, ?_, fun kind hkind => ?_⟩
  · have heq : ofRecords others = ts := ofRecords_perm hfits hperm
    exact ⟨fun kind => by rw [heq], by rw [heq]⟩
  · rw [snapshot_eq]
    congr 1
    refine List.filter_congr fun kind _ => ?_
    rw [Bool.eq_iff_iff, isRecorded_ofRecords, decide_eq_true_iff]
  · obtain ⟨hcount, htotal, hslowest⟩ : (ts.get kind).count = _ ∧ (ts.get kind).total.nanos = _ ∧
        (ts.get kind).slowest.nanos = _ := sums_of_lt (hfits kind)
    intro exact
    have hpos : 0 < (durationsOf kind records).length :=
      List.length_pos_iff.2 (durationsOf_ne_nil hkind)
    have hle : exact ≤ maxOf (durationsOf kind records) :=
      Nat.div_le_of_le_mul (sumOf_le _)
    refine ⟨min exact (UInt64.size - 1), ?_, ?_, ?_⟩
    · rw [Timing.mean, if_neg (by omega), htotal, hcount]
    · split <;> omega
    · rw [hslowest]
      exact Nat.le_trans (Nat.min_le_left _ _) hle

/-- Completions and annotations recorded in turn: the mean of the annotations is rounded down, and
that of the completions is longer than a word can say. -/
theorem sums_in_range_two_kinds :
    let records : List (Kind × Duration) :=
      [(.completeCode, ⟨2 ^ 65, by decide⟩), (.updateAnnotations, ⟨5, by decide⟩),
        (.completeCode, ⟨2 ^ 65 + 9, by decide⟩), (.updateAnnotations, ⟨8, by decide⟩)]
    (∀ kind, sumOf (durationsOf kind records) < durationLimit) ∧
      (ofRecords records.reverse).snapshot = (ofRecords records).snapshot ∧
      ((ofRecords records).get .updateAnnotations).mean = some 6 ∧
      ((ofRecords records).get .completeCode).mean = some 18446744073709551615 := by
  intro records
  have hfits (kind : Kind) : sumOf (durationsOf kind records) < durationLimit := by
    cases kind <;> decide
  obtain ⟨-, horder, -, hmean⟩ := sums_in_range records hfits
  obtain ⟨annotations, hannotations, hsix, -⟩ := hmean .updateAnnotations (by decide)
  obtain ⟨completions, hcompletions, hcapped, -⟩ := hmean .completeCode (by decide)
  refine ⟨hfits, (horder _ records.reverse_perm).2, ?_, ?_⟩
  · rw [hannotations, hsix]
    decide
  · rw [hcompletions, hcapped]
    decide

end Timings

end AnalysisJobs
