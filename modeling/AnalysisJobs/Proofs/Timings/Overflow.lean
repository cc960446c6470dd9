import AnalysisJobs.Proofs.Timings.Sums
/-!
# Records that leave the range

A record counts its job before it adds the duration.  If the sum leaves the range, the count has
been raised for a duration that no total holds: the rest of the timing, and the timing of every
other kind, stays as it was.  From then on the count says more than how many durations were summed
up.
-/

namespace AnalysisJobs

open Duration

namespace Duration

variable {ds : List Duration} {total : Nat}

theorem fitting_append (total : Nat) (ds es : List Duration) :
    fitting total (ds ++ es) =
      fitting total ds ++ fitting (total + sumOf (fitting total ds)) es := by
  induction ds generalizing total with
  | nil => rfl
  | cons d rest ih =>
    rw [List.cons_append, fitting, fitting]
    split
    · rw [ih, sumOf_cons, List.cons_append, Nat.add_assoc]
    · exact ih total

theorem fitting_sublist (total : Nat) (ds : List Duration) : (fitting total ds).Sublist ds := by
  induction ds generalizing total with
  | nil => exact .slnil
  | cons d rest ih =>
    rw [fitting]
    split
    · exact (ih _).cons_cons d
    · exact (ih _).cons d

theorem length_fitting_eq_iff (htotal : total < durationLimit) :
    (fitting total ds).length = ds.length ↔ total + sumOf ds < durationLimit := by
  induction ds generalizing total with
  | nil => exact iff_of_true rfl htotal
  | cons d rest ih =>
    rw [fitting, sumOf_cons, ← Nat.add_assoc]
    split
    · rename_i hlt
      rw [List.length_cons, List.length_cons, Nat.add_right_cancel_iff, ih hlt]
    · have hle := (fitting_sublist total rest).length_le
      rw [List.length_cons]
      omega

end Duration

namespace Timings

variable {records : List (Kind × Duration)} {kind : Kind} {elapsed : Duration}

theorem durationsOf_concat (records : List (Kind × Duration)) (kind : Kind) (d : Duration) :
    durationsOf kind (records ++ [(kind, d)]) = durationsOf kind records ++ [d] := by
  simp [durationsOf]

theorem summedOf_concat_of_overflow
    (h : durationLimit ≤ ((ofRecords records).get kind).total.nanos + elapsed.nanos) :
    summedOf kind (records ++ [(kind, elapsed)]) = summedOf kind records := by
  have htotal := (sums_ofRecords records kind).2.1
  rw [htotal] at h
  rw [summedOf, durationsOf_concat, fitting_append, Nat.zero_add]
  have hnone : fitting (sumOf (summedOf kind records)) [elapsed] = [] :=
    if_neg (Nat.not_lt.2 h)
  exact (congrArg _ hnone).trans (List.append_nil _)

theorem isRecorded_of_overflow {ts : Timings}
    (h : durationLimit ≤ (ts.get kind).total.nanos + elapsed.nanos) : ts.isRecorded kind := by
  have hlimit := elapsed.lt_limit
  by_contra hnone
  have hzero : ts.get kind = .zero := by
    rw [get, entry_eq, if_neg hnone]
    rfl
  rw [hzero] at h
  exact absurd h (Nat.not_le.2 ((Nat.zero_add _).trans_lt hlimit))

theorem get_record_of_overflow {ts : Timings}
    (h : durationLimit ≤ (ts.get kind).total.nanos + elapsed.nanos) (other : Kind) :
    (ts.record kind elapsed).get other =
      { ts.get other with count := (ts.get other).count + if other = kind then 1 else 0 } := by
  rw [get_record]
  split
  · rename_i hkind
    rw [Timing.record_of_le h, hkind]
  · rfl

theorem count_eq_length_summedOf_iff (records : List (Kind × Duration)) (kind : Kind) :
    ((ofRecords records).get kind).count = (summedOf kind records).length ↔
      sumOf (durationsOf kind records) < durationLimit := by
  rw [(sums_ofRecords records kind).1, eq_comm, summedOf,
    length_fitting_eq_iff (by decide), Nat.zero_add]

/-- A record that would take the total of its kind out of range is counted and changes nothing
else: total and slowest of every kind, the counts of the other kinds and the kinds of a snapshot
stay as they are.  The duration is not one of those summed up, which are therefore fewer than the
count says.  Before it, a count is the number of durations summed up exactly if all durations of
its kind together stay in range. -/
theorem overflowing_record_counted
    (hoverflow : durationLimit ≤ ((ofRecords records).get kind).total.nanos + elapsed.nanos) :
    let before := ofRecords records
    let after := before.record kind elapsed
    (∀ other,
        (after.get other).total = (before.get other).total ∧
          (after.get other).slowest = (before.get other).slowest ∧
          (after.get other).count = (before.get other).count + if other = kind then 1 else 0) ∧
      after.snapshot.map Prod.fst = before.snapshot.map Prod.fst ∧
      summedOf kind (records ++ [(kind, elapsed)]) = summedOf kind records ∧
      (summedOf kind records).length < (after.get kind).count ∧
      ∀ other, (before.get other).count = (summedOf other records).length ↔
        sumOf (durationsOf other records) < durationLimit := by
  intro before after
  have hget : ∀ other, after.get other = _ := get_record_of_overflow hoverflow
  refine ⟨fun other => ?_, ?_, summedOf_concat_of_overflow hoverflow, ?_,
    count_eq_length_summedOf_iff records⟩
  · rw [hget]
    exact ⟨rfl, rfl, rfl⟩
  · rw [map_fst_snapshot, map_fst_snapshot]
    refine List.filter_congr fun other _ => ?_
    rw [Bool.eq_iff_iff, isRecorded_record, or_iff_right_iff_imp]
    rintro rfl
    exact isRecorded_of_overflow hoverflow
  · rw [hget, if_pos rfl, (sums_ofRecords records kind).1]
    exact Nat.lt_succ_of_le (fitting_sublist 0 _).length_le

/-- The longest span leaves no room for one more nanosecond: of two records of annotations one
duration is summed up, and completions are not touched. -/
theorem overflowing_record_counted_longest :
    let nanosecond : Duration := ⟨1, by decide⟩
    let records : List (Kind × Duration) :=
      [(.updateAnnotations, ⟨durationLimit - 1, by decide⟩), (.completeCode, ⟨5, by decide⟩)]
    let before := ofRecords records
    let after := before.record .updateAnnotations nanosecond
    durationLimit ≤ (before.get .updateAnnotations).total.nanos + nanosecond.nanos ∧
      (after.get .updateAnnotations).total.nanos = durationLimit - 1 ∧
      (after.get .updateAnnotations).count = 2 ∧
      (summedOf .updateAnnotations records).length < 2 ∧
      (after.get .completeCode).count = (before.get .completeCode).count := by
  intro nanosecond records before after
  have hoverflow :
      durationLimit ≤ (before.get .updateAnnotations).total.nanos + nanosecond.nanos := by
    decide +kernel
  obtain ⟨hrest, -, -, hfewer, -⟩ := overflowing_record_counted hoverflow
  obtain ⟨htotal, -, hcount⟩ := hrest .updateAnnotations
  have hlongest : (before.get .updateAnnotations).total.nanos = durationLimit - 1 := by
    decide +kernel
  have htwo : (after.get .updateAnnotations).count = 2 := hcount
  refine ⟨hoverflow, ?_, htwo, ?_, (hrest .completeCode).2.2⟩
  · rw [htotal, hlongest]
  · rwa [← htwo]

/-- A record that leaves the range does not leave the timing of its kind as it was: one nanosecond
more than the longest span is counted, and the total does not hold it. -/
theorem count_raised_out_of_range :
    let nanosecond : Duration := ⟨1, by decide⟩
    let before := ofRecords [(.updateAnnotations, ⟨durationLimit - 1, by decide⟩)]
    let after := before.record .updateAnnotations nanosecond
    durationLimit ≤ (before.get .updateAnnotations).total.nanos + nanosecond.nanos ∧
      (after.get .updateAnnotations).count ≠ (before.get .updateAnnotations).count ∧
      (after.get .updateAnnotations).total = (before.get .updateAnnotations).total := by
  decide +kernel

end Timings

end AnalysisJobs
