import AnalysisJobs.Duration
import AnalysisJobs.Request.Kind
/-!
# Timings

How long finished jobs took, summed up for each kind.  A record counts its job
first and adds its duration then; a total that would grow too long keeps the
total and the slowest duration as they were, though the job has been counted.
Counts are numbers without bound, as no machine finishes `2 ^ 64` jobs.
-/

namespace AnalysisJobs

structure Timing where
  count : Nat
  total : Duration
  slowest : Duration
  deriving DecidableEq, Repr

namespace Timing

def zero : Timing := ⟨0, .zero, .zero⟩

def overflows (t : Timing) (elapsed : Duration) : Bool := (t.total.add? elapsed).isNone

def record (t : Timing) (elapsed : Duration) : Timing :=
  match t.total.add? elapsed with
  | some total => { count := t.count + 1, total := total, slowest := t.slowest.longer elapsed }
  | none => { t with count := t.count + 1 }

/-- The mean in whole nanoseconds, rounded down and at most the largest word. -/
def mean (t : Timing) : Option Nat :=
  if t.count = 0 then none else some (min (t.total.nanos / t.count) (UInt64.size - 1))

@[simp] theorem count_record (t : Timing) (elapsed : Duration) :
    (t.record elapsed).count = t.count + 1 := by
  unfold record
  split <;> rfl

end Timing

def overflowMessage : String := "overflow when adding durations"

structure Timings where
  entry? : Kind → Option Timing

namespace Timings

def empty : Timings := ⟨fun _ => none⟩

def get (ts : Timings) (kind : Kind) : Timing := (ts.entry? kind).getD .zero

def record (ts : Timings) (kind : Kind) (elapsed : Duration) : Timings :=
  let recorded := (ts.get kind).record elapsed
  ⟨fun other => if other = kind then some recorded else ts.entry? other⟩

def ofRecords (records : List (Kind × Duration)) : Timings :=
  records.foldl (fun ts r => ts.record r.1 r.2) .empty

/-- The kinds that were recorded with their summaries, in the order of `Kind.all`. -/
def snapshot (ts : Timings) : List (Kind × Timing) :=
  Kind.all.filterMap fun kind => (ts.entry? kind).map fun t => (kind, t)

@[simp] theorem get_empty (kind : Kind) : empty.get kind = .zero := rfl

theorem get_record (ts : Timings) (kind other : Kind) (elapsed : Duration) :
    (ts.record kind elapsed).get other =
      if other = kind then (ts.get kind).record elapsed else ts.get other := by
  unfold record get
  split <;> simp [*]

theorem count_get_ofRecords (records : List (Kind × Duration)) (kind : Kind) :
    ((ofRecords records).get kind).count = records.countP fun r => r.1 = kind := by
  suffices h : ∀ ts : Timings,
      ((records.foldl (fun ts r => ts.record r.1 r.2) ts).get kind).count =
        (ts.get kind).count + records.countP fun r => r.1 = kind by
    rw [ofRecords, h, get_empty]
    exact Nat.zero_add _
  induction records with
  | nil => exact fun ts => rfl
  | cons r rest ih =>
    intro ts
    rw [List.foldl_cons, ih, get_record, List.countP_cons]
    by_cases hkind : r.1 = kind
    · simp only [hkind, if_true, Timing.count_record, decide_true]
      omega
    · simp [hkind, Ne.symm hkind]

end Timings

end AnalysisJobs
