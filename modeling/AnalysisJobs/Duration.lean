/-!
# Durations

Spans of time in whole nanoseconds, kept below `2 ^ 64` seconds.  Adding may
leave that range, and then there is no sum.
-/

namespace AnalysisJobs

def nanosPerSecond : Nat := 1000000000

/-- The first number of nanoseconds that is too long a span. -/
def durationLimit : Nat := UInt64.size * nanosPerSecond

structure Duration where
  nanos : Nat
  lt_limit : nanos < durationLimit
  deriving DecidableEq, Repr

namespace Duration

def ofNanos? (n : Nat) : Option Duration :=
  if h : n < durationLimit then some ⟨n, h⟩ else none

def zero : Duration := ⟨0, by decide⟩

def add? (a b : Duration) : Option Duration := ofNanos? (a.nanos + b.nanos)

def longer (a b : Duration) : Duration := if a.nanos ≤ b.nanos then b else a

def exceeds (a b : Duration) : Bool := b.nanos < a.nanos

/-- A count of a unit with the fraction that is left, without final zeros. -/
def textIn (unit : Nat) (places : Nat) (label : String) (n : Nat) : String :=
  let digits := (Nat.toDigits 10 (n % unit)).leftpad places '0'
  let kept := (digits.reverse.dropWhile (· = '0')).reverse
  let fraction := match kept with
    | [] => []
    | kept => '.' :: kept
  toString (n / unit) ++ String.ofList fraction ++ label

/-- Written form of a span, in the largest unit of which it holds at least one. -/
def text (d : Duration) : String :=
  if nanosPerSecond ≤ d.nanos then textIn nanosPerSecond 9 "s" d.nanos
  else if 1000000 ≤ d.nanos then textIn 1000000 6 "ms" d.nanos
  else if 1000 ≤ d.nanos then textIn 1000 3 "µs" d.nanos
  else toString d.nanos ++ "ns"

theorem ofNanos?_eq_none_iff {n : Nat} : ofNanos? n = none ↔ durationLimit ≤ n := by
  unfold ofNanos?
  split <;> simp <;> omega

theorem nanos_longer (a b : Duration) : (a.longer b).nanos = max a.nanos b.nanos := by
  unfold longer
  split <;> omega

end Duration

end AnalysisJobs
