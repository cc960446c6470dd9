import AnalysisJobs.Json.Basic
/-!
# Settings of a scheduler

How many jobs may execute at once, how many requests one pass may hand out and
whether requests for documents that are not shown wait.  Settings are read from
the `jobs` section of an editor's settings; each of them is decided by its own
field alone.
-/

namespace AnalysisJobs

structure Settings where
  maxConcurrent : Nat
  /-- Requests that one pass may hand out; none for any number. -/
  maxBatch : Option Nat
  /-- Leave the requests for documents that are not shown in the queue. -/
  deferHidden : Bool
  deriving DecidableEq, Repr

namespace Settings

def default (processors : Nat) : Settings := ⟨processors, none, false⟩

def readConcurrent (standard : Nat) (field : Option Json) : Nat :=
  match field.bind Json.count? with
  | some 0 => standard
  | some n => n
  | none => standard

def readBatch (standard : Option Nat) (field : Option Json) : Option Nat :=
  match field with
  | none => standard
  | some .null => none
  | some v =>
    match v.count? with
    | some 0 => none
    | some n => some n
    | none => standard

def readDefer (standard : Bool) (field : Option Json) : Bool :=
  (field.bind Json.bool?).getD standard

/-- Read settings; what the section does not decide keeps its default.  There
are none to read without a section. -/
def read? (processors : Nat) (settings : Json) : Option Settings :=
  (settings.field? "jobs").map fun jobs =>
    let standard := Settings.default processors
    { maxConcurrent := readConcurrent standard.maxConcurrent (jobs.field? "maxConcurrentJobs")
      maxBatch := readBatch standard.maxBatch (jobs.field? "maxBatchSize")
      deferHidden := readDefer standard.deferHidden (jobs.field? "deferHiddenDocuments") }

/-- Whether a section asks for no job to execute, which is not heeded. -/
def asksForNone (settings : Json) : Bool :=
  match settings.field? "jobs" with
  | some jobs => (jobs.field? "maxConcurrentJobs").bind Json.count? = some 0
  | none => false

def boundText : Option Nat → String
  | none => "None"
  | some n => "Some(" ++ toString n ++ ")"

def flagText (b : Bool) : String := if b then "true" else "false"

def toJson (s : Settings) : Json :=
  .object [("jobs", .object
    [("maxConcurrentJobs", .number (.ofNat s.maxConcurrent)),
      ("maxBatchSize", (s.maxBatch.map fun n => .number (.ofNat n)).getD .null),
      ("deferHiddenDocuments", .bool s.deferHidden)])]

end Settings

end AnalysisJobs
