import AnalysisJobs.Journal
/-!
# The queue of requests

Requests wait in a queue until a pass hands them out.  A pass drops what went
stale, brings the rest into the order of what the user is looking at, and takes
requests from the front: at most one for a document, none for a document that
already has a job, and, as the settings ask, none for a hidden document and no
more than a batch.  Everything else stays, in that order.
-/

namespace AnalysisJobs

inductive Priority
  | current
  | visible
  /-- Shown nowhere, or not open. -/
  | hidden
  deriving DecidableEq, Repr

namespace Priority

def rank : Priority → Nat
  | current => 0
  | visible => 1
  | hidden => 2

def name : Priority → String
  | current => "CurrentEditor"
  | visible => "Visible"
  | hidden => "Hidden"

def ofDocument : Option Document → Priority
  | none => hidden
  | some d => if d.current then current else if d.visible then visible else hidden

theorem rank_injective {p q : Priority} (h : p.rank = q.rank) : p = q := by
  cases p <;> cases q <;> simp_all [rank]

end Priority

namespace Request

def priority (r : Request) (view : View) : Priority := .ofDocument (view.document r.key)

end Request

/-- What a pass takes from the front of a prioritized queue. -/
structure Selection where
  batch : List Request
  left : List Request
  /-- The requests for whose document it was asked whether a job is running. -/
  asked : List Request
  deriving DecidableEq, Repr

namespace Selection

def empty : Selection := ⟨[], [], []⟩

def take (r : Request) (s : Selection) : Selection :=
  { s with batch := r :: s.batch, asked := r :: s.asked }

/-- The selection with a request in front that was left without asking. -/
def leave (r : Request) (s : Selection) : Selection := { s with left := r :: s.left }

/-- The selection with a request in front that was left after asking. -/
def decline (r : Request) (s : Selection) : Selection :=
  { s with left := r :: s.left, asked := r :: s.asked }

end Selection

def fillsBatch (maxBatch : Option Nat) (n : Nat) : Bool := maxBatch.any (· ≤ n)

/-- Select from requests in order.  `taken` are the documents of the requests
taken before. -/
def select (settings : Settings) (view : View) (running : DocumentKey → Bool)
    (taken : List DocumentKey) : List Request → Selection
  | [] => .empty
  | r :: rest =>
    if fillsBatch settings.maxBatch taken.length then
      (select settings view running taken rest).leave r
    else if taken.any fun k => k.Same r.key then
      (select settings view running taken rest).leave r
    else if running r.key then
      (select settings view running taken rest).decline r
    else if settings.deferHidden && r.priority view = .hidden then
      (select settings view running taken rest).decline r
    else (select settings view running (r.key :: taken) rest).take r

theorem length_select (settings : Settings) (view : View) (running : DocumentKey → Bool)
    (taken : List DocumentKey) (rs : List Request) :
    (select settings view running taken rs).batch.length +
      (select settings view running taken rs).left.length = rs.length := by
  induction rs generalizing taken with
  | nil => rfl
  | cons r rest ih =>
    have hsame := ih taken
    have htaken := ih (r.key :: taken)
    unfold select
    repeat' split
    all_goals simp only [Selection.leave, Selection.decline, Selection.take, List.length_cons]
    all_goals omega

structure Queue where
  pending : List Request
  settings : Settings
  deriving DecidableEq, Repr

structure Pass where
  dropped : List (Request × Staleness)
  selection : Selection
  deriving DecidableEq, Repr

namespace Queue

def empty (settings : Settings) : Queue := ⟨[], settings⟩

def add (q : Queue) (r : Request) : Queue := { q with pending := q.pending ++ [r] }

def size (q : Queue) : Nat := q.pending.length

/-- Whether one request is at least as urgent as another. -/
def urgent (view : View) (r s : Request) : Bool :=
  (r.priority view).rank ≤ (s.priority view).rank

/-- Requests in the order of their urgency; those of one priority keep their
order. -/
def sortByPriority (view : View) (rs : List Request) : List Request :=
  rs.mergeSort (urgent view)

def prioritize (q : Queue) (view : View) : Queue :=
  { q with pending := sortByPriority view q.pending }

def stale (q : Queue) (view : View) : List (Request × Staleness) :=
  q.pending.filterMap fun r => (r.staleness view).map fun reason => (r, reason)

def fresh (q : Queue) (view : View) : List Request :=
  q.pending.filter fun r => !r.isStale view

/-- A pass over the queue; `running` says which documents have a job. -/
def pass (q : Queue) (view : View) (running : DocumentKey → Bool) : Pass where
  dropped := q.stale view
  selection := select q.settings view running [] (sortByPriority view (q.fresh view))

def afterPass (q : Queue) (p : Pass) : Queue := { q with pending := p.selection.left }

theorem length_pass_le (q : Queue) (view : View) (running : DocumentKey → Bool) :
    (q.pass view running).selection.batch.length +
      (q.pass view running).selection.left.length ≤ q.size := by
  rw [pass, length_select, sortByPriority, List.length_mergeSort]
  exact List.length_filter_le _ _

/-! ## Written form -/

def stampText (s : Stamp) : String := "TimePoint(" ++ toString s.tick.toNat ++ ")"

def fieldsText (name : String) (fields : List (String × String)) (ending : String) : String :=
  name ++ " \x7b " ++ String.intercalate ", " (fields.map fun f => f.1 ++ ": " ++ f.2) ++
    ending ++ " \x7d"

def requestText (r : Request) : String :=
  fieldsText "JobRequest"
    [("request_type", r.kind.name), ("file_path", Text.quoted r.key.path.text),
      ("project_part_id", "ProjectPartId(" ++ Text.quoted r.key.project ++ ")"),
      ("document_revision", toString r.revision.toNat),
      ("document_opened_at", stampText r.openedAt),
      ("unsaved_files_change_time_point", stampText r.buffersAt),
      ("project_change_time_point", stampText r.projectAt),
      ("requirements", r.requirements.text), ("line", toString r.line.toNat),
      ("column", toString r.column.toNat), ("ticket_number", toString r.ticket.toNat)] ""

def settingsText (s : Settings) : String :=
  fieldsText "SchedulerConfig"
    [("max_concurrent_jobs", toString s.maxConcurrent),
      ("max_batch_size", Settings.boundText s.maxBatch),
      ("defer_hidden_documents", Settings.flagText s.deferHidden)] ""

def text (q : Queue) : String :=
  fieldsText "JobQueue"
    [("queue", "[" ++ String.intercalate ", " (q.pending.map requestText) ++ "]"),
      ("config", settingsText q.settings)] ", .."

end Queue

namespace Pass

def batch (p : Pass) : List Request := p.selection.batch

def left (p : Pass) : List Request := p.selection.left

def events (p : Pass) (running : DocumentKey → Bool) : List Event :=
  p.dropped.map (fun d => .dropped d.1 d.2) ++
    (p.selection.asked.filter fun r => running r.key).map .held ++
    [.passed p.batch.length p.left.length]

end Pass

end AnalysisJobs
