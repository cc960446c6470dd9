import AnalysisJobs.Request.Basic
import AnalysisJobs.Text.Quoted
/-!
# Outcomes of jobs

What a job produced, or why it produced nothing.  A call of the backend may
also crash, and then there is no result at all.
-/

namespace AnalysisJobs

/-- What a successful job produced; the payloads stay with the backend. -/
inductive Output
  | annotations (revision : UInt32)
  | preamble
  /-- So many completions, for the request with this ticket. -/
  | completions (ticket : UInt64) (count : Nat)
  deriving DecidableEq, Repr

namespace Output

/-- The output that fits a request. -/
def fitting (r : Request) (count : Nat) : Output :=
  match r.kind with
  | .updateAnnotations | .requestAnnotations => .annotations r.revision
  | .completeCode => .completions r.ticket count
  | .buildPreamble => .preamble

def text : Output → String
  | annotations revision =>
    "DocumentAnnotations \x7b revision: " ++ toString revision.toNat ++ " \x7d"
  | preamble => "Preamble"
  | completions ticket count =>
    "Completions \x7b ticket_number: " ++ toString ticket.toNat ++
      ", count: " ++ toString count ++ " \x7d"

end Output

inductive Failure
  | parseFailed (path : Path) (message : String)
  | cancelled
  /-- The backend failed: what went wrong at the root, and then the contexts in
  which it did, the outermost last. -/
  | backend (root : String) (contexts : List String)
  deriving DecidableEq, Repr

namespace Failure

/-- What a backend's failure says, from the outermost context to the root. -/
def chain : Failure → List String
  | backend root contexts => contexts.reverse ++ [root]
  | _ => []

/-- What a failure says in one line: of a chain, the outermost. -/
def message : Failure → String
  | parseFailed path message => "parse failed for " ++ Text.quoted path.text ++ ": " ++ message
  | cancelled => "job cancelled"
  | backend root contexts => contexts.getLastD root

def fullMessage (f : Failure) : String :=
  match f with
  | backend .. => String.intercalate ": " f.chain
  | f => f.message

def sources (f : Failure) : List String := f.chain.tail

end Failure

inductive Result
  | ok (output : Output)
  | failed (failure : Failure)
  deriving DecidableEq, Repr

inductive Ending
  | returned (result : Result)
  /-- The call took its job down with it. -/
  | crashed
  deriving DecidableEq, Repr

def crashMessage : String := "backend crashed"

end AnalysisJobs
