/-!
# Kinds of requests and what they require

Each kind of analysis comes with the conditions under which a request of that
kind is still worth running.  Completion asks for the least, since the live
buffer is exactly what it should complete against.
-/

namespace AnalysisJobs

/-- A condition on the registry that a request can require. -/
inductive Requirement
  | documentOpen
  | projectExists
  | currentProject
  | currentRevision
  | currentBuffers
  | documentIntact
  deriving DecidableEq, Repr

namespace Requirement

/-- Every requirement, from the lowest bit of a mask to the highest. -/
def all : List Requirement :=
  [documentOpen, projectExists, currentProject, currentRevision, currentBuffers, documentIntact]

def bit : Requirement → Nat
  | documentOpen => 0
  | projectExists => 1
  | currentProject => 2
  | currentRevision => 3
  | currentBuffers => 4
  | documentIntact => 5

def label : Requirement → String
  | documentOpen => "DOCUMENT_OPEN"
  | projectExists => "PROJECT_EXISTS"
  | currentProject => "CURRENT_PROJECT_PART"
  | currentRevision => "CURRENT_DOCUMENT_REVISION"
  | currentBuffers => "CURRENT_UNSAVED_FILES"
  | documentIntact => "DOCUMENT_INTACT"

end Requirement

structure Requirements where
  documentOpen : Bool
  projectExists : Bool
  currentProject : Bool
  currentRevision : Bool
  currentBuffers : Bool
  documentIntact : Bool
  deriving DecidableEq, Repr

namespace Requirements

def has (r : Requirements) : Requirement → Bool
  | .documentOpen => r.documentOpen
  | .projectExists => r.projectExists
  | .currentProject => r.currentProject
  | .currentRevision => r.currentRevision
  | .currentBuffers => r.currentBuffers
  | .documentIntact => r.documentIntact

def ofTest (p : Requirement → Bool) : Requirements where
  documentOpen := p .documentOpen
  projectExists := p .projectExists
  currentProject := p .currentProject
  currentRevision := p .currentRevision
  currentBuffers := p .currentBuffers
  documentIntact := p .documentIntact

def empty : Requirements := ofTest fun _ => false

def full : Requirements := ofTest fun _ => true

def toList (r : Requirements) : List Requirement := Requirement.all.filter r.has

/-- The set as a mask of bits. -/
def mask (r : Requirements) : Nat := r.toList.foldl (fun bits q => bits ||| 1 <<< q.bit) 0

/-- The set of a mask; bits that stand for nothing are ignored. -/
def ofMask (mask : Nat) : Requirements := ofTest fun q => mask.testBit q.bit

def covers (r s : Requirements) : Bool := s.toList.all r.has

def touches (r s : Requirements) : Bool := s.toList.any r.has

def text (r : Requirements) : String :=
  let members := match r.toList with
    | [] => "0x0"
    | members => String.intercalate " | " (members.map Requirement.label)
  "Requirements(" ++ members ++ ")"

@[simp] theorem has_ofTest (p : Requirement → Bool) (q : Requirement) :
    (ofTest p).has q = p q := by
  cases q <;> rfl

theorem mem_toList {r : Requirements} {q : Requirement} : q ∈ r.toList ↔ r.has q = true := by
  simp only [toList, List.mem_filter, and_iff_right_iff_imp]
  intro _
  cases q <;> simp [Requirement.all]

theorem covers_iff {r s : Requirements} :
    r.covers s = true ↔ ∀ q, s.has q = true → r.has q = true := by
  simp only [covers, List.all_eq_true, mem_toList]

theorem touches_iff {r s : Requirements} :
    r.touches s = true ↔ ∃ q, s.has q = true ∧ r.has q = true := by
  simp only [touches, List.any_eq_true, mem_toList]

end Requirements

inductive Kind
  /-- Parse again after an edit and publish fresh annotations. -/
  | updateAnnotations
  /-- Publish annotations of the present parse on demand. -/
  | requestAnnotations
  | completeCode
  | buildPreamble
  deriving DecidableEq, Repr

namespace Kind

/-- Every kind, in the order in which tables list them. -/
def all : List Kind := [updateAnnotations, requestAnnotations, completeCode, buildPreamble]

def name : Kind → String
  | updateAnnotations => "UpdateDocumentAnnotations"
  | requestAnnotations => "RequestDocumentAnnotations"
  | completeCode => "CompleteCode"
  | buildPreamble => "CreateInitialDocumentPreamble"

def ofName? (name : String) : Option Kind := all.find? fun k => k.name = name

/-- What a request of the kind requires: every kind an open and intact document
and a project, annotations also that nothing changed, and a preamble that the
project did not change. -/
def requirements : Kind → Requirements
  | updateAnnotations | requestAnnotations => .full
  | completeCode =>
    .ofTest fun
      | .documentOpen | .projectExists | .documentIntact => true
      | _ => false
  | buildPreamble =>
    .ofTest fun
      | .documentOpen | .projectExists | .documentIntact | .currentProject => true
      | _ => false

/-- Whether a successful run leaves the document freshly parsed. -/
def producesParse : Kind → Bool
  | updateAnnotations | buildPreamble => true
  | requestAnnotations | completeCode => false

theorem completeCode_covered (k : Kind) :
    k.requirements.covers completeCode.requirements = true := by
  cases k <;> decide

end Kind

end AnalysisJobs
