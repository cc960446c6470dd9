import AnalysisJobs.Document.Basic
/-!
# What a scheduler reads

A scheduler asks three questions of a registry.  That something is absent is an
ordinary answer: a closed document or a removed project is what makes the
requests that name it stale.
-/

namespace AnalysisJobs

/-- A read-only view of a registry. -/
structure View where
  document : DocumentKey → Option Document
  /-- When a project last changed, if it exists. -/
  projectChange : ProjectId → Option Stamp
  buffersChange : Stamp

end AnalysisJobs
