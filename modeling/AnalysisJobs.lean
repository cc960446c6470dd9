import AnalysisJobs.Proofs.Queue.Chunks
import AnalysisJobs.Proofs.Queue.Draining
import AnalysisJobs.Proofs.Queue.Spelling
import AnalysisJobs.Proofs.Queue.TieBreak
import AnalysisJobs.Proofs.Queue.Verdicts
import AnalysisJobs.Proofs.Registry.EditorFlags
import AnalysisJobs.Proofs.Registry.Holders
import AnalysisJobs.Proofs.Registry.Projection
import AnalysisJobs.Proofs.Request.Early
import AnalysisJobs.Proofs.Request.Freshness
import AnalysisJobs.Proofs.Request.Reasons
import AnalysisJobs.Proofs.Request.Reopening
import AnalysisJobs.Proofs.Runner.Annotations
import AnalysisJobs.Proofs.Runner.Broken
import AnalysisJobs.Proofs.Runner.Capacity
import AnalysisJobs.Proofs.Runner.Completion
import AnalysisJobs.Proofs.Runner.Crash
import AnalysisJobs.Proofs.Runner.Deferral
import AnalysisJobs.Proofs.Runner.Edits
import AnalysisJobs.Proofs.Runner.InOrder
import AnalysisJobs.Proofs.Runner.Reconfiguration
import AnalysisJobs.Proofs.Runner.Serial
import AnalysisJobs.Proofs.Runner.Shutdown
import AnalysisJobs.Proofs.Runner.Wakeups
import AnalysisJobs.Proofs.Settings.Fields
import AnalysisJobs.Proofs.Timings.Overflow
