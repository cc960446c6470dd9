import AnalysisJobs.Proofs.Runner.Steps
/-!
# The fates of requests in the journal

A journal tells of a request that it was dropped by a pass, started as a job or
ended with a result, and that its outcome was announced.  Each of these is
read off the events by a projection; here stands what the events of each step
contribute to them.
-/

namespace AnalysisJobs

namespace Event

def dropped? : Event → Option (Request × Staleness)
  | .dropped request reason => some (request, reason)
  | _ => none

def started? : Event → Option Request
  | .started request => some request
  | _ => none

def ended? : Event → Option (Request × Duration × Result)
  | .ended request elapsed result => some (request, elapsed, result)
  | _ => none

/-- The outcome that was sent, whether or not somebody receives outcomes. -/
def outcome? : Event → Option (Request × Result)
  | .published request result | .unheard request result => some (request, result)
  | _ => none

/-- The outcome that was sent to somebody who receives outcomes. -/
def published? : Event → Option (Request × Result)
  | .published request result => some (request, result)
  | _ => none

end Event

/-- A projection of the journal that sees only the fates of requests. -/
def SeesFates {α : Type} (f : Event → Option α) : Prop := ∀ e : Event, e.Quiet → f e = none

theorem filterMap_quiet {α : Type} {f : Event → Option α} (hf : SeesFates f)
    {events : List Event} (h : ∀ e ∈ events, e.Quiet) : events.filterMap f = [] :=
  List.filterMap_eq_nil_iff.2 fun e he => hf e (h e he)

theorem seesFates_dropped : SeesFates Event.dropped? := by
  intro e he
  cases e <;> first | rfl | exact he.elim

theorem seesFates_started : SeesFates Event.started? := by
  intro e he
  cases e <;> first | rfl | exact he.elim

theorem seesFates_ended : SeesFates Event.ended? := by
  intro e he
  cases e <;> first | rfl | exact he.elim

theorem seesFates_outcome : SeesFates Event.outcome? := by
  intro e he
  cases e <;> first | rfl | exact he.elim

theorem seesFates_published : SeesFates Event.published? := by
  intro e he
  cases e <;> first | rfl | exact he.elim

/-- Events that commands to the registry tell. -/
def Event.OfRegistry : Event → Prop
  | .projectUnknown _ | .opened .. | .editIgnored _ | .edited .. | .closed _ | .projectPut ..
  | .projectRemoved _ | .documentsFlagged .. | .bufferPut .. | .activity .. => True
  | _ => False

theorem Event.OfRegistry.quiet {e : Event} (h : e.OfRegistry) : e.Quiet := by
  cases e <;> trivial

namespace Registry

theorem ofRegistry_documentsEvents (reg : Registry) (op : Documents.Op) :
    ∀ e ∈ reg.documentsEvents op, e.OfRegistry := by
  intro e he
  cases op <;> simp only [documentsEvents] at he
  case edit key => split at he <;> simp_all [Event.OfRegistry]
  case close key => split at he <;> simp_all [Event.OfRegistry]
  all_goals simp_all [Event.OfRegistry]

theorem ofRegistry_events (reg : Registry) (c : Command) :
    ∀ e ∈ reg.events c, e.OfRegistry := by
  intro e he
  cases c with
  | openDocument key =>
    rcases List.mem_append.1 he with he | he
    · split at he <;> simp_all [Event.OfRegistry]
    · exact ofRegistry_documentsEvents reg _ e he
  | onDocuments op => exact ofRegistry_documentsEvents reg op e he
  | configureProject id arguments =>
    simp only [events] at he
    split at he
    · simp_all [Event.OfRegistry]
    · rcases List.mem_cons.1 he with rfl | he
      · trivial
      · obtain rfl := List.mem_singleton.1 he
        trivial
  | putProject id arguments => simp_all [events, Event.OfRegistry]
  | removeProject id =>
    simp only [events] at he
    split at he <;> simp_all [Event.OfRegistry]
  | putBuffer path content => simp_all [events, Event.OfRegistry]
  | removeBuffer path => cases he
  | showActivity activity => simp_all [events, Event.OfRegistry]
  | takeStamp => cases he

theorem quiet_events (reg : Registry) (c : Command) : ∀ e ∈ reg.events c, e.Quiet :=
  fun e he => (reg.ofRegistry_events c e he).quiet

end Registry

namespace Runner

variable {crashes : Prop} {m n : Runner} {α : Type} {f : Event → Option α}

/-! ## Passes -/

theorem filterMap_events_passOver (hf : SeesFates f) (m : Runner) (turn : Turn) :
    (m.passOver turn).2.2.filterMap f =
      (m.nextPass.dropped.filterMap fun d => f (.dropped d.1 d.2)) ++
        m.nextPass.batch.filterMap fun r => f (.started r) := by
  have hheld : ((m.nextPass.selection.asked.filter fun r => m.isRunning r.key).map
      Event.held).filterMap f = [] := by
    apply filterMap_quiet hf
    intro e he
    obtain ⟨r, -, rfl⟩ := List.mem_map.1 he
    trivial
  have hpassed : ([Event.passed m.nextPass.batch.length m.nextPass.left.length] ++
      [Event.timed passLabel none turn.elapsed]).filterMap f = [] := by
    apply filterMap_quiet hf
    simp [Event.Quiet]
  rw [events_passOver, Pass.events, List.append_assoc, List.append_assoc, List.append_assoc,
    ← List.append_assoc [_], List.filterMap_append, List.filterMap_append,
    List.filterMap_append, hheld, hpassed, List.nil_append, List.nil_append,
    List.filterMap_map, List.filterMap_map]
  rfl

/-! ## Ends of jobs -/

theorem quiet_learn (registry : Registry) (request : Request) (result : Result) :
    ∀ e ∈ (learn registry request result).2, e.Quiet := by
  intro e he
  unfold learn at he
  split at he
  · cases he
  · split at he
    · cases he
    · obtain rfl := List.mem_singleton.1 he
      trivial

theorem filterMap_events_conclude (hf : SeesFates f) (m : Runner) (job : Job) (turn : Turn)
    (result : Result) :
    (m.conclude job turn result).2.filterMap f =
      [Event.ended job.request turn.elapsed result,
        if m.hasReceiver then .published job.request result
        else .unheard job.request result].filterMap f := by
  have hlearned : (Event.timed job.request.kind.name (some slowJob) turn.elapsed ::
      (learn m.registry job.request result).2).filterMap f = [] := by
    apply filterMap_quiet hf
    intro e he
    rcases List.mem_cons.1 he with rfl | he
    · trivial
    · exact quiet_learn _ _ _ e he
  rw [events_conclude, List.filterMap_append, hlearned, List.nil_append]

end Runner

end AnalysisJobs
