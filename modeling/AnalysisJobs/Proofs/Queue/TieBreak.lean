import AnalysisJobs.Proofs.Queue.Order
import AnalysisJobs.Session
import Mathlib.Data.List.Basic
/-!
# The order in which requests wait

The queue is brought into the order of urgency in place.  Requests that one call tells apart
therefore stay in the order of this call until a later call tells them apart again, and only
requests that no call told apart stand in the order in which they were added.
-/

namespace AnalysisJobs

/-- A call that orders a queue. -/
structure Call where
  /-- How many requests had been added by then. -/
  added : Nat
  view : View

/-- The call found both requests in the queue, with different priorities.  A request stands
here with the number under which it was added. -/
def Call.TellsApart (c : Call) (a b : Nat × Request) : Prop :=
  a.1 < c.added ∧ b.1 < c.added ∧ a.2.priority c.view ≠ b.2.priority c.view

instance (c : Call) (a b : Nat × Request) : Decidable (c.TellsApart a b) :=
  inferInstanceAs (Decidable (_ ∧ _ ∧ _))

/-- After calls, the latest first, one request has its place before another: it was the more
urgent one when they were last told apart, or they never were and it was added first. -/
def ComesFirst : List Call → Nat × Request → Nat × Request → Prop
  | [], a, b => a.1 < b.1
  | c :: earlier, a, b =>
    if c.TellsApart a b then (a.2.priority c.view).rank < (b.2.priority c.view).rank
    else ComesFirst earlier a b

namespace Session

def asked (s : Session) : Action → List Request
  | .add request => [request]
  | .enqueue kind key => [.make kind key s.registry.view]
  | _ => []

def requested (s : Session) : List Action → List Request
  | [] => []
  | a :: rest => s.asked a ++ (s.act a).1.requested rest

/-- The action as a call that orders the queue, if it is one. -/
def callsOf (s : Session) (added : Nat) : Action → List Call
  | .prioritize | .pass _ => [⟨added, s.registry.view⟩]
  | _ => []

/-- The calls of a run that order the queue, the latest first, where so many requests were
added before it. -/
def calls (s : Session) (added : Nat) : List Action → List Call
  | [] => []
  | a :: rest => (s.act a).1.calls (added + (s.asked a).length) rest ++ s.callsOf added a

end Session

/-! ## Orders of a queue -/

/-- The requests that wait are some of those that were added, in the order that the calls put
them in. -/
def Ordered (added : List Request) (calls : List Call) (pending : List Request) : Prop :=
  (∀ c ∈ calls, c.added ≤ added.length) ∧
    ∃ entries : List (Nat × Request), entries.map Prod.snd = pending ∧
      (∀ e ∈ entries, added[e.1]? = some e.2) ∧ entries.Pairwise (ComesFirst calls)

variable {added : List Request} {calls : List Call} {pending : List Request} {q : Queue}

theorem comesFirst_of_last {a : Nat × Request} {last : Nat} {r : Request}
    (hcalls : ∀ c ∈ calls, c.added ≤ last) (ha : a.1 < last) : ComesFirst calls a (last, r) := by
  induction calls with
  | nil => exact ha
  | cons c earlier ih =>
    obtain ⟨hc, hearlier⟩ := List.forall_mem_cons.1 hcalls
    have hnot : ¬ c.TellsApart a (last, r) := fun h => Nat.not_lt.2 hc h.2.1
    rw [ComesFirst, if_neg hnot]
    exact ih hearlier

theorem Ordered.add (h : Ordered added calls pending) (r : Request) :
    Ordered (added ++ [r]) calls (pending ++ [r]) := by
  obtain ⟨hcalls, entries, rfl, hadded, hpairwise⟩ := h
  refine ⟨fun c hc => ?_, entries ++ [(added.length, r)], ?_, ?_, ?_⟩
  · have := hcalls c hc
    rw [List.length_append]
    omega
  · rw [List.map_append, List.map_singleton]
  · intro e he
    rcases List.mem_append.1 he with hold | hnew
    · have hsome := hadded e hold
      have hlt := (List.getElem?_eq_some_iff.1 hsome).1
      rw [List.getElem?_append_left hlt, hsome]
    · obtain rfl := List.mem_singleton.1 hnew
      exact List.getElem?_concat_length
  · refine List.pairwise_append.2 ⟨hpairwise, List.pairwise_singleton _ _, ?_⟩
    intro a ha b hb
    obtain rfl := List.mem_singleton.1 hb
    exact comesFirst_of_last hcalls (List.getElem?_eq_some_iff.1 (hadded a ha)).1

theorem Ordered.sublist (h : Ordered added calls pending) {rest : List Request}
    (hsub : rest.Sublist pending) : Ordered added calls rest := by
  obtain ⟨hcalls, entries, rfl, hadded, hpairwise⟩ := h
  obtain ⟨kept, hkept, rfl⟩ := List.sublist_map_iff.1 hsub
  exact ⟨hcalls, kept, rfl, fun e he => hadded e (hkept.subset he), hpairwise.sublist hkept⟩

theorem pairwise_mergeSort_of_pairwise {α : Type} {l : List α} {Q : α → α → Prop} (key : α → Nat)
    (h : l.Pairwise Q) :
    (l.mergeSort fun a b => decide (key a ≤ key b)).Pairwise fun a b =>
      key a < key b ∨ key a = key b ∧ Q a b := by
  have htrans (a b c : α) (hab : decide (key a ≤ key b) = true)
      (hbc : decide (key b ≤ key c) = true) : decide (key a ≤ key c) = true :=
    decide_eq_true (Nat.le_trans (of_decide_eq_true hab) (of_decide_eq_true hbc))
  have htotal (a b : α) : (decide (key a ≤ key b) || decide (key b ≤ key a)) = true := by
    simpa using Nat.le_total (key a) (key b)
  have hsorted := List.pairwise_mergeSort htrans htotal l
  refine List.pairwise_iff_forall_sublist.2 fun {a b} hab => ?_
  have hle : key a ≤ key b :=
    of_decide_eq_true (List.pairwise_iff_forall_sublist.1 hsorted hab)
  refine (Nat.lt_or_eq_of_le hle).imp_right fun heq => ⟨heq, ?_⟩
  -- both stand among the elements with their key, and these are where they were
  have htied := hab.filter fun x => decide (key x = key a)
  rw [filter_mergeSort htrans htotal] at htied
  · have hpair : [a, b].Sublist l := by
      simpa [heq] using htied.trans List.filter_sublist
    exact List.pairwise_iff_forall_sublist.1 h hpair
  · intro x y hx hy
    rw [decide_eq_true_eq] at hx hy ⊢
    omega

theorem Ordered.sort (h : Ordered added calls pending) (view : View) :
    Ordered added (⟨added.length, view⟩ :: calls) (Queue.sortByPriority view pending) := by
  obtain ⟨hcalls, entries, rfl, hadded, hpairwise⟩ := h
  let rank (e : Nat × Request) : Nat := (e.2.priority view).rank
  have hperm := List.mergeSort_perm entries fun a b => decide (rank a ≤ rank b)
  have hlt (e : Nat × Request) (he : e ∈ entries.mergeSort fun a b => decide (rank a ≤ rank b)) :
      e.1 < added.length :=
    (List.getElem?_eq_some_iff.1 (hadded e (hperm.subset he))).1
  refine ⟨List.forall_mem_cons.2 ⟨Nat.le_refl _, hcalls⟩, _, ?_,
    fun e he => hadded e (hperm.subset he), ?_⟩
  · exact List.map_mergeSort fun _ _ _ _ => rfl
  · refine (pairwise_mergeSort_of_pairwise rank hpairwise).imp_of_mem fun {a b} ha hb hab => ?_
    rw [ComesFirst]
    rcases hab with hless | ⟨hsame, hbefore⟩
    · have hne : a.2.priority view ≠ b.2.priority view := fun heq =>
        Nat.ne_of_lt hless (congrArg Priority.rank heq)
      rw [if_pos ⟨hlt a ha, hlt b hb, hne⟩]
      exact hless
    · rw [if_neg fun htold => htold.2.2 (Priority.rank_injective hsame)]
      exact hbefore

theorem Ordered.pass (h : Ordered added calls q.pending) (view : View)
    (running : DocumentKey → Bool) :
    Ordered added (⟨added.length, view⟩ :: calls) (q.pass view running).left := by
  have hfresh := h.sublist (List.filter_sublist (p := fun r => !r.isStale view))
  exact (hfresh.sort view).sublist (sublist_left_select q.settings view running [] _)

/-! ## Runs -/

namespace Session

variable {s : Session}

theorem ordered_act (h : Ordered added calls s.queue.pending) (a : Action) :
    Ordered (added ++ s.asked a) (s.callsOf added.length a ++ calls)
      (s.act a).1.queue.pending := by
  have hnone {calls : List Call} {pending : List Request} (h : Ordered added calls pending) :
      Ordered (added ++ []) calls pending := by
    rw [List.append_nil]
    exact h
  cases a with
  | command c => exact hnone h
  | add request => exact h.add request
  | enqueue kind key => exact h.add (.make kind key s.registry.view)
  | prioritize => exact hnone (h.sort s.registry.view)
  | pass running => exact hnone (h.pass s.registry.view running)

theorem ordered_run (h : Ordered added calls s.queue.pending) (actions : List Action) :
    Ordered (added ++ s.requested actions) (s.calls added.length actions ++ calls)
      (s.run actions).1.queue.pending := by
  induction actions generalizing s added calls with
  | nil =>
    rw [requested, List.append_nil]
    exact h
  | cons a rest ih =>
    have hnext := ih (ordered_act h a)
    rw [List.append_assoc, ← List.append_assoc (Session.calls _ _ _), List.length_append] at hnext
    exact hnext

/-- Whatever a caller does, two requests that wait stand in the order of the latest call that
told them apart, the more urgent one first, and in the order in which they were added if no
call did. -/
theorem order_of_pending (settings : Settings) (actions : List Action) :
    let start := Session.new settings
    let last := (start.run actions).1
    ∃ entries : List (Nat × Request), entries.map Prod.snd = last.queue.pending ∧
      (∀ e ∈ entries, (start.requested actions)[e.1]? = some e.2) ∧
      entries.Pairwise (ComesFirst (start.calls 0 actions)) := by
  intro start last
  have hstart : Ordered [] [] start.queue.pending :=
    ⟨by simp, [], rfl, by simp, List.Pairwise.nil⟩
  obtain ⟨-, hentries⟩ := ordered_run hstart actions
  rw [List.nil_append, List.append_nil] at hentries
  exact hentries

/-- The second of two requests is brought to the front while its document has the focus, and
it stays there when the focus is gone and both have the same priority. -/
theorem former_focus_stays_first :
    let first : DocumentKey := ⟨⟨"a"⟩, ""⟩
    let second : DocumentKey := ⟨⟨"b"⟩, ""⟩
    let start := Session.new (.default 1)
    let actions : List Action :=
      [.command (.putProject "" []), .command (.openDocument first),
        .command (.openDocument second), .enqueue .completeCode first,
        .enqueue .completeCode second, .command (.onDocuments (.focus (some second.path))),
        .prioritize, .command (.onDocuments (.focus none)), .prioritize]
    let last := (start.run actions).1
    (start.requested actions).map Request.key = [first, second] ∧
      last.queue.pending.map Request.key = [second, first] ∧
      ∀ r ∈ last.queue.pending, r.priority last.registry.view = .hidden := by
  intro first second start actions last
  let shown := Registry.new.run [.putProject "" [], .openDocument first, .openDocument second]
  let focused := shown.onDocuments (.focus (some second.path))
  let r := Request.make .completeCode first shown.view
  let t := Request.make .completeCode second shown.view
  have hpending : last.queue.pending = [t, r] := by
    have hsorted : last.queue.pending =
        Queue.sortByPriority (focused.onDocuments (.focus none)).view
          (Queue.sortByPriority focused.view [r, t]) := rfl
    rw [hsorted, Queue.sortByPriority_pair focused.view, if_neg (by decide +kernel),
      Queue.sortByPriority_pair, if_pos (by decide +kernel)]
  rw [hpending]
  exact ⟨rfl, rfl, by decide +kernel⟩

end Session

end AnalysisJobs
