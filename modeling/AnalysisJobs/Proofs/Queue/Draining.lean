import AnalysisJobs.Proofs.Queue.Prioritizing
import AnalysisJobs.Registry.Command
/-!
# Passes that drain a queue

If no document has a job and the settings hold nothing back, a pass takes at least the first
request that is not stale.  Passes in a row therefore empty the queue, and since none of them
loses a request or brings two of one document out of their order, what they hand out together is
what was fresh in the beginning.
-/

namespace AnalysisJobs.Queue

variable {q : Queue} {view : View} {running : DocumentKey → Bool}

/-- The batches of so many passes in a row, and the queue after them. -/
def passes (q : Queue) (view : View) (running : DocumentKey → Bool) :
    Nat → List (List Request) × Queue
  | 0 => ([], q)
  | n + 1 =>
    let p := q.pass view running
    let later := (q.afterPass p).passes view running n
    (p.batch :: later.1, later.2)

/-! ## What passes hand out -/

theorem settings_passes (q : Queue) (view : View) (running : DocumentKey → Bool) (n : Nat) :
    (q.passes view running n).2.settings = q.settings := by
  induction n generalizing q with
  | zero => rfl
  | succ n ih => exact ih (q.afterPass (q.pass view running))

theorem perm_fresh_passes (q : Queue) (view : View) (running : DocumentKey → Bool) (n : Nat) :
    ((q.passes view running n).1.flatten ++ (q.passes view running n).2.fresh view).Perm
      (q.fresh view) := by
  induction n generalizing q with
  | zero => exact .refl _
  | succ n ih =>
    have hlater := ih (q.afterPass (q.pass view running))
    rw [fresh_afterPass] at hlater
    rw [passes, List.flatten_cons, List.append_assoc]
    exact (hlater.append_left _).trans (q.perm_fresh_pass view running)

theorem requestsFor_passes (q : Queue) (hview : view.IgnoresSpelling)
    (hrunning : ∀ k l : DocumentKey, k.Same l → running k = running l) (key : DocumentKey)
    (n : Nat) :
    requestsFor key (q.passes view running n).1.flatten ++
        requestsFor key ((q.passes view running n).2.fresh view) =
      requestsFor key (q.fresh view) := by
  induction n generalizing q with
  | zero => rfl
  | succ n ih =>
    have hlater := ih (q.afterPass (q.pass view running))
    rw [fresh_afterPass] at hlater
    rw [passes, List.flatten_cons, requestsFor_append, List.append_assoc, hlater,
      q.requestsFor_pass hview hrunning key]

/-! ## Progress -/

section Progress

variable (hidle : ∀ k, running k = false) (hdefer : q.settings.deferHidden = false)
  (hroom : q.settings.maxBatch ≠ some 0)

include hidle hdefer hroom

theorem batch_ne_nil_of_fresh {r : Request} (hr : r ∈ q.fresh view) :
    (q.pass view running).batch ≠ [] := by
  intro hnone
  have hleft := (q.perm_fresh_pass view running).symm.subset hr
  rw [hnone, List.nil_append] at hleft
  rcases of_mem_left_select hroom hnone hleft with hrunning | ⟨hhidden, -⟩
  · rw [hidle] at hrunning
    cases hrunning
  · rw [hdefer] at hhidden
    cases hhidden

theorem size_afterPass_le (view : View) :
    (q.afterPass (q.pass view running)).size ≤ q.size - 1 := by
  by_cases hnone : q.fresh view = []
  · have hlength := (q.perm_fresh_pass view running).length_eq
    rw [hnone, List.length_append] at hlength
    have hsize : (q.afterPass (q.pass view running)).size = 0 :=
      Nat.eq_zero_of_add_eq_zero_left hlength
    omega
  · obtain ⟨r, hr⟩ := List.exists_mem_of_ne_nil _ hnone
    have hlt := size_afterPass_lt (batch_ne_nil_of_fresh hidle hdefer hroom hr)
    omega

theorem size_passes_le (view : View) (n : Nat) :
    (q.passes view running n).2.size ≤ q.size - n := by
  induction n generalizing q with
  | zero => exact Nat.le_refl _
  | succ n ih =>
    let next := q.afterPass (q.pass view running)
    have hfirst : next.size ≤ q.size - 1 := size_afterPass_le hidle hdefer hroom view
    calc
      (next.passes view running n).2.size ≤ next.size - n := ih hdefer hroom
      _ ≤ q.size - 1 - n := Nat.sub_le_sub_right hfirst n
      _ = q.size - (n + 1) := by omega

end Progress

/-- Repeated passes drain a queue where no document has a job and the settings hold nothing back.
A pass over a fresh request hands something out, and after as many passes as there were requests
the queue is empty and the fresh requests have been handed out, each of them once and those of
one document in their order. -/
theorem repeated_passes_drain (q : Queue) (registry : Registry)
    (hdefer : q.settings.deferHidden = false) (hroom : q.settings.maxBatch ≠ some 0) :
    let view := registry.view
    let idle : DocumentKey → Bool := fun _ => false
    let after (n : Nat) := (q.passes view idle n).2
    let handedOut (n : Nat) := (q.passes view idle n).1.flatten
    let fresh := q.pending.filter fun r => (r.staleness view).isNone
    (∀ n, (∃ r ∈ (after n).pending, r.staleness view = none) →
        ((after n).pass view idle).batch ≠ []) ∧
      ∀ n, q.size ≤ n →
        (after n).pending = [] ∧ (handedOut n).Perm fresh ∧
          ∀ key, requestsFor key (handedOut n) = requestsFor key fresh := by
  intro view idle after handedOut fresh
  have hidle (k : DocumentKey) : idle k = false := rfl
  refine ⟨fun n hfresh => ?_, fun n hn => ?_⟩
  · obtain ⟨r, hr, hstaleness⟩ := hfresh
    have hsettings := q.settings_passes view idle n
    exact batch_ne_nil_of_fresh hidle (hsettings ▸ hdefer) (hsettings ▸ hroom)
      (mem_fresh.2 ⟨hr, hstaleness⟩)
  · have hsize : (after n).size ≤ q.size - n := size_passes_le hidle hdefer hroom view n
    have hempty : (after n).pending = [] := by
      refine List.eq_nil_of_length_eq_zero (Nat.le_zero.1 ?_)
      rwa [Nat.sub_eq_zero_of_le hn] at hsize
    have hrest : (after n).fresh view = [] := by
      rw [Queue.fresh, hempty]
      rfl
    have hperm := q.perm_fresh_passes view idle n
    rw [hrest, List.append_nil, fresh_eq] at hperm
    refine ⟨hempty, hperm, fun key => ?_⟩
    have hspelling (k l : DocumentKey) (_ : k.Same l) : idle k = idle l := rfl
    have horder := q.requestsFor_passes registry.ignoresSpelling_view hspelling key n
    have hnothing : requestsFor key [] = [] := rfl
    rwa [hrest, hnothing, List.append_nil, fresh_eq] at horder

/-- Two requests for one document and one for another are handed out one at a time, and a request
for a document that is closed is dropped. -/
theorem repeated_passes_drain_one_at_a_time :
    let first : DocumentKey := ⟨⟨"a"⟩, ""⟩
    let second : DocumentKey := ⟨⟨"b"⟩, ""⟩
    let closed : DocumentKey := ⟨⟨"c"⟩, ""⟩
    let registry := Registry.new.run
      [.putProject "" [], .openDocument first, .openDocument second]
    let ask (kind : Kind) (key : DocumentKey) := Request.make kind key registry.view
    let q : Queue :=
      ⟨[ask .buildPreamble first, ask .completeCode closed, ask .completeCode first,
        ask .completeCode second], ⟨1, some 1, false⟩⟩
    let handedOut := (q.passes registry.view (fun _ => false) 4).1.flatten
    q.settings.deferHidden = false ∧ q.settings.maxBatch ≠ some 0 ∧
      (q.passes registry.view (fun _ => false) 4).2.pending = [] ∧
      handedOut.Perm
        [ask .buildPreamble first, ask .completeCode first, ask .completeCode second] ∧
      requestsFor first handedOut = [ask .buildPreamble first, ask .completeCode first] := by
  intro first second closed registry ask q handedOut
  have hdefer : q.settings.deferHidden = false := rfl
  have hroom : q.settings.maxBatch ≠ some 0 := by decide
  have hfresh : (q.pending.filter fun r => (r.staleness registry.view).isNone) =
      [ask .buildPreamble first, ask .completeCode first, ask .completeCode second] := by
    decide +kernel
  obtain ⟨hempty, hperm, horder⟩ :=
    (repeated_passes_drain q registry hdefer hroom).2 4 (by decide)
  have hfirst := horder first
  rw [hfresh] at hperm hfirst
  refine ⟨hdefer, hroom, hempty, hperm, hfirst.trans ?_⟩
  decide +kernel

end AnalysisJobs.Queue
