import AnalysisJobs.Proofs.Queue.Urgency
/-!
# The verdict on each request

A pass goes once through the fresh requests in the order of their urgency and marks each of
them as taken or left.  The marks say where a request stands among those that were taken, which
the batch and the rest alone do not when a request is queued twice; `Excused` lists what a
request can have been left for.
-/

namespace AnalysisJobs

def takenOf (entries : List (Request × Bool)) : List Request :=
  (entries.filter fun e => e.2).map Prod.fst

def leftOf (entries : List (Request × Bool)) : List Request :=
  (entries.filter fun e => !e.2).map Prod.fst

/-- `entries` mark which of the requests in `order` went to the batch and which were left. -/
structure Divides (entries : List (Request × Bool)) (order batch left : List Request) :
    Prop where
  order : entries.map Prod.fst = order
  batch : takenOf entries = batch
  left : leftOf entries = left

section Marks

variable {entries : List (Request × Bool)} {order batch left : List Request}

theorem takenOf_append (before after : List (Request × Bool)) :
    takenOf (before ++ after) = takenOf before ++ takenOf after := by
  rw [takenOf, List.filter_append, List.map_append, takenOf, takenOf]

theorem takenOf_left_cons (r : Request) (entries : List (Request × Bool)) :
    takenOf ((r, false) :: entries) = takenOf entries := rfl

theorem sublist_takenOf (entries : List (Request × Bool)) :
    (takenOf entries).Sublist (entries.map Prod.fst) := List.filter_sublist.map Prod.fst

theorem Divides.sublist_batch (h : Divides entries order batch left) : batch.Sublist order := by
  rw [← h.order, ← h.batch]
  exact sublist_takenOf entries

theorem Divides.sublist_pair (h : Divides entries order batch left)
    {before after : List (Request × Bool)} {r s : Request}
    (hsplit : entries = before ++ (r, false) :: after) (hs : s ∈ takenOf before) :
    [s, r].Sublist order := by
  have hbefore : [s].Sublist (before.map Prod.fst) :=
    List.singleton_sublist.2 ((sublist_takenOf before).subset hs)
  rw [← h.order, hsplit, List.map_append]
  exact hbefore.append (List.singleton_sublist.2 List.mem_cons_self)

theorem Divides.take (h : Divides entries order batch left) (r : Request) :
    Divides ((r, true) :: entries) (r :: order) (r :: batch) left where
  order := congrArg (r :: ·) h.order
  batch := congrArg (r :: ·) h.batch
  left := h.left

theorem Divides.leave (h : Divides entries order batch left) (r : Request) :
    Divides ((r, false) :: entries) (r :: order) batch (r :: left) where
  order := congrArg (r :: ·) h.order
  batch := h.batch
  left := congrArg (r :: ·) h.left

end Marks

/-! ## Reasons to leave a request -/

section Reasons

variable {settings : Settings} {view : View} {running : DocumentKey → Bool}
  {taken : List DocumentKey} {before : List Request} {r s : Request}
  {entries : List (Request × Bool)}

/-- The settings make the request wait until its document is shown. -/
def Deferred (settings : Settings) (view : View) (r : Request) : Prop :=
  settings.deferHidden = true ∧ r.priority view = .hidden

/-- Why a request is left when the documents `taken` and then the requests `before` were taken:
its document has a job or was taken, the request is deferred, or the batch is full. -/
def Excused (settings : Settings) (view : View) (running : DocumentKey → Bool)
    (taken : List DocumentKey) (before : List Request) (r : Request) : Prop :=
  running r.key = true ∨ ((∃ k ∈ taken, k.Same r.key) ∨ ∃ s ∈ before, s.key.Same r.key) ∨
    Deferred settings view r ∨
    fillsBatch settings.maxBatch (taken.length + before.length) = true

theorem Excused.of_taken (h : Excused settings view running (s.key :: taken) before r) :
    Excused settings view running taken (s :: before) r := by
  rcases h with hrunning | (⟨k, hk, hsame⟩ | ⟨t, ht, hsame⟩) | hdeferred | hfull
  · exact .inl hrunning
  · rcases List.mem_cons.1 hk with rfl | hk
    · exact .inr (.inl (.inr ⟨s, List.mem_cons_self, hsame⟩))
    · exact .inr (.inl (.inl ⟨k, hk, hsame⟩))
  · exact .inr (.inl (.inr ⟨t, List.mem_cons_of_mem s ht, hsame⟩))
  · exact .inr (.inr (.inl hdeferred))
  · rw [List.length_cons, Nat.add_right_comm, Nat.add_assoc] at hfull
    exact .inr (.inr (.inr hfull))

/-- Every request marked as left has a reason in what was taken from in front of it. -/
def Justified (settings : Settings) (view : View) (running : DocumentKey → Bool)
    (taken : List DocumentKey) (entries : List (Request × Bool)) : Prop :=
  ∀ before r after, entries = before ++ (r, false) :: after →
    Excused settings view running taken (takenOf before) r

theorem Justified.take (h : Justified settings view running (r.key :: taken) entries) :
    Justified settings view running taken ((r, true) :: entries) := by
  intro before s after hsplit
  rcases List.cons_eq_append_iff.1 hsplit with ⟨-, hfirst⟩ | ⟨rest, rfl, hrest⟩
  · cases hfirst
  · exact (h rest s after hrest).of_taken

theorem Justified.leave (h : Justified settings view running taken entries)
    (hr : Excused settings view running taken [] r) :
    Justified settings view running taken ((r, false) :: entries) := by
  intro before s after hsplit
  rcases List.cons_eq_append_iff.1 hsplit with ⟨rfl, hfirst⟩ | ⟨rest, rfl, hrest⟩
  · cases hfirst
    exact hr
  · exact h rest s after hrest

/-- A selection marks every request, and has a reason for each that it leaves. -/
theorem exists_divides_select (settings : Settings) (view : View)
    (running : DocumentKey → Bool) (taken : List DocumentKey) (rs : List Request) :
    ∃ entries, Divides entries rs (select settings view running taken rs).batch
      (select settings view running taken rs).left ∧
      Justified settings view running taken entries := by
  have hleave {taken : List DocumentKey} {r : Request} {rest batch left : List Request}
      (hr : Excused settings view running taken [] r)
      (h : ∃ entries, Divides entries rest batch left ∧
        Justified settings view running taken entries) :
      ∃ entries, Divides entries (r :: rest) batch (r :: left) ∧
        Justified settings view running taken entries := by
    obtain ⟨entries, hdivides, hjustified⟩ := h
    exact ⟨(r, false) :: entries, hdivides.leave r, hjustified.leave hr⟩
  fun_induction select settings view running taken rs with
  | case1 =>
    refine ⟨[], ⟨rfl, rfl, rfl⟩, fun before r after hsplit => ?_⟩
    exact absurd hsplit (by simp)
  | case2 taken r rest hfull ih => exact hleave (.inr (.inr (.inr hfull))) ih
  | case3 taken r rest hfull htaken ih =>
    obtain ⟨k, hk, hsame⟩ := List.any_eq_true.1 htaken
    exact hleave (.inr (.inl (.inl ⟨k, hk, of_decide_eq_true hsame⟩))) ih
  | case4 taken r rest hfull htaken hrunning ih => exact hleave (.inl hrunning) ih
  | case5 taken r rest hfull htaken hrunning hhidden ih =>
    rw [Bool.and_eq_true, decide_eq_true_eq] at hhidden
    exact hleave (.inr (.inr (.inl hhidden))) ih
  | case6 taken r rest hfull htaken hrunning hhidden ih =>
    obtain ⟨entries, hdivides, hjustified⟩ := ih
    exact ⟨(r, true) :: entries, hdivides.take r, hjustified.take⟩

theorem length_batch_select_le {bound : Nat} (hbound : settings.maxBatch = some bound)
    (hroom : taken.length ≤ bound) (rs : List Request) :
    taken.length + (select settings view running taken rs).batch.length ≤ bound := by
  fun_induction select settings view running taken rs with
  | case1 => exact hroom
  | case2 taken r rest hfull ih => exact ih hroom
  | case3 taken r rest hfull htaken ih => exact ih hroom
  | case4 taken r rest hfull htaken hrunning ih => exact ih hroom
  | case5 taken r rest hfull htaken hrunning hhidden ih => exact ih hroom
  | case6 taken r rest hfull htaken hrunning hhidden ih =>
    have hlt : taken.length < bound := by
      simpa [fillsBatch, hbound] using hfull
    have hrest := ih hlt
    rw [List.length_cons] at hrest
    rw [Selection.take, List.length_cons]
    omega

theorem takenOf_of_full {after : List (Request × Bool)} {before : List (Request × Bool)}
    {maxBatch : Option Nat}
    (hle : ∀ bound ∈ maxBatch, (takenOf (before ++ (r, false) :: after)).length ≤ bound)
    (hfull : fillsBatch maxBatch (takenOf before).length = true) :
    takenOf (before ++ (r, false) :: after) = takenOf before ∧
      maxBatch = some (takenOf before).length := by
  rw [takenOf_append, takenOf_left_cons] at hle ⊢
  cases maxBatch with
  | none => cases hfull
  | some bound =>
    have hbound : bound ≤ (takenOf before).length := by simpa [fillsBatch] using hfull
    have hlength := hle bound rfl
    rw [List.length_append] at hlength
    have hafter : takenOf after = [] := List.eq_nil_of_length_eq_zero (by omega)
    rw [hafter, List.append_nil]
    exact ⟨rfl, congrArg some (by omega)⟩

end Reasons

/-! ## Passes -/

namespace Queue

variable {q : Queue} {view : View} {running : DocumentKey → Bool}

theorem pass_selection (q : Queue) (view : View) (running : DocumentKey → Bool) :
    (q.pass view running).selection =
      select q.settings view running [] (byUrgency view (q.fresh view)) := by
  rw [pass, sortByPriority_eq_byUrgency]

theorem exists_divides_pass (q : Queue) (view : View) (running : DocumentKey → Bool) :
    ∃ entries, Divides entries (byUrgency view (q.fresh view)) (q.pass view running).batch
      (q.pass view running).left ∧ Justified q.settings view running [] entries := by
  rw [Pass.batch, Pass.left, pass_selection]
  exact exists_divides_select q.settings view running [] _

theorem length_batch_le {bound : Nat} (hbound : bound ∈ q.settings.maxBatch) :
    (q.pass view running).batch.length ≤ bound := by
  have hnone : ([] : List DocumentKey).length ≤ bound := Nat.zero_le bound
  have hlength : [].length +
      (select q.settings view running [] (byUrgency view (q.fresh view))).batch.length ≤ bound :=
    length_batch_select_le hbound hnone _
  rwa [List.length_nil, Nat.zero_add, ← pass_selection] at hlength

/-- The batch of a pass is for distinct documents that have no job and are not deferred, is no
longer than it may be and goes by urgency.  A request is left only for one of four reasons. -/
theorem pass_maximal (q : Queue) (view : View) (running : DocumentKey → Bool) :
    let p := q.pass view running
    let left := (q.afterPass p).pending
    let order := byUrgency view (q.pending.filter fun r => (r.staleness view).isNone)
    let notAfter (r s : Request) := (r.priority view).rank ≤ (s.priority view).rank
    (p.batch.Pairwise fun r s => ¬ r.key.Same s.key) ∧
      (∀ r ∈ p.batch, running r.key = false ∧ ¬ Deferred q.settings view r) ∧
      (∀ bound ∈ q.settings.maxBatch, p.batch.length ≤ bound) ∧
      p.batch.Pairwise notAfter ∧
      ∃ entries, Divides entries order p.batch left ∧
        ∀ before r after, entries = before ++ (r, false) :: after →
          running r.key = true ∨ (∃ s ∈ takenOf before, s.key.Same r.key) ∨
            Deferred q.settings view r ∨
            (q.settings.maxBatch = some p.batch.length ∧ takenOf before = p.batch ∧
              ∀ s ∈ p.batch, notAfter s r) := by
  intro p left order notAfter
  obtain ⟨entries, hdivides, hjustified⟩ := exists_divides_pass q view running
  rw [fresh_eq] at hdivides
  have hsorted : order.Pairwise notAfter := pairwise_byUrgency view _
  refine ⟨q.pairwise_batch view running, fun r hr => ⟨not_running_of_mem_batch hr, fun hr' => ?_⟩,
    fun bound hbound => length_batch_le hbound, hsorted.sublist hdivides.sublist_batch,
    entries, hdivides, fun before r after hsplit => ?_⟩
  · have hshown := not_deferred_of_mem_batch_select hr
    rw [Bool.and_eq_true, decide_eq_true_eq] at hshown
    exact hshown hr'
  · rcases hjustified before r after hsplit with hrunning | (⟨k, hk, -⟩ | hsame) | hhidden | hfull
    · exact .inl hrunning
    · cases hk
    · exact .inr (.inl hsame)
    · exact .inr (.inr (.inl hhidden))
    · have hbatch : takenOf (before ++ (r, false) :: after) = p.batch := hsplit ▸ hdivides.batch
      rw [List.length_nil, Nat.zero_add] at hfull
      have hle (bound : Nat) (hbound : bound ∈ q.settings.maxBatch) :
          (takenOf (before ++ (r, false) :: after)).length ≤ bound :=
        hbatch ▸ length_batch_le hbound
      obtain ⟨hall, hbound⟩ := takenOf_of_full hle hfull
      rw [hbatch] at hall
      refine .inr (.inr (.inr ⟨hall ▸ hbound, hall.symm, fun s hs => ?_⟩))
      rw [hall] at hs
      exact List.pairwise_iff_forall_sublist.1 hsorted (hdivides.sublist_pair hsplit hs)

end Queue

end AnalysisJobs
