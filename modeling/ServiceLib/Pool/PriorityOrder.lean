import ServiceLib.Lib.ThreadList
import ServiceLib.Lib.Transition
import ServiceLib.Pool.PriorityInvariant

namespace ServiceLib.Pool

/-!
# Priority task pool — what a dequeue takes

The priority pool serves the waiting task with the least effective priority, and among equals
the one that came first.  The effective priority of a task is the most urgent one once it was
cancelled or its deadline has passed, and the one it was added with until then.

`priorityQueue_dequeues_least` is the result.
-/

open List Option Function PriorityQueue

/-- The queue with its history.  The `t`-th request is the one that made task `t`. -/
structure PriorityRun where
  queue : PriorityQueue
  now : Time
  requests : List (Int32 × Option Time)
  cancelled : List TaskId
  dequeued : List TaskId

/-- The operations of the queue, on a clock that only advances. -/
inductive PriorityOp
  | advance (now : Time)
  | addTask (priority : Int32) (deadline : Option Time)
  /-- `expedite`; `alive` is whether the weak reference to the task can be locked. -/
  | cancel (t : TaskId) (alive : Bool)
  | dequeue
  deriving DecidableEq

namespace PriorityRun

/-- The task was added and has not left. -/
def waiting (s : PriorityRun) (t : TaskId) : Prop := t < s.requests.length ∧ t ∉ s.dequeued

instance (s : PriorityRun) (t : TaskId) : Decidable (s.waiting t) :=
  inferInstanceAs (Decidable (_ ∧ _))

/-- The deadline the task was added with. -/
def deadlineOf (s : PriorityRun) (t : TaskId) : Option Time := s.requests[t]?.bind (·.2)

/-- The task was cancelled, or its deadline has passed. -/
def urgent (s : PriorityRun) (t : TaskId) : Bool :=
  s.cancelled.contains t || (s.deadlineOf t).any (fun d => decide (d ≤ s.now))

/-- The effective priority of a task. -/
def effective (s : PriorityRun) (t : TaskId) : Int :=
  if s.urgent t then intMin else (s.requests[t]?.map (·.1.toInt)).getD 0

/-- Lower effective priority first, then arrival. -/
def before (s : PriorityRun) (t u : TaskId) : Prop :=
  s.effective t < s.effective u ∨ s.effective t = s.effective u ∧ t < u

def step (s : PriorityRun) : PriorityOp → Option PriorityRun
  | .advance now => if s.now ≤ now then some { s with now := now } else none
  | .addTask priority deadline =>
    some { s with
      queue := (s.queue.push s.requests.length deadline ⟨priority.toInt, true, true⟩).1
      requests := s.requests ++ [(priority, deadline)] }
  | .cancel t alive =>
    if s.requests.length ≤ t then none
    else if alive then
      some { s with queue := (s.queue.expedite t s.now).1, cancelled := s.cancelled ++ [t] }
    else if t ∈ s.queue.heap.arr then none
    else some { s with cancelled := s.cancelled ++ [t] }
  | .dequeue =>
    (s.queue.dequeue s.now).map (fun r => { s with queue := r.2, dequeued := s.dequeued ++ [r.1] })

end PriorityRun

/-- The queue of a priority pool made at `start`, under any sequence of operations. -/
def prioritySystem (start : Time) : System PriorityRun PriorityOp where
  init := ⟨empty, start, [], [], []⟩
  step := PriorityRun.step

namespace PriorityRun

theorem urgent_iff (s : PriorityRun) (t : TaskId) :
    s.urgent t ↔ t ∈ s.cancelled ∨ ∃ d, s.deadlineOf t = some d ∧ d ≤ s.now := by
  cases hd : s.deadlineOf t <;> simp [urgent, hd]

/-! ### The invariant of a run -/

/-- The queue agrees with the history. -/
structure Inv (s : PriorityRun) : Prop where
  wellFormed : s.queue.WellFormed
  made : ∀ t, t ∈ s.cancelled ∨ t ∈ s.dequeued → t < s.requests.length
  members : ∀ t, t ∈ s.queue.heap.arr ↔ s.waiting t
  next : s.queue.nextSequence = s.requests.length
  sequence : ∀ t, t < s.requests.length → s.queue.sequence t = t
  deadline : ∀ t, t < s.requests.length → s.queue.deadline t = s.deadlineOf t
  priority : ∀ t, s.waiting t → s.queue.priority t =
    if s.queue.expedited t then intMin else (s.requests[t]?.map (·.1.toInt)).getD 0
  cancelled : ∀ t, s.waiting t → t ∈ s.cancelled → s.queue.expedited t
  expedited : ∀ t, s.waiting t → s.queue.expedited t → s.urgent t

theorem init_inv (start : Time) : Inv (prioritySystem start).init where
  wellFormed := wellFormed_empty
  made := by simp [prioritySystem]
  members := by simp [prioritySystem, empty, IndexedHeap.empty, waiting]
  next := rfl
  sequence := by simp [prioritySystem]
  deadline := by simp [prioritySystem]
  priority := by simp [prioritySystem, waiting]
  cancelled := by simp [prioritySystem, waiting]
  expedited := by simp [prioritySystem, waiting]

variable {s : PriorityRun} {t : TaskId} {q : PriorityQueue}

/-- A deadline of the queue is one of the history. -/
theorem Inv.due_iff (h : Inv s) (ht : t < s.requests.length) :
    s.queue.due s.now t ↔ ∃ d, s.deadlineOf t = some d ∧ d ≤ s.now := by
  rw [due, h.deadline t ht]

/-- **Frame rule.**  Promoting waiting tasks for reasons the history knows of keeps the
    invariant. -/
theorem Inv.raise (h : Inv s) {cause : TaskId → Prop} {c : List TaskId}
    (hwf : q.WellFormed) (hraised : s.queue.Raised cause q)
    (hcause : ∀ t, t < s.requests.length → cause t → { s with cancelled := c }.urgent t)
    (hsub : ∀ t, t ∈ s.cancelled → t ∈ c) (hmade : ∀ t ∈ c, t < s.requests.length)
    (hcancelled : ∀ t, s.waiting t → t ∈ c → t ∈ s.cancelled ∨ q.expedited t) :
    Inv { s with queue := q, cancelled := c } where
  wellFormed := hwf
  made := fun t ht => ht.elim (hmade t) (fun hd => h.made t (.inr hd))
  members := fun t => hraised.perm.mem_iff.trans (h.members t)
  next := hraised.nextSequence.trans h.next
  sequence := by
    rw [hraised.sequence]
    exact h.sequence
  deadline := by
    rw [hraised.deadline]
    exact h.deadline
  priority := by
    intro t ht
    show q.priority t = if q.expedited t then intMin else _
    rw [hraised.priority t, h.priority t ht]
    have hkeeps := hraised.keeps t
    cases hq : s.queue.expedited t <;> cases hq' : q.expedited t <;> simp_all
  cancelled := by
    intro t ht hc
    rcases hcancelled t ht hc with hold | hnew
    · exact hraised.keeps t (h.cancelled t ht hold)
    · exact hnew
  expedited := by
    intro t ht hexp
    rcases hraised.only t hexp with hold | hc
    · have hurgent := h.expedited t ht hold
      rw [urgent_iff] at hurgent ⊢
      exact hurgent.imp (hsub t) id
    · exact hcause t ht.1 hc

/-! ### Steps -/

/-- The clock advances. -/
theorem Inv.advance (h : Inv s) {now : Time} (hle : s.now ≤ now) : Inv { s with now := now } where
  wellFormed := h.wellFormed
  made := h.made
  members := h.members
  next := h.next
  sequence := h.sequence
  deadline := h.deadline
  priority := h.priority
  cancelled := h.cancelled
  expedited := by
    intro t ht hexp
    have hurgent := h.expedited t ht hexp
    rw [urgent_iff] at hurgent ⊢
    exact hurgent.imp id (fun ⟨d, hd, hdn⟩ => ⟨d, hd, le_trans hdn hle⟩)

theorem Inv.made_append (h : Inv s) (ht : t < s.requests.length) :
    ∀ u ∈ s.cancelled ++ [t], u < s.requests.length :=
  forall_mem_concat (fun u hu => h.made u (.inl hu)) ht

/-- A task is cancelled. -/
theorem Inv.cancel (h : Inv s) (ht : t < s.requests.length) :
    Inv { s with queue := (s.queue.expedite t s.now).1, cancelled := s.cancelled ++ [t] } := by
  obtain ⟨hwf, hraised, hself⟩ := h.wellFormed.expedite t s.now
  refine h.raise hwf hraised (fun u hu hc => ?_) (fun u hu => by simp [hu]) (h.made_append ht)
    (fun u hu hc => ?_)
  · rw [urgent_iff]
    rcases hc with hdue | rfl
    · exact .inr ((h.due_iff hu).mp hdue)
    · exact .inl (by simp)
  · rcases mem_append.mp hc with hold | hnew
    · exact .inl hold
    · rw [mem_singleton.mp hnew] at hu ⊢
      exact .inr (hself ((h.members t).mpr hu))

/-- The fields of the tasks after a successful push. -/
theorem push_fields (q : PriorityQueue) (t : TaskId) (d : Option Time) (priority : Int) :
    (q.push t d ⟨priority, true, true⟩).1.priority = update q.priority t priority ∧
      (q.push t d ⟨priority, true, true⟩).1.sequence =
        update q.sequence t q.nextSequence ∧
      (q.push t d ⟨priority, true, true⟩).1.expedited = update q.expedited t false ∧
      (q.push t d ⟨priority, true, true⟩).1.deadline = update q.deadline t d ∧
      (q.push t d ⟨priority, true, true⟩).1.nextSequence = q.nextSequence + 1 := by
  cases d <;> exact ⟨rfl, update_idem _ _ _, rfl, rfl, rfl⟩

/-- A task is added, with the next sequence number. -/
theorem Inv.addTask (h : Inv s) (priority : Int32) (d : Option Time) :
    Inv { s with
      queue := (s.queue.push s.requests.length d ⟨priority.toInt, true, true⟩).1
      requests := s.requests ++ [(priority, d)] } := by
  have hfresh : s.requests.length ∉ s.queue.heap.arr := fun hmem =>
    Nat.lt_irrefl _ ((h.members _).mp hmem).1
  have hbound : intMin ≤ priority.toInt := by
    have := Int32.le_toInt priority
    simpa [intMin] using this
  obtain ⟨hprio, hseq, hexp, hdl, hnext⟩ :=
    push_fields s.queue s.requests.length d priority.toInt
  have hmem : ∀ t, t ∈ (s.queue.push s.requests.length d
      ⟨priority.toInt, true, true⟩).1.heap.arr ↔ t = s.requests.length ∨ t ∈ s.queue.heap.arr := by
    intro t
    rw [← mem_cons]
    have hperm := push_perm s.queue s.requests.length d ⟨priority.toInt, true, true⟩
    cases d <;> exact hperm.mem_iff
  -- Every task is the new one or one of those before it, about which nothing changes.
  have hcases : ∀ t, t < (s.requests ++ [(priority, d)]).length →
      t = s.requests.length ∨ t ≠ s.requests.length ∧ t < s.requests.length := by
    intro t ht
    rw [length_append, length_singleton] at ht
    omega
  have hget : ∀ t, t < s.requests.length →
      (s.requests ++ [(priority, d)])[t]? = s.requests[t]? := fun t ht =>
    getElem?_append_left ht
  have hlast : (s.requests ++ [(priority, d)])[s.requests.length]? = some (priority, d) := by simp
  have hwait : ∀ t, t ≠ s.requests.length →
      ({ s with
        queue := (s.queue.push s.requests.length d ⟨priority.toInt, true, true⟩).1
        requests := s.requests ++ [(priority, d)] }.waiting t ↔ s.waiting t) := by
    intro t hne
    simp only [waiting, length_append, length_singleton]
    exact and_congr_left' ⟨fun hlt => Nat.lt_of_le_of_ne (Nat.le_of_lt_succ hlt) hne,
      Nat.lt_succ_of_lt⟩
  refine ⟨h.wellFormed.push hfresh d hbound, fun t ht => ?_, fun t => ?_, ?_, fun t ht => ?_,
    fun t ht => ?_, fun t ht => ?_, fun t ht hc => ?_, fun t ht hx => ?_⟩
  · rw [length_append]
    exact Nat.lt_succ_of_lt (h.made t ht)
  · rw [hmem]
    by_cases ht : t = s.requests.length
    · subst ht
      have hnew : s.requests.length ∉ s.dequeued := fun hd =>
        Nat.lt_irrefl _ (h.made _ (.inr hd))
      simp [waiting, hnew]
    · rw [hwait t ht, ← h.members t, or_iff_right ht]
  · rw [hnext, h.next, length_append, length_singleton]
  · show PriorityQueue.sequence _ t = t
    rw [hseq]
    rcases hcases t ht with rfl | ⟨hne, hlt⟩
    · rw [update_self, h.next]
    · rw [update_of_ne hne, h.sequence t hlt]
  · show PriorityQueue.deadline _ t = bind (s.requests ++ [(priority, d)])[t]? _
    rw [hdl]
    rcases hcases t ht with rfl | ⟨hne, hlt⟩
    · rw [update_self, hlast]
      rfl
    · rw [update_of_ne hne, hget t hlt, h.deadline t hlt]
      rfl
  · show PriorityQueue.priority _ t = if PriorityQueue.expedited _ t = true then intMin
      else (Option.map _ (s.requests ++ [(priority, d)])[t]?).getD 0
    rw [hprio, hexp]
    rcases hcases t ht.1 with rfl | ⟨hne, hlt⟩
    · rw [update_self, update_self, hlast]
      rfl
    · rw [update_of_ne hne, update_of_ne hne, hget t hlt]
      exact h.priority t ((hwait t hne).mp ht)
  · show PriorityQueue.expedited _ t
    rw [hexp]
    have hlt := h.made t (.inl hc)
    have hne : t ≠ s.requests.length := Nat.ne_of_lt hlt
    rw [update_of_ne hne]
    exact h.cancelled t ((hwait t hne).mp ht) hc
  · rw [hexp] at hx
    by_cases hne : t = s.requests.length
    · subst hne
      simp at hx
    · rw [update_of_ne hne] at hx
      have hold := h.expedited t ((hwait t hne).mp ht) hx
      have hlt := ((hwait t hne).mp ht).1
      rw [urgent_iff] at hold ⊢
      refine hold.imp id ?_
      rintro ⟨e, he, hle⟩
      exact ⟨e, by rw [deadlineOf, hget t hlt]; exact he, hle⟩

/-- Cancelling a task that no longer waits changes nothing. -/
theorem Inv.cancelDead (h : Inv s) (hlt : t < s.requests.length) (ht : t ∉ s.queue.heap.arr) :
    Inv { s with cancelled := s.cancelled ++ [t] } := by
  refine h.raise h.wellFormed (raised_refl s.queue (fun _ => False))
    (fun _ _ hc => hc.elim) (fun u hu => by simp [hu]) (h.made_append hlt) (fun u hu hc => ?_)
  rcases mem_append.mp hc with hold | hnew
  · exact .inl hold
  · rw [mem_singleton.mp hnew, ← h.members] at hu
    exact absurd hu ht

/-! ### Dequeue -/

/-- Right after deadline promotion a waiting task's key is its effective priority and its
    arrival. -/
theorem Inv.promoted_key (h : Inv s) (ht : s.waiting t) :
    (s.queue.promoteExpiredDeadlinesLocked s.now).1.key t = toLex (s.effective t, t) := by
  have hend := promoting_promote h.wellFormed s.now
  have hexp : (s.queue.promoteExpiredDeadlinesLocked s.now).1.expedited t = s.urgent t := by
    rw [Bool.eq_iff_iff, urgent_iff]
    constructor
    · intro hx
      rcases hend.only t hx with hold | hdue
      · exact (urgent_iff s t).mp (h.expedited t ht hold)
      · exact .inr ((h.due_iff ht.1).mp hdue)
    · rintro (hc | hdue)
      · exact hend.keeps t (h.cancelled t ht hc)
      · exact promote_due h.wellFormed ((h.members t).mpr ht)
          ((h.due_iff ht.1).mpr hdue)
  have hprio : (s.queue.promoteExpiredDeadlinesLocked s.now).1.priority t = s.effective t := by
    have hkeeps := hend.keeps t
    rw [hend.priority t, h.priority t ht, effective, hexp]
    rw [hexp] at hkeeps
    cases hq : s.queue.expedited t <;> cases hu : s.urgent t <;> simp_all
  rw [key, hprio, hend.sequence, h.sequence t ht.1]

/-- A dequeue takes the least waiting task and keeps the invariant. -/
theorem Inv.dequeue (h : Inv s) (hpop : s.queue.dequeue s.now = some (t, q)) :
    Inv { s with queue := q, dequeued := s.dequeued ++ [t] } ∧ s.waiting t ∧
      ∀ u, s.waiting u → u ≠ t → s.before t u := by
  have hend := promoting_promote h.wellFormed s.now
  obtain ⟨hwf, hmem, hothers, hleast⟩ := h.wellFormed.dequeue hpop
  have hwait := (h.members t).mp hmem
  have hinv : Inv { s with queue := (s.queue.promoteExpiredDeadlinesLocked s.now).1 } :=
    h.raise hend.wellFormed hend.toRaised
      (fun u hu hdue => (urgent_iff _ u).mpr (.inr ((h.due_iff hu).mp hdue)))
      (fun _ => id) (fun u hu => h.made u (.inl hu)) (fun _ _ => .inl)
  have hkeep : ∀ u, { s with queue := q, dequeued := s.dequeued ++ [t] }.waiting u ↔
      s.waiting u ∧ u ≠ t := by
    intro u
    simp [waiting, and_assoc]
  refine ⟨?_, hwait, fun u hu hne => ?_⟩
  · rw [dequeue_frame hpop] at hwf hothers ⊢
    refine ⟨hwf, fun u hu => ?_, fun u => ?_, hinv.next, hinv.sequence, hinv.deadline,
      fun u hu => ?_, fun u hu => ?_, fun u hu => ?_⟩
    · rcases hu with hc | hd
      · exact h.made u (.inl hc)
      · exact forall_mem_concat (fun u hu => h.made u (.inr hu)) hwait.1 u hd
    · exact (hothers u).trans ((and_congr_left' (h.members u)).trans (hkeep u).symm)
    · exact hinv.priority u ((hkeep u).mp hu).1
    · exact hinv.cancelled u ((hkeep u).mp hu).1
    · exact hinv.expedited u ((hkeep u).mp hu).1
  · have hle := hleast u ((h.members u).mpr hu)
    rw [h.promoted_key hwait, h.promoted_key hu, Prod.Lex.toLex_le_toLex] at hle
    rcases hle with hlt | ⟨heq, hle⟩
    · exact .inl hlt
    · exact .inr ⟨heq, lt_of_le_of_ne hle (Ne.symm hne)⟩

/-! ### Every run -/

/-- Every operation keeps the order. -/
theorem step_inv {s' : PriorityRun} {op : PriorityOp} (h : Inv s) (hs : s.step op = some s') :
    Inv s' := by
  cases op with
  | advance now =>
    simp only [step] at hs
    split at hs <;> cases hs
    exact h.advance ‹_›
  | addTask priority d =>
    cases hs
    exact h.addTask priority d
  | cancel t alive =>
    simp only [step] at hs
    split at hs
    · cases hs
    next hlt =>
      have hlt := Nat.lt_of_not_le hlt
      split at hs
      · cases hs
        exact h.cancel hlt
      · split at hs <;> cases hs
        exact h.cancelDead hlt ‹_›
  | dequeue =>
    obtain ⟨⟨t, q⟩, hpop, rfl⟩ := map_eq_some_iff.mp hs
    exact (h.dequeue hpop).1

theorem reachable_inv {start : Time} (h : (prioritySystem start).Reachable s) : Inv s :=
  h.invariant (init_inv start) (fun _ hi _ hs => step_inv hi hs)

end PriorityRun

/-- **Priority order.**  After any sequence of operations both heaps are valid with exact
    back-indices and hold the waiting tasks; and a dequeue, possible whenever a task waits,
    takes the waiting task with the least effective priority, the first to arrive among
    equals. -/
theorem priorityQueue_dequeues_least {start : Time} {s : PriorityRun}
    (h : (prioritySystem start).Reachable s) :
    (s.queue.heap.Valid s.queue.key ∧ s.queue.deadlineHeap.Valid s.queue.deadlineKey ∧
      ∀ t, t ∈ s.queue.heap.arr ↔ s.waiting t) ∧
    ((∃ t, s.waiting t) → ∃ t q, s.queue.dequeue s.now = some (t, q) ∧
      s.step .dequeue = some { s with queue := q, dequeued := s.dequeued ++ [t] } ∧
      s.waiting t ∧ ∀ u, s.waiting u → u ≠ t → s.before t u) := by
  have hinv := PriorityRun.reachable_inv h
  refine ⟨⟨hinv.wellFormed.heap, hinv.wellFormed.deadlines, hinv.members⟩, ?_⟩
  rintro ⟨u, hu⟩
  have hne : s.queue.heap.arr ≠ [] := ne_nil_of_mem ((hinv.members u).mpr hu)
  obtain ⟨t, q, hpop, -⟩ := dequeue_perm s.queue s.now hne
  obtain ⟨-, hwait, hleast⟩ := hinv.dequeue hpop
  exact ⟨t, q, hpop, by simp [PriorityRun.step, hpop], hwait, hleast⟩

/-- Task 2 has the best priority of all, but task 1 was cancelled and the deadline of task 0 has
    passed: both are served first, in the order of their arrival. -/
def urgentRun : List PriorityOp :=
  [.addTask 5 (some 10), .addTask 7 none, .addTask (-3) none, .addTask 0 (some 90),
    .cancel 1 true, .advance 20, .dequeue]

theorem priorityQueue_dequeues_least_urgentRun :
    ∃ s, ((prioritySystem 0).Reachable s ∧ s.dequeued = [0]) ∧
      ∃ t q, s.queue.dequeue s.now = some (t, q) ∧ s.waiting t ∧
        ∀ u, s.waiting u → u ≠ t → s.before t u := by
  obtain ⟨s, hs, hdequeued, hwaiting⟩ := (prioritySystem 0).exists_reachable_of_run urgentRun
    (fun s => s.dequeued = [0] ∧ s.waiting 1) (by decide +kernel)
  obtain ⟨t, q, hpop, -, hwait, hleast⟩ := (priorityQueue_dequeues_least hs).2 ⟨1, hwaiting⟩
  exact ⟨s, ⟨hs, hdequeued⟩, t, q, hpop, hwait, hleast⟩

end ServiceLib.Pool
