import Mathlib.Data.Int.Order.Basic
import ServiceLib.Lib.HeapValid
import ServiceLib.Lib.ThreadList
import ServiceLib.Lib.Transition
import ServiceLib.Pool.TaskQueue

namespace ServiceLib.Pool

/-!
# Task pool — the representation of the wait queue

The four representations the task pool keeps of its waiting tasks agree in every state: the
linked list, the `inQueue` flags, the deadline heap, and the back-indices into it.
-/

open List Option Function IndexedHeap TaskQueue

namespace TaskQueue

/-- What the deadline heap orders tasks by. -/
def deadlineKey (q : TaskQueue) (t : TaskId) : Time := (q.deadline t).getD 0

theorem keyed_deadlineEarlier (q : TaskQueue) :
    IndexedHeap.Keyed q.deadlineEarlier q.deadlineKey := by
  intro a b
  simp [deadlineEarlier, deadlineKey]

/-- A task that belongs in the deadline heap: not promoted, with a deadline. -/
def timed (q : TaskQueue) (t : TaskId) : Prop :=
  q.expedited t = false ∧ (q.deadline t).isSome

variable {q : TaskQueue} {t : TaskId} {l : List TaskId} {q' : TaskQueue}

theorem timed_congr (hexp : q'.expedited t = q.expedited t)
    (hdeadline : q'.deadline t = q.deadline t) : q'.timed t ↔ q.timed t := by
  rw [timed, timed, hexp, hdeadline]

/-- **Representation invariant** of the task pool's queue. -/
structure WellFormed (q : TaskQueue) (l : List TaskId) : Prop where
  linked : q.Linked l
  heap : q.deadlineHeap.Valid q.deadlineKey
  members : ∀ t, t ∈ q.deadlineHeap.arr ↔ t ∈ l ∧ q.timed t

/-- The invariant while `t` may be missing from the deadline heap. -/
structure WellFormedBut (q : TaskQueue) (l : List TaskId) (t : TaskId) : Prop where
  linked : q.Linked l
  holds : q.deadlineHeap.HoldsBut t q.deadlineKey (fun u => u ∈ l ∧ q.timed u)

theorem wellFormed_empty : WellFormed empty [] where
  linked := linked_empty
  heap := valid_empty _
  members := by simp [empty, IndexedHeap.empty]

theorem WellFormed.holds (h : WellFormed q l) :
    q.deadlineHeap.Holds q.deadlineKey (fun u => u ∈ l ∧ q.timed u) := ⟨h.heap, h.members⟩

/-! ### Insertion -/

theorem WellFormed.not_mem (h : WellFormed q l) (ht : t ∉ l) : t ∉ q.deadlineHeap.arr :=
  fun hmem => ht ((h.members t).mp hmem).1

/-- The fields of a fresh task are not read by the deadline heap. -/
theorem WellFormed.newTask (h : WellFormed q l) (ht : t ∉ l) (d : Option Time) (l' : List TaskId)
    (hl : ∀ u, u ≠ t → (u ∈ l' ↔ u ∈ l)) : (q.newTask t d).deadlineHeap.HoldsBut t
      (q.newTask t d).deadlineKey (fun u => u ∈ l' ∧ (q.newTask t d).timed u) := by
  refine h.holds.fresh (h.not_mem ht) (fun u hu => ?_) (fun u hu => ?_)
  · simp [deadlineKey, TaskQueue.newTask, hu]
  · simp [timed, TaskQueue.newTask, hu, hl u hu]

@[simp] theorem link_deadlineHeap (q : TaskQueue) (t : TaskId) :
    (q.link t).deadlineHeap = q.deadlineHeap := by
  unfold link
  cases q.tail <;> rfl

@[simp] theorem link_deadline (q : TaskQueue) (t : TaskId) : (q.link t).deadline = q.deadline := by
  unfold link
  cases q.tail <;> rfl

@[simp] theorem link_expedited (q : TaskQueue) (t : TaskId) :
    (q.link t).expedited = q.expedited := by
  unfold link
  cases q.tail <;> rfl

/-- Linking a new task that is in the deadline heap exactly when it belongs there. -/
theorem wellFormed_link (hlinked : q.Linked l) (ht : t ∉ l) (hnext : q.next t = none)
    (hprev : q.prev t = none)
    (hholds : q.deadlineHeap.Holds q.deadlineKey (fun u => u ∈ l ++ [t] ∧ q.timed u)) :
    WellFormed (q.link t) (l ++ [t]) where
  linked := hlinked.link ht hnext hprev
  heap := by
    rw [link_deadlineHeap]
    refine hholds.valid.congr (fun u _ => ?_)
    rw [deadlineKey, deadlineKey, link_deadline]
  members u := by
    have htimed : (q.link t).timed u ↔ q.timed u := timed_congr (by simp) (by simp)
    rw [link_deadlineHeap, htimed]
    exact hholds.members u

/-- **Insertion** keeps the invariant. -/
theorem WellFormed.push (h : WellFormed q l) (ht : t ∉ l) (d : Option Time) (heapGrows : Bool) :
    WellFormed (q.push t d heapGrows).1 (if (q.push t d heapGrows).2 then l ++ [t] else l) := by
  have hlinked := h.linked.newTask ht d
  have hnew := h.newTask ht d (l ++ [t]) (fun u hu => by simp [hu])
  cases d with
  | none =>
    refine wellFormed_link hlinked ht (by simp [TaskQueue.newTask]) (by simp [TaskQueue.newTask])
      (hnew.complete ?_)
    simp [timed, TaskQueue.newTask]
  | some d =>
    cases heapGrows with
    | false =>
      -- The task object was made, and nothing refers to it.
      have hold := (h.newTask ht (some d) l (fun _ _ => Iff.rfl)).complete (absurd ·.1 ht)
      exact ⟨hlinked, hold.valid, hold.members⟩
    | true =>
      refine wellFormed_link (hlinked.congr rfl rfl rfl rfl rfl rfl) ht
        (by simp [deadlineHeapPushLocked, TaskQueue.newTask])
        (by simp [deadlineHeapPushLocked, TaskQueue.newTask])
        (hnew.push (keyed_deadlineEarlier _) (h.not_mem ht) ?_)
      simp [timed, TaskQueue.newTask]

/-! ### Promotion -/

/-- Taking the root out of the deadline heap leaves only that task in transit. -/
theorem WellFormed.removeEarliest (h : WellFormed q l) (ht : q.deadlineHeap.arr.head? = some t) :
    WellFormedBut (q.deadlineHeapRemoveAtLocked 0) l t :=
  ⟨h.linked.congr rfl rfl rfl rfl rfl rfl, h.holds.removeRoot (keyed_deadlineEarlier q) ht⟩

theorem moveToFront_frame (q : TaskQueue) (t : TaskId) :
    (q.moveToFront t).deadlineHeap = q.deadlineHeap ∧
      (q.moveToFront t).deadline = q.deadline ∧ (q.moveToFront t).expedited = q.expedited := by
  rw [moveToFront_eq]
  exact ⟨rfl, rfl, rfl⟩

/-- Only the promoted task and its heap entry change, besides the pointers. -/
theorem requeueToFrontLocked_frame (q : TaskQueue) (t : TaskId)
    (hcond : ¬ (q.inQueue t = false ∨ q.expedited t)) :
    (q.requeueToFrontLocked t).1.deadlineHeap = q.deadlineHeap.remove q.deadlineEarlier t ∧
      (q.requeueToFrontLocked t).1.deadline = q.deadline ∧
      (q.requeueToFrontLocked t).1.expedited = update q.expedited t true := by
  unfold requeueToFrontLocked
  rw [if_neg hcond]
  split
  · exact ⟨rfl, rfl, rfl⟩
  · obtain ⟨hheap, hdeadline, hexp⟩ := moveToFront_frame (q.markExpedited t) t
    exact ⟨hheap, hdeadline, hexp⟩

/-- **Promotion** completes the transit of `t`: it leaves the heap, if it is there, and the
    front of the list is where it goes. -/
theorem WellFormedBut.requeue (h : WellFormedBut q l t) :
    WellFormed (q.requeueToFrontLocked t).1 (q.requeued l t) := by
  have hlinked := h.linked.requeue t
  by_cases hcond : q.inQueue t = false ∨ q.expedited t
  · -- Nothing to do: `t` does not belong in the heap, and is not there.
    have hnot : ¬ (t ∈ l ∧ q.timed t) := by
      rintro ⟨htl, hexp, -⟩
      rcases hcond with hin | hexp'
      · simp [(h.linked.inQueue_iff t).mpr htl] at hin
      · rw [hexp] at hexp'
        cases hexp'
    simp only [requeueToFrontLocked, requeued, if_pos hcond] at hlinked ⊢
    have hholds := h.holds.complete (absurd · hnot)
    exact ⟨hlinked, hholds.valid, hholds.members⟩
  · obtain ⟨hheap, hdeadline, hexp⟩ := requeueToFrontLocked_frame q t hcond
    have hholds := h.holds.remove (keyed_deadlineEarlier q)
      (P := fun u => u ∈ q.requeued l t ∧ (q.requeueToFrontLocked t).1.timed u)
      (by simp [timed, hexp])
      (fun u hu => and_congr (h.linked.requeued_perm t).mem_iff
        (timed_congr (by rw [hexp, update_of_ne hu]) (by rw [hdeadline])))
    rw [← hheap] at hholds
    refine ⟨hlinked, hholds.valid.congr (fun u _ => ?_), hholds.members⟩
    rw [deadlineKey, deadlineKey, hdeadline]

theorem WellFormed.requeueToFrontLocked (h : WellFormed q l) (t : TaskId) :
    WellFormed (q.requeueToFrontLocked t).1 (q.requeued l t) :=
  WellFormedBut.requeue ⟨h.linked, h.holds.but t⟩

/-- The root of the deadline heap, when `earliest` answers it. -/
theorem head?_of_earliest {d : Time} (h : q.earliest = some (t, d)) :
    q.deadlineHeap.arr.head? = some t := by
  obtain ⟨u, hu, heq⟩ := map_eq_some_iff.mp h
  cases heq
  exact hu

/-- **Deadline promotion** keeps the invariant. -/
theorem WellFormed.promote (h : WellFormed q l) (now : Time) :
    ∃ l', WellFormed (q.promoteExpiredDeadlinesLocked now).1 l' ∧ l'.Perm l := by
  refine promoteLoop_induction (I := fun q => ∃ l', WellFormed q l' ∧ l'.Perm l) now ?_ _ _
    ⟨l, h, Perm.refl l⟩
  rintro q t d hroot - ⟨l', h', hl'⟩
  have hbut := h'.removeEarliest (head?_of_earliest hroot)
  exact ⟨_, hbut.requeue, (hbut.linked.requeued_perm t).trans hl'⟩

theorem WellFormed.requeueToFront (h : WellFormed q l) (t : TaskId) (now : Time) :
    ∃ l', WellFormed (q.requeueToFront t now).1 l' ∧ l'.Perm l := by
  obtain ⟨l₁, h₁, hl₁⟩ := h.promote now
  exact ⟨_, h₁.requeueToFrontLocked t, (h₁.linked.requeued_perm t).trans hl₁⟩

/-! ### Removal -/

theorem removeHead_frame (q : TaskQueue) (t : TaskId) :
    (q.removeHead t).deadlineHeap = q.deadlineHeap.remove q.deadlineEarlier t ∧
      (q.removeHead t).deadline = q.deadline ∧ (q.removeHead t).expedited = q.expedited := by
  unfold removeHead
  cases q.next t <;> exact ⟨rfl, rfl, rfl⟩

/-- **Removal** of the first task keeps the invariant. -/
theorem WellFormed.removeHead (h : WellFormed q (t :: l)) : WellFormed (q.removeHead t) l := by
  obtain ⟨hheap, hdeadline, hexp⟩ := removeHead_frame q t
  have hnd := nodup_cons.mp h.linked.nodup
  have hholds := (h.holds.but t).remove (keyed_deadlineEarlier q)
    (P := fun u => u ∈ l ∧ (q.removeHead t).timed u) (fun hmem => hnd.1 hmem.1)
    (fun u hu => and_congr (by simp [hu]) (timed_congr (by rw [hexp]) (by rw [hdeadline])))
  rw [← hheap] at hholds
  refine ⟨h.linked.unlinkHead.2, hholds.valid.congr (fun u _ => ?_), hholds.members⟩
  rw [deadlineKey, deadlineKey, hdeadline]

/-- **Dequeue** keeps the invariant. -/
theorem WellFormed.dequeue {now : Time} (h : WellFormed q l)
    (hpop : q.dequeue now = some (t, q')) : ∃ l', WellFormed q' l' ∧ (t :: l').Perm l := by
  obtain ⟨l₁, h₁, hl₁⟩ := h.promote now
  cases l₁ with
  | nil =>
    have hhead : (q.promoteExpiredDeadlinesLocked now).1.head = none := h₁.linked.head_eq
    simp only [TaskQueue.dequeue, unlinkHead, hhead] at hpop
    cases hpop
  | cons u l' =>
    have hq := h₁.linked.unlinkHead.1.symm.trans hpop
    cases hq
    exact ⟨l', h₁.removeHead, hl₁⟩

end TaskQueue

/-! ### Any sequence of operations -/

/-- The operations of the queue.  Clocks are arbitrary here: nothing below depends on them. -/
inductive QueueOp
  /-- `addTask`; `heapGrows` is whether the deadline heap can be extended. -/
  | addTask (deadline : Option Time) (heapGrows : Bool)
  | requeueToFront (t : TaskId) (now : Time)
  | promoteExpiredDeadlines (now : Time)
  /-- The removal in `executorLoop`. -/
  | dequeue (now : Time)
  deriving DecidableEq, Repr

/-- The queue, and how many task objects were made so far. -/
structure QueueState where
  queue : TaskQueue
  tasks : Nat

def QueueState.step (s : QueueState) : QueueOp → Option QueueState
  | .addTask deadline heapGrows =>
    some ⟨(s.queue.push s.tasks deadline heapGrows).1, s.tasks + 1⟩
  | .requeueToFront t now => some { s with queue := (s.queue.requeueToFront t now).1 }
  | .promoteExpiredDeadlines now =>
    some { s with queue := (s.queue.promoteExpiredDeadlinesLocked now).1 }
  | .dequeue now => (s.queue.dequeue now).map (fun r => { s with queue := r.2 })

/-- The queue of a pool under any sequence of operations. -/
def queueSystem : System QueueState QueueOp where
  init := ⟨empty, 0⟩
  step := QueueState.step

/-- The invariant of a run: the queue is well formed and holds only tasks that were made. -/
def QueueState.Represents (s : QueueState) (l : List TaskId) : Prop :=
  s.queue.WellFormed l ∧ ∀ t ∈ l, t < s.tasks

/-- Every operation keeps the representation. -/
theorem QueueState.Represents.step {s s' : QueueState} {op : QueueOp} (h : s.Represents l)
    (hs : s.step op = some s') : ∃ l', s'.Represents l' := by
  obtain ⟨hwf, hmade⟩ := h
  cases op with
  | addTask deadline heapGrows =>
    cases hs
    have hfresh : s.tasks ∉ l := fun hmem => Nat.lt_irrefl _ (hmade _ hmem)
    refine ⟨_, hwf.push hfresh deadline heapGrows, fun t ht => ?_⟩
    show t < s.tasks + 1
    split at ht
    · exact forall_mem_concat (fun u hu => Nat.lt_succ_of_lt (hmade u hu)) (Nat.lt_succ_self _) t ht
    · exact Nat.lt_succ_of_lt (hmade t ht)
  | requeueToFront t now =>
    cases hs
    obtain ⟨l', h', hl'⟩ := hwf.requeueToFront t now
    exact ⟨l', h', fun u hu => hmade u (hl'.mem_iff.mp hu)⟩
  | promoteExpiredDeadlines now =>
    cases hs
    obtain ⟨l', h', hl'⟩ := hwf.promote now
    exact ⟨l', h', fun u hu => hmade u (hl'.mem_iff.mp hu)⟩
  | dequeue now =>
    obtain ⟨⟨t, q'⟩, hpop, rfl⟩ := map_eq_some_iff.mp hs
    obtain ⟨l', h', hl'⟩ := hwf.dequeue hpop
    exact ⟨l', h', fun u hu => hmade u (hl'.mem_iff.mp (mem_cons_of_mem t hu))⟩

/-- Every run represents a list of tasks. -/
theorem reachable_represents {s : QueueState} (h : queueSystem.Reachable s) : ∃ l, s.Represents l :=
  h.invariant (I := fun s => ∃ l, QueueState.Represents s l)
    ⟨[], wellFormed_empty, by simp⟩
    (fun _ ⟨_, hl⟩ _ hs => hl.step hs)

/-- **The representations agree.**  After any sequence of operations the pointers form one
    duplicate-free doubly linked list whose length is `count`, `inQueue` marks its nodes, the
    deadline heap is a valid min-heap whose back-indices are positions, and its members are the
    queued tasks with a deadline that were not promoted. -/
theorem taskQueue_representation {s : QueueState} (h : queueSystem.Reachable s) :
    ∃ l, s.queue.WellFormed l := by
  obtain ⟨l, hwf, -⟩ := reachable_represents h
  exact ⟨l, hwf⟩

/-- Two of four deadlines pass, one other task is cancelled, one task is dequeued. -/
def promotedRun : List QueueOp :=
  [.addTask (some 40) true, .addTask none true, .addTask (some 20) true, .addTask (some 30) true,
    .addTask (some 50) false, .promoteExpiredDeadlines 30, .requeueToFront 1 35, .dequeue 36]

theorem taskQueue_representation_promotedRun :
    ∃ s, (queueSystem.Reachable s ∧ s.queue.deadlineHeap.arr = [0] ∧ s.queue.head = some 3) ∧
      ∃ l, s.queue.WellFormed l := by
  obtain ⟨s, hs, hp⟩ := queueSystem.exists_reachable_of_run promotedRun
    (fun s => s.queue.deadlineHeap.arr = [0] ∧ s.queue.head = some 3) (by decide)
  exact ⟨s, ⟨hs, hp⟩, taskQueue_representation hs⟩

end ServiceLib.Pool
