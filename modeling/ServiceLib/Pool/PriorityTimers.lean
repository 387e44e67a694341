import Mathlib.Data.Int.Order.Basic
import ServiceLib.Lib.HeapValid
import ServiceLib.Pool.PriorityQueue

namespace ServiceLib.Pool.PriorityQueue

/-!
# Priority task pool — the deadlines of waiting tasks

The deadline heap of the priority pool holds exactly the waiting tasks with a deadline that were
not promoted (`Timers`).  Every operation keeps that, whether its allocations succeed or not.
-/

open List Option IndexedHeap

/-- What the deadline heap orders tasks by. -/
def deadlineKey (q : PriorityQueue) (t : TaskId) : Time := (q.deadline t).getD 0

theorem keyed_deadlineEarlier (q : PriorityQueue) :
    IndexedHeap.Keyed q.deadlineEarlier q.deadlineKey := by
  intro a b
  simp [deadlineEarlier, deadlineKey]

/-- A task that belongs in the deadline heap: not promoted, with a deadline. -/
def timed (q : PriorityQueue) (t : TaskId) : Prop :=
  q.expedited t = false ∧ (q.deadline t).isSome

variable {t : TaskId} {q' q : PriorityQueue}

theorem timed_congr (hexp : q'.expedited t = q.expedited t)
    (hdeadline : q'.deadline t = q.deadline t) : q'.timed t ↔ q.timed t := by
  rw [timed, timed, hexp, hdeadline]

/-- The deadline heap is valid and holds the tasks that belong in it. -/
structure Timers (q : PriorityQueue) : Prop where
  deadlines : q.deadlineHeap.Valid q.deadlineKey
  members : ∀ t, t ∈ q.deadlineHeap.arr ↔ t ∈ q.heap.arr ∧ q.timed t

/-- The same while `t` may be missing from the deadline heap. -/
abbrev TimersBut (q : PriorityQueue) (t : TaskId) : Prop :=
  q.deadlineHeap.HoldsBut t q.deadlineKey (fun u => u ∈ q.heap.arr ∧ q.timed u)

theorem timers_empty : Timers empty where
  deadlines := valid_empty _
  members := by simp [empty, IndexedHeap.empty]

theorem Timers.holds (h : Timers q) :
    q.deadlineHeap.Holds q.deadlineKey (fun u => u ∈ q.heap.arr ∧ q.timed u) :=
  ⟨h.deadlines, h.members⟩

/-! ### Insertion -/

theorem Timers.not_mem (h : Timers q) (ht : t ∉ q.heap.arr) : t ∉ q.deadlineHeap.arr :=
  fun hmem => ht ((h.members t).mp hmem).1

/-- The fields of a fresh task are not read by the deadline heap. -/
theorem Timers.newTask (h : Timers q) (ht : t ∉ q.heap.arr) (priority : Int) (d : Option Time)
    (l : List TaskId) (hl : ∀ u, u ≠ t → (u ∈ l ↔ u ∈ q.heap.arr)) :
    (q.newTask t priority d).deadlineHeap.HoldsBut t (q.newTask t priority d).deadlineKey
      (fun u => u ∈ l ∧ (q.newTask t priority d).timed u) := by
  refine h.holds.fresh (h.not_mem ht) (fun u hu => ?_) (fun u hu => ?_)
  · simp [deadlineKey, PriorityQueue.newTask, hu]
  · simp [timed, PriorityQueue.newTask, hu, hl u hu]

/-- Numbering and pushing a task that is in the deadline heap exactly when it belongs there. -/
theorem timers_enqueue
    (h : q.deadlineHeap.Holds q.deadlineKey (fun u => u ∈ t :: q.heap.arr ∧ q.timed u)) :
    Timers (q.enqueue t true).1 := by
  refine ⟨h.valid, fun u => (h.members u).trans (and_congr ?_ (timed_congr rfl rfl).symm)⟩
  exact (enqueue_perm q t true).mem_iff.symm

/-- When the priority heap cannot grow, the task leaves the deadline heap again. -/
theorem timers_enqueue_fail (ht : t ∉ q.heap.arr)
    (h : q.deadlineHeap.HoldsBut t q.deadlineKey (fun u => u ∈ t :: q.heap.arr ∧ q.timed u)) :
    Timers (q.enqueue t false).1 := by
  have hholds := h.remove (keyed_deadlineEarlier q) (P := fun u => u ∈ q.heap.arr ∧ q.timed u)
    (fun hmem => ht hmem.1) (fun u hu => by simp [hu])
  exact ⟨hholds.valid, hholds.members⟩

/-- **Insertion** keeps the deadlines, whichever allocation fails. -/
theorem Timers.push (h : Timers q) (ht : t ∉ q.heap.arr) (d : Option Time) (r : PriorityRequest) :
    Timers (q.push t d r).1 := by
  obtain ⟨priority, deadlineHeapGrows, heapGrows⟩ := r
  have hnew := h.newTask ht priority d (t :: q.heap.arr) (fun u hu => by simp [hu])
  cases d with
  | none =>
    cases heapGrows
    · exact timers_enqueue_fail ht hnew
    · exact timers_enqueue (hnew.complete (by simp [timed, PriorityQueue.newTask]))
  | some d =>
    cases deadlineHeapGrows
    · -- The task object was made, and nothing refers to it.
      have hold := (h.newTask ht priority (some d) q.heap.arr (fun _ _ => Iff.rfl)).complete
        (absurd ·.1 ht)
      exact ⟨hold.valid, hold.members⟩
    · have hpushed := hnew.push (keyed_deadlineEarlier _) (h.not_mem ht)
        (by simp [timed, PriorityQueue.newTask])
      cases heapGrows
      · exact timers_enqueue_fail ht (hpushed.but t)
      · exact timers_enqueue hpushed

/-! ### Promotion -/

/-- Taking the root out of the deadline heap leaves only that task in transit. -/
theorem Timers.removeEarliest (h : Timers q) (ht : q.deadlineHeap.arr.head? = some t) :
    TimersBut (q.deadlineHeapRemoveAtLocked 0) t :=
  h.holds.removeRoot (keyed_deadlineEarlier q) ht

/-- What `expediteLocked` does to a task that claims a position and was not promoted before. -/
theorem expediteLocked_eq {i : Nat} (hi : q.heap.idx t = some i) (hexp : q.expedited t = false) :
    (q.expediteLocked t).1 =
      { q with
        expedited := Function.update q.expedited t true
        deadlineHeap := q.deadlineHeap.remove q.deadlineEarlier t
        priority := Function.update q.priority t intMin
        heap := q.heap.siftUp
          { q with priority := Function.update q.priority t intMin }.comesBefore i } := by
  simp only [expediteLocked, hi, hexp, Bool.false_eq_true, if_false]
  rfl

/-- `expediteLocked` either does nothing, because the task claims no position or was promoted
    before, or it promotes the task. -/
theorem expediteLocked_cases (q : PriorityQueue) (t : TaskId) :
    ((q.expediteLocked t).1 = q ∧ (q.heap.idx t = none ∨ q.expedited t)) ∨
      ∃ i, q.heap.idx t = some i ∧ q.expedited t = false := by
  cases hi : q.heap.idx t with
  | none =>
    left
    simp [expediteLocked, hi]
  | some i =>
    cases hexp : q.expedited t with
    | true =>
      left
      simp [expediteLocked, hi, hexp]
    | false => exact .inr ⟨i, rfl, rfl⟩

/-- **Promotion** completes the transit of `t`. -/
theorem TimersBut.expedite (h : TimersBut q t) (hl : t ∈ q.heap.arr → q.heap.idx t ≠ none) :
    Timers (q.expediteLocked t).1 := by
  rcases expediteLocked_cases q t with ⟨heq, hcond⟩ | ⟨i, hi, hexp⟩
  · -- Nothing to do: `t` does not belong in the deadline heap, and is not there.
    have hnot : ¬ (t ∈ q.heap.arr ∧ q.timed t) := by
      rintro ⟨hmem, hexp, -⟩
      rcases hcond with hnone | hexp'
      · exact hl hmem hnone
      · cases hexp.symm.trans hexp'
    have hholds := h.complete (absurd · hnot)
    rw [heq]
    exact ⟨hholds.valid, hholds.members⟩
  · have hperm : (q.expediteLocked t).1.heap.arr.Perm q.heap.arr := expediteLocked_perm q t
    have hholds := h.remove (keyed_deadlineEarlier q)
      (P := fun u => u ∈ (q.expediteLocked t).1.heap.arr ∧ (q.expediteLocked t).1.timed u)
      (by simp [timed, expediteLocked_eq hi hexp])
      (fun u hu => and_congr hperm.mem_iff (by simp [timed, expediteLocked_eq hi hexp, hu]))
    rw [expediteLocked_eq hi hexp] at hholds ⊢
    exact ⟨hholds.valid, hholds.members⟩

theorem head?_of_earliest {d : Time} (h : q.earliest = some (t, d)) :
    q.deadlineHeap.arr.head? = some t ∧ d = q.deadlineKey t := by
  obtain ⟨u, hu, heq⟩ := map_eq_some_iff.mp h
  cases heq
  exact ⟨hu, rfl⟩

/-! ### Removal -/

theorem heapPop_eq (hpop : q.heapPop = some (t, q')) :
    ∃ last, q.heap.arr.head? = some t ∧ q.heap.arr.getLast? = some last ∧
      q' = { q with heap := q.heap.popTop q.comesBefore t last } := by
  unfold PriorityQueue.heapPop at hpop
  split at hpop
  case h_1 top last htop hlast =>
    cases hpop
    exact ⟨last, htop, hlast, rfl⟩
  case h_2 => cases hpop

/-- `heapPop` takes one member out. -/
theorem mem_heapPop (hnd : q.heap.arr.Nodup) (hpop : q.heapPop = some (t, q')) (u : TaskId) :
    u ∈ q'.heap.arr ↔ u ∈ q.heap.arr ∧ u ≠ t := by
  obtain ⟨last, htop, hlast, rfl⟩ := heapPop_eq hpop
  have hperm := popTop_perm q.comesBefore q.heap htop hlast
  have hout := (nodup_cons.mp (hperm.nodup_iff.mpr hnd)).1
  rw [← hperm.mem_iff, mem_cons]
  constructor
  · intro hu
    exact ⟨.inr hu, fun hut => hout (hut ▸ hu)⟩
  · rintro ⟨rfl | hu, hne⟩
    · exact absurd rfl hne
    · exact hu

/-- The member it takes leaves the deadline heap as well. -/
theorem Timers.heapPop (h : Timers q) (hnd : q.heap.arr.Nodup) (hpop : q.heapPop = some (t, q')) :
    Timers (q'.deadlineHeapRemoveLocked t) := by
  have hmem := mem_heapPop hnd hpop
  obtain ⟨last, -, -, rfl⟩ := heapPop_eq hpop
  have hholds := (h.holds.but t).remove (keyed_deadlineEarlier q)
    (P := fun u => u ∈ (q.heap.popTop q.comesBefore t last).arr ∧ q.timed u)
    (fun hself => ((hmem t).mp hself.1).2 rfl)
    (fun u hu => and_congr_left' ((hmem u).trans (and_iff_left hu)))
  exact ⟨hholds.valid, hholds.members⟩

end ServiceLib.Pool.PriorityQueue
