import ServiceLib.Lib.IndexedHeap
import ServiceLib.Pool.WaitQueue

namespace ServiceLib.Pool

/-!
# Priority task pool — the wait queue

The wait queue of `PriorityTaskPoolImpl`: a binary heap ordered by priority and arrival
sequence, plus the min-heap of deadlines of waiting tasks.  As for the task pool, the
fields of `PriorityPoolTask` are maps indexed by the object, `priorityIndex` and
`deadlineIndex` are the back-indices of the two heaps, and every function runs with `mu_`
held.

A `heapPush` whose `push_back` throws has already written `priorityIndex`; the model keeps
that write (`push`).  `nextSequence_` is a `uint64_t` in the source and a natural number here:
it is taken not to wrap around.
-/

open IndexedHeap List Function

/-- The queue fields of `PriorityTaskPoolImpl` and of its `PriorityPoolTask` objects. -/
structure PriorityQueue where
  priority : TaskId → Int
  sequence : TaskId → Nat
  expedited : TaskId → Bool
  deadline : TaskId → Option Time
  heap : IndexedHeap TaskId
  deadlineHeap : IndexedHeap TaskId
  nextSequence : Nat

/-- What an `addTask` call of the priority pool supplies besides its context: the priority,
    and whether the deadline heap and the priority heap can grow. -/
structure PriorityRequest where
  priority : Int
  deadlineHeapGrows : Bool
  heapGrows : Bool
  deriving DecidableEq, Repr

/-- `std::numeric_limits<int>::min()`. -/
def intMin : Int := -2147483648

namespace PriorityQueue

/-- The queue of a freshly constructed pool. -/
def empty : PriorityQueue where
  priority := fun _ => 0
  sequence := fun _ => 0
  expedited := fun _ => false
  deadline := fun _ => none
  heap := IndexedHeap.empty
  deadlineHeap := IndexedHeap.empty
  nextSequence := 0

/-- `comesBefore`: lower priority first, then arrival order. -/
def comesBefore (q : PriorityQueue) (a b : TaskId) : Bool :=
  if q.priority a ≠ q.priority b then decide (q.priority a < q.priority b)
  else decide (q.sequence a < q.sequence b)

/-- `deadlineEarlier`; both tasks have a deadline when this is called. -/
def deadlineEarlier (q : PriorityQueue) (a b : TaskId) : Bool :=
  decide ((q.deadline a).getD 0 < (q.deadline b).getD 0)

/-- `deadlineHeapPushLocked`, when the array can grow. -/
def deadlineHeapPushLocked (q : PriorityQueue) (t : TaskId) : PriorityQueue :=
  { q with deadlineHeap := q.deadlineHeap.push q.deadlineEarlier t }

/-- `deadlineHeapRemoveAtLocked`. -/
def deadlineHeapRemoveAtLocked (q : PriorityQueue) (i : Nat) : PriorityQueue :=
  { q with deadlineHeap := q.deadlineHeap.removeAt q.deadlineEarlier i }

/-- `deadlineHeapRemoveLocked`. -/
def deadlineHeapRemoveLocked (q : PriorityQueue) (t : TaskId) : PriorityQueue :=
  { q with deadlineHeap := q.deadlineHeap.remove q.deadlineEarlier t }

/-- The fresh `PriorityPoolTask` of an `addTask` call, with its priority and deadline. -/
def newTask (q : PriorityQueue) (t : TaskId) (priority : Int) (deadline : Option Time) :
    PriorityQueue :=
  { q with
    priority := update q.priority t priority
    sequence := update q.sequence t 0
    expedited := update q.expedited t false
    deadline := update q.deadline t deadline }

/-- `heapPush`.  When `push_back` throws, `priorityIndex` has already been written. -/
def heapPush (q : PriorityQueue) (t : TaskId) (heapGrows : Bool) : PriorityQueue × Bool :=
  if heapGrows then ({ q with heap := q.heap.push q.comesBefore t }, true)
  else
    ({ q with heap :=
        { q.heap with idx := update q.heap.idx t (some q.heap.arr.length) } }, false)

/-- The end of `addTask`: number the task, push it, and on failure take it out of the
    deadline heap again. -/
def enqueue (q : PriorityQueue) (t : TaskId) (heapGrows : Bool) : PriorityQueue × Bool :=
  let q := { q with sequence := update q.sequence t q.nextSequence }
  let r := q.heapPush t heapGrows
  if r.2 then ({ r.1 with nextSequence := r.1.nextSequence + 1 }, true)
  else (r.1.deadlineHeapRemoveLocked t, false)

/-- The part of `addTask` that makes a task visible. -/
def push (q : PriorityQueue) (t : TaskId) (deadline : Option Time) (r : PriorityRequest) :
    PriorityQueue × Bool :=
  let q := q.newTask t r.priority deadline
  match deadline with
  | none => q.enqueue t r.heapGrows
  | some _ =>
    if r.deadlineHeapGrows then (q.deadlineHeapPushLocked t).enqueue t r.heapGrows
    else (q, false)

/-- `expediteLocked`; the flag reports the first successful promotion. -/
def expediteLocked (q : PriorityQueue) (t : TaskId) : PriorityQueue × Bool :=
  match q.heap.idx t with
  | none => (q, false)
  | some i =>
    if q.expedited t = true then (q, false)
    else
      let q := { q with expedited := update q.expedited t true }
      let q := q.deadlineHeapRemoveLocked t
      let q := { q with priority := update q.priority t intMin }
      ({ q with heap := q.heap.siftUp q.comesBefore i }, true)

/-- The task at the root of the deadline heap with its deadline. -/
def earliest (q : PriorityQueue) : Option (TaskId × Time) :=
  q.deadlineHeap.arr.head?.map (fun t => (t, (q.deadline t).getD 0))

/-- `promoteExpiredDeadlinesLocked`: the queue afterwards and the number of promotions. -/
def promoteExpiredDeadlinesLocked (q : PriorityQueue) (now : Time) : PriorityQueue × Nat :=
  promoteLoop earliest (·.deadlineHeapRemoveAtLocked 0) expediteLocked now
    q.deadlineHeap.arr.length q 0

/-- The critical section of `expedite`, and how many tasks it promoted. -/
def expedite (q : PriorityQueue) (t : TaskId) (now : Time) : PriorityQueue × Nat :=
  let r := q.promoteExpiredDeadlinesLocked now
  let r' := r.1.expediteLocked t
  (r'.1, r.2 + (if r'.2 then 1 else 0))

/-- `heapPop`: the root goes, the last member takes its place and is sifted down. -/
def heapPop (q : PriorityQueue) : Option (TaskId × PriorityQueue) :=
  match q.heap.arr.head?, q.heap.arr.getLast? with
  | some top, some last => some (top, { q with heap := q.heap.popTop q.comesBefore top last })
  | _, _ => none

/-- Promotion of expired deadlines followed by `heapPop`. -/
def dequeue (q : PriorityQueue) (now : Time) : Option (TaskId × PriorityQueue) :=
  ((q.promoteExpiredDeadlinesLocked now).1.heapPop).map
    (fun r => (r.1, r.2.deadlineHeapRemoveLocked r.1))

/-! ### The tasks in the heap -/

section

variable (q : PriorityQueue)
include q

theorem expediteLocked_perm (t : TaskId) : (q.expediteLocked t).1.heap.arr.Perm q.heap.arr := by
  unfold expediteLocked
  split
  · exact List.Perm.refl _
  · split
    · exact List.Perm.refl _
    · exact siftUp_perm _ _ _

/-- **Deadline promotion** only reorders the heap. -/
theorem promote_perm (now : Time) :
    (q.promoteExpiredDeadlinesLocked now).1.heap.arr.Perm q.heap.arr := by
  refine promoteLoop_invariant (I := fun q' : PriorityQueue => q'.heap.arr.Perm q.heap.arr)
    ?_ ?_ now _ _
    (List.Perm.refl _)
  · intro q' h
    exact h
  · intro q' t h
    exact (expediteLocked_perm q' t).trans h

theorem expedite_perm (t : TaskId) (now : Time) : (q.expedite t now).1.heap.arr.Perm q.heap.arr :=
  (expediteLocked_perm _ t).trans (promote_perm q now)

/-- **Insertion** adds exactly the new task, or nothing when an allocation fails. -/
theorem enqueue_perm (t : TaskId) (heapGrows : Bool) :
    (q.enqueue t heapGrows).1.heap.arr.Perm
      (if (q.enqueue t heapGrows).2 then t :: q.heap.arr else q.heap.arr) := by
  cases heapGrows with
  | false => exact List.Perm.refl _
  | true => exact push_perm _ _ _

theorem push_perm (t : TaskId) (d : Option Time) (r : PriorityRequest) :
    (q.push t d r).1.heap.arr.Perm (if (q.push t d r).2 then t :: q.heap.arr else q.heap.arr) := by
  cases d with
  | none => exact enqueue_perm (q.newTask t r.priority none) t r.heapGrows
  | some d =>
    have hpush : q.push t (some d) r = if r.deadlineHeapGrows then
        ((q.newTask t r.priority (some d)).deadlineHeapPushLocked t).enqueue t r.heapGrows
      else (q.newTask t r.priority (some d), false) := rfl
    rw [hpush]
    split
    · exact enqueue_perm ((q.newTask t r.priority (some d)).deadlineHeapPushLocked t) t _
    · exact List.Perm.refl _

/-- **Removal** takes one member of a heap that is not empty. -/
theorem heapPop_perm (h : q.heap.arr ≠ []) :
    ∃ t q', q.heapPop = some (t, q') ∧ (t :: q'.heap.arr).Perm q.heap.arr := by
  have htop := head?_eq_some_head h
  have hlast := getLast?_eq_some_getLast h
  refine ⟨q.heap.arr.head h,
    { q with heap := q.heap.popTop q.comesBefore (q.heap.arr.head h) (q.heap.arr.getLast h) },
    by simp only [heapPop, htop, hlast], ?_⟩
  exact popTop_perm q.comesBefore q.heap htop hlast

theorem dequeue_perm (now : Time) (h : q.heap.arr ≠ []) :
    ∃ t q', q.dequeue now = some (t, q') ∧ (t :: q'.heap.arr).Perm q.heap.arr := by
  have hp := promote_perm q now
  have hne : (q.promoteExpiredDeadlinesLocked now).1.heap.arr ≠ [] := fun hnil =>
    h (nil_perm.mp (hnil ▸ hp))
  obtain ⟨t, q', heq, hperm⟩ := heapPop_perm _ hne
  exact ⟨t, q'.deadlineHeapRemoveLocked t, by simp [dequeue, heq], hperm.trans hp⟩

theorem dequeue_nil (now : Time) (h : q.heap.arr = []) : q.dequeue now = none := by
  have hp := promote_perm q now
  rw [h] at hp
  simp [dequeue, heapPop, perm_nil.mp hp]

end

end PriorityQueue

/-! ### The heap as a wait queue -/

instance : WaitQueue PriorityQueue PriorityRequest where
  empty := PriorityQueue.empty
  push := PriorityQueue.push
  promote := PriorityQueue.expedite
  contains q t := decide (t ∈ q.heap.arr)
  size q := q.heap.arr.length
  pop := PriorityQueue.dequeue

instance : LawfulWaitQueue PriorityQueue where
  Holds q l := q.heap.arr.Perm l ∧ l.Nodup
  holds_empty := ⟨List.Perm.refl _, nodup_nil⟩
  holds_nodup := fun h => h.2
  holds_perm := fun h hp => ⟨h.1.trans hp, hp.nodup_iff.mp h.2⟩
  holds_contains := fun h t => by
    show decide _ ↔ _
    rw [decide_eq_true_eq, h.1.mem_iff]
  holds_size := fun h => h.1.length_eq
  holds_push := by
    rintro q q' l t d r ⟨hl, hnd⟩ ht hpush
    have h' := PriorityQueue.push_perm q t d r
    rw [show q.push t d r = (q', true) from hpush] at h'
    exact ⟨h'.trans (hl.cons t), nodup_cons.mpr ⟨ht, hnd⟩⟩
  holds_push_fail := by
    rintro q q' l t d r ⟨hl, hnd⟩ - hpush
    have h' := PriorityQueue.push_perm q t d r
    rw [show q.push t d r = (q', false) from hpush] at h'
    exact ⟨h'.trans hl, hnd⟩
  holds_promote := fun t now h => ⟨(PriorityQueue.expedite_perm _ t now).trans h.1, h.2⟩
  holds_pop := by
    rintro q q' l t now ⟨hl, hnd⟩ hpop
    have hne : q.heap.arr ≠ [] := fun hnil =>
      Option.some_ne_none _ (Eq.trans (Eq.symm hpop) (PriorityQueue.dequeue_nil q now hnil))
    obtain ⟨t', q'', heq, hperm⟩ := PriorityQueue.dequeue_perm q now hne
    obtain ⟨rfl, rfl⟩ : t' = t ∧ q'' = q' := by
      have := Option.some.inj (heq.symm.trans hpop)
      exact ⟨congrArg Prod.fst this, congrArg Prod.snd this⟩
    have hp : (t' :: q''.heap.arr).Perm l := hperm.trans hl
    refine ⟨hp.mem_iff.mp (by simp), ?_, hnd.erase t'⟩
    simpa using hp.erase t'
  pop_isSome := by
    rintro q l now ⟨hl, -⟩ hne
    obtain ⟨t, q', heq, -⟩ := PriorityQueue.dequeue_perm q now
      (fun hnil => hne (nil_perm.mp (hnil ▸ hl)))
    show (q.dequeue now).isSome
    rw [heq]
    rfl

end ServiceLib.Pool
