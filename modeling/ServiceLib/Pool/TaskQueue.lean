import ServiceLib.Lib.IndexedHeap
import ServiceLib.Lib.LinkedList
import ServiceLib.Pool.WaitQueue

namespace ServiceLib.Pool

/-!
# Task pool — the wait queue

The wait queue of `TaskPoolImpl` at the level of its pointers: an intrusive doubly linked
list (`head`, `tail`, and `next`/`prev`/`inQueue` of every task) plus a min-heap of the
deadlines of waiting tasks.  The fields of `PoolTask` are maps indexed by the object, so a
write to `task->next` is a pointwise update.  Every function here runs with `mu_` held.

`Linked q l` is the representation invariant: the pointers of `q` spell the list `l`.  Each
operation has one lemma that says what it does to `l` (`Linked.push`, `Linked.requeue`,
`Linked.promote`, `Linked.dequeue`).
-/

open List Option Function

/-- The queue fields of `TaskPoolImpl` and of its `PoolTask` objects.  The `deadlineIndex`
    of a task is the back-index `deadlineHeap.idx`; `kNotInDeadlineHeap` is `none`. -/
structure TaskQueue where
  next : TaskId → Option TaskId
  prev : TaskId → Option TaskId
  inQueue : TaskId → Bool
  expedited : TaskId → Bool
  deadline : TaskId → Option Time
  head : Option TaskId
  tail : Option TaskId
  deadlineHeap : IndexedHeap TaskId
  count : Nat

namespace TaskQueue

/-- The queue of a freshly constructed pool. -/
def empty : TaskQueue where
  next := fun _ => none
  prev := fun _ => none
  inQueue := fun _ => false
  expedited := fun _ => false
  deadline := fun _ => none
  head := none
  tail := none
  deadlineHeap := IndexedHeap.empty
  count := 0

def setNext (q : TaskQueue) (t : TaskId) (v : Option TaskId) : TaskQueue :=
  { q with next := update q.next t v }

def setPrev (q : TaskQueue) (t : TaskId) (v : Option TaskId) : TaskQueue :=
  { q with prev := update q.prev t v }

/-! ### The deadline heap -/

/-- `deadlineEarlier`; both tasks have a deadline when this is called. -/
def deadlineEarlier (q : TaskQueue) (a b : TaskId) : Bool :=
  decide ((q.deadline a).getD 0 < (q.deadline b).getD 0)

/-- `deadlineHeapPushLocked`, when the array can grow. -/
def deadlineHeapPushLocked (q : TaskQueue) (t : TaskId) : TaskQueue :=
  { q with deadlineHeap := q.deadlineHeap.push q.deadlineEarlier t }

/-- `deadlineHeapRemoveAtLocked`. -/
def deadlineHeapRemoveAtLocked (q : TaskQueue) (i : Nat) : TaskQueue :=
  { q with deadlineHeap := q.deadlineHeap.removeAt q.deadlineEarlier i }

/-- `deadlineHeapRemoveLocked`. -/
def deadlineHeapRemoveLocked (q : TaskQueue) (t : TaskId) : TaskQueue :=
  { q with deadlineHeap := q.deadlineHeap.remove q.deadlineEarlier t }

/-! ### Queue operations -/

/-- The fresh `PoolTask` of an `addTask` call, with its deadline. -/
def newTask (q : TaskQueue) (t : TaskId) (deadline : Option Time) : TaskQueue :=
  { q with
    next := update q.next t none
    prev := update q.prev t none
    inQueue := update q.inQueue t false
    expedited := update q.expedited t false
    deadline := update q.deadline t deadline }

/-- The insertion at the tail that ends `addTask`. -/
def link (q : TaskQueue) (t : TaskId) : TaskQueue :=
  let q := match q.tail with
    | some u => { (q.setNext u (some t)).setPrev t (some u) with tail := some t }
    | none => { q with head := some t, tail := some t }
  { q with inQueue := update q.inQueue t true, count := q.count + 1 }

/-- The part of `addTask` that makes a task visible.  `heapGrows` is whether the deadline
    heap can be extended; if not, `addTask` throws before the task is linked. -/
def push (q : TaskQueue) (t : TaskId) (deadline : Option Time) (heapGrows : Bool) :
    TaskQueue × Bool :=
  match deadline with
  | none => ((q.newTask t none).link t, true)
  | some d =>
    if heapGrows then (((q.newTask t (some d)).deadlineHeapPushLocked t).link t, true)
    else (q.newTask t (some d), false)

/-- The pointer surgery of `requeueToFrontLocked` for a task that is not the head. -/
def moveToFront (q : TaskQueue) (t : TaskId) : TaskQueue :=
  let next := q.next t
  let prev := q.prev t
  let q := match next with
    | some v => q.setPrev v prev
    | none => { q with tail := prev }
  let q := match prev with
    | some u => q.setNext u next
    | none => q
  let q := (q.setNext t q.head).setPrev t none
  let q := match q.head with
    | some h => q.setPrev h (some t)
    | none => q
  { q with head := some t }

/-- Mark a task as promoted and take it out of the deadline heap. -/
def markExpedited (q : TaskQueue) (t : TaskId) : TaskQueue :=
  { q with expedited := update q.expedited t true }.deadlineHeapRemoveLocked t

/-- `requeueToFrontLocked`; the flag reports the first successful promotion. -/
def requeueToFrontLocked (q : TaskQueue) (t : TaskId) : TaskQueue × Bool :=
  if q.inQueue t = false ∨ q.expedited t = true then (q, false)
  else if q.head = some t then (q.markExpedited t, true)
  else ((q.markExpedited t).moveToFront t, true)

/-- The task at the root of the deadline heap with its deadline. -/
def earliest (q : TaskQueue) : Option (TaskId × Time) :=
  q.deadlineHeap.arr.head?.map (fun t => (t, (q.deadline t).getD 0))

/-- `promoteExpiredDeadlinesLocked`: the queue afterwards and the number of promotions. -/
def promoteExpiredDeadlinesLocked (q : TaskQueue) (now : Time) : TaskQueue × Nat :=
  promoteLoop earliest (·.deadlineHeapRemoveAtLocked 0) requeueToFrontLocked now
    q.deadlineHeap.arr.length q 0

/-- The critical section of `requeueToFront`, and how many tasks it promoted. -/
def requeueToFront (q : TaskQueue) (t : TaskId) (now : Time) : TaskQueue × Nat :=
  let r := q.promoteExpiredDeadlinesLocked now
  let r' := r.1.requeueToFrontLocked t
  (r'.1, r.2 + (if r'.2 then 1 else 0))

/-- The queue once `executorLoop` has taken the head `t` off. -/
def removeHead (q : TaskQueue) (t : TaskId) : TaskQueue :=
  let head := q.next t
  let q := { q with head := head }
  let q := match head with
    | some h => q.setPrev h none
    | none => { q with tail := none }
  let q := { q.setNext t none with inQueue := update q.inQueue t false }
  let q := q.deadlineHeapRemoveLocked t
  { q with count := q.count - 1 }

/-- The removal of the head in `executorLoop`. -/
def unlinkHead (q : TaskQueue) : Option (TaskId × TaskQueue) :=
  match q.head with
  | none => none
  | some t => some (t, q.removeHead t)

/-- Promotion of expired deadlines followed by the removal of the head. -/
def dequeue (q : TaskQueue) (now : Time) : Option (TaskId × TaskQueue) :=
  (q.promoteExpiredDeadlinesLocked now).1.unlinkHead

/-! ### The representation invariant -/

/-- The pointers of `q` spell the list `l`. -/
structure Linked (q : TaskQueue) (l : List TaskId) : Prop where
  seg : Seg q.next q.prev none l none
  head_eq : q.head = l.head?
  tail_eq : q.tail = l.getLast?
  nodup : l.Nodup
  inQueue_iff : ∀ t, q.inQueue t ↔ t ∈ l
  count_eq : q.count = l.length

theorem linked_empty : Linked empty [] :=
  ⟨trivial, rfl, rfl, nodup_nil, by simp [empty], rfl⟩

variable {l : List TaskId} {q : TaskQueue} {t : TaskId}

/-- The deadline heap plays no part in the representation of the list. -/
theorem Linked.congr {q' : TaskQueue} (h : Linked q l) (hnext : q'.next = q.next)
    (hprev : q'.prev = q.prev) (hhead : q'.head = q.head) (htail : q'.tail = q.tail)
    (hin : q'.inQueue = q.inQueue) (hcount : q'.count = q.count) : Linked q' l := by
  refine ⟨?_, hhead.trans h.head_eq, htail.trans h.tail_eq, h.nodup, ?_, hcount.trans h.count_eq⟩
  · rw [hnext, hprev]; exact h.seg
  · rw [hin]; exact h.inQueue_iff

/-- A fresh task object is invisible to the list. -/
theorem Linked.newTask (h : Linked q l) (ht : t ∉ l) (d : Option Time) :
    Linked (q.newTask t d) l := by
  refine ⟨?_, h.head_eq, h.tail_eq, h.nodup, ?_, h.count_eq⟩
  · exact (h.seg.set_next_of_not_mem none ht).set_prev_of_not_mem none ht
  · intro u
    by_cases hu : u = t
    · subst hu; simp [TaskQueue.newTask, ht]
    · simpa [TaskQueue.newTask, hu] using h.inQueue_iff u

/-- Linking a task whose pointers are clear appends it. -/
theorem Linked.link (h : Linked q l) (ht : t ∉ l) (hnext : q.next t = none)
    (hprev : q.prev t = none) : Linked (q.link t) (l ++ [t]) := by
  have hin : ∀ u, update q.inQueue t true u ↔ u ∈ l ++ [t] := by
    intro u
    by_cases hu : u = t
    · subst hu; simp
    · simpa [hu] using h.inQueue_iff u
  have hnodup : (l ++ [t]).Nodup := by
    rw [nodup_append]
    refine ⟨h.nodup, by simp, ?_⟩
    intro a ha b hb hab
    rw [mem_singleton] at hb
    exact ht (by rw [← hb, ← hab]; exact ha)
  cases hl : l.getLast? with
  | none =>
    -- The first task: only `head` and `tail` are written.
    obtain rfl : l = [] := by simpa using hl
    have htail : q.tail = none := h.tail_eq
    refine ⟨?_, ?_, ?_, hnodup, ?_, ?_⟩ <;> simp only [TaskQueue.link, htail]
    · exact ⟨hprev, by simp [hnext], trivial⟩
    · simp
    · simp
    · exact hin
    · simp [h.count_eq]
  | some u =>
    obtain ⟨l', rfl⟩ := getLast?_eq_some_iff.mp hl
    have htail : q.tail = some u := h.tail_eq.trans hl
    have hul' : u ∉ l' := by
      intro hmem
      have := h.nodup
      rw [nodup_append] at this
      exact this.2.2 u hmem u (by simp) rfl
    have hut : u ≠ t := fun hut => ht (by simp [hut])
    refine ⟨?_, ?_, ?_, hnodup, ?_, ?_⟩ <;> simp only [TaskQueue.link, htail, setNext, setPrev]
    · -- Redirect the old tail to `t`, then append the one-node segment `t`.
      have hseg := (h.seg.set_next_last (some t) hul').set_prev_of_not_mem (some u) ht
      refine seg_append.mpr ⟨by simpa using hseg, ?_⟩
      refine ⟨by simp, ?_, trivial⟩
      rw [update_of_ne (Ne.symm hut), hnext]; rfl
    · rw [h.head_eq]; cases l' <;> simp
    · simp
    · exact hin
    · simp [h.count_eq]

/-- **Insertion.**  A successful push appends the task at the back; a failed one leaves
    the list as it was. -/
theorem Linked.push (h : Linked q l) (ht : t ∉ l) (d : Option Time) (heapGrows : Bool) :
    Linked (q.push t d heapGrows).1 (if (q.push t d heapGrows).2 then l ++ [t] else l) := by
  have hnew := h.newTask ht d
  cases d with
  | none =>
    exact hnew.link ht (by simp [TaskQueue.newTask]) (by simp [TaskQueue.newTask])
  | some d =>
    cases heapGrows with
    | false => exact hnew
    | true =>
      have hheap : Linked ((q.newTask t (some d)).deadlineHeapPushLocked t) l :=
        hnew.congr rfl rfl rfl rfl rfl rfl
      exact hheap.link ht (by simp [deadlineHeapPushLocked, TaskQueue.newTask])
        (by simp [deadlineHeapPushLocked, TaskQueue.newTask])

/-! ### Promotion and removal -/

/-- The surgery of `moveToFront` as one unlinking and one linking in front. -/
theorem moveToFront_eq (q : TaskQueue) (t : TaskId) :
    q.moveToFront t =
      { q with
        next := update (updateAt q.next (q.prev t) (q.next t)) t q.head
        prev := updateAt (update (updateAt q.prev (q.next t) (q.prev t)) t none)
          q.head (some t)
        head := some t
        tail := if q.next t = none then q.prev t else q.tail } := by
  obtain ⟨next, prev, inQueue, expedited, deadline, head, tail, heap, count⟩ := q
  cases hn : next t <;> cases hp : prev t <;> cases head <;>
    simp [moveToFront, setNext, setPrev, updateAt, hn, hp]

/-- Relinking a task moves it to the front of the list. -/
theorem Linked.moveToFront (h : Linked q l) (ht : t ∈ l) (hhead : q.head ≠ some t) :
    Linked (q.moveToFront t) (t :: l.erase t) := by
  obtain ⟨l₁, l₂, rfl⟩ := append_of_mem ht
  obtain ⟨h₁, hprev, hnext, h₂⟩ := seg_append.mp h.seg
  have hnd := h.nodup
  have htl₁ : t ∉ l₁ := fun hmem =>
    (nodup_append.mp hnd).2.2 t hmem t (by simp) rfl
  have htl₂ : t ∉ l₂ := (nodup_cons.mp (nodup_append.mp hnd).2.1).1
  have herase : (l₁ ++ t :: l₂).erase t = l₁ ++ l₂ := by
    rw [erase_append_right _ htl₁, erase_cons_head]
  -- `t` is not the head, so something precedes it.
  obtain ⟨u, l', rfl⟩ : ∃ u l', l₁ = u :: l' := by
    cases l₁ with
    | nil => exact absurd h.head_eq hhead
    | cons u l' => exact ⟨u, l', rfl⟩
  have hq : q.head = some u := h.head_eq
  simp only [or_none] at hprev hnext
  have hnd' : (u :: l' ++ l₂).Nodup := by
    rw [← herase]; exact hnd.erase t
  have hnot : t ∉ u :: l' ++ l₂ := fun hmem =>
    (mem_append.mp hmem).elim htl₁ htl₂
  have hfront := (h.seg.unlink hnd).link_front none hnot hnd'
  rw [herase, moveToFront_eq]
  refine ⟨?_, rfl, ?_, ?_, ?_, ?_⟩
  · rw [hprev, hnext, hq]
    simpa using hfront
  · cases l₂ with
    | nil => simp only [hnext, hprev]; simp
    | cons v l₂ =>
      simp only [hnext, h.tail_eq, head?_cons, reduceCtorEq, if_false]
      simp [getLast?_cons, getLast?_append]
  · exact nodup_cons.mpr ⟨hnot, hnd'⟩
  · intro w
    have := h.inQueue_iff w
    simp only [mem_append, mem_cons] at this ⊢
    rw [this]
    tauto
  · have := h.count_eq
    simp only [length_append, length_cons] at this ⊢
    omega

/-- The list after `requeueToFrontLocked`: a waiting task that was not promoted before
    moves to the front. -/
def requeued (q : TaskQueue) (l : List TaskId) (t : TaskId) : List TaskId :=
  if q.inQueue t = false ∨ q.expedited t = true then l else t :: l.erase t

section

variable (h : Linked q l)
include h

/-- **Promotion.**  `requeueToFrontLocked` moves the task to the front, once. -/
theorem Linked.requeue (t : TaskId) : Linked (q.requeueToFrontLocked t).1 (q.requeued l t) := by
  unfold TaskQueue.requeueToFrontLocked requeued
  split
  · exact h
  next hcond =>
    have hmark : Linked (q.markExpedited t) l := h.congr rfl rfl rfl rfl rfl rfl
    have ht : t ∈ l := (h.inQueue_iff t).mp (by
      cases hin : q.inQueue t with
      | false => exact absurd (.inl hin) hcond
      | true => rfl)
    split
    next hhead =>
      have hl : t :: l.erase t = l := by
        rw [h.head_eq] at hhead
        obtain ⟨l', rfl⟩ := head?_eq_some_iff.mp hhead
        rw [erase_cons_head]
      rw [hl]
      exact hmark
    next hhead =>
      exact hmark.moveToFront ht hhead

theorem Linked.requeued_perm (t : TaskId) : (q.requeued l t).Perm l := by
  unfold requeued
  split
  · exact Perm.refl l
  next hcond =>
    have hin : q.inQueue t := by
      cases hin : q.inQueue t with
      | false => exact absurd (.inl hin) hcond
      | true => rfl
    exact (perm_cons_erase ((h.inQueue_iff t).mp hin)).symm

/-- Promotion only reorders the waiting tasks. -/
theorem Linked.requeueToFrontLocked (t : TaskId) :
    ∃ l', Linked (q.requeueToFrontLocked t).1 l' ∧ l'.Perm l :=
  ⟨_, h.requeue t, h.requeued_perm t⟩

/-- **Deadline promotion** only reorders the waiting tasks. -/
theorem Linked.promote (now : Time) :
    ∃ l', Linked (q.promoteExpiredDeadlinesLocked now).1 l' ∧ l'.Perm l := by
  refine promoteLoop_invariant (I := fun q => ∃ l', Linked q l' ∧ l'.Perm l) ?_ ?_ now _ _
    ⟨l, h, Perm.refl l⟩
  · rintro q ⟨l', h', hl'⟩
    exact ⟨l', h'.congr rfl rfl rfl rfl rfl rfl, hl'⟩
  · rintro q t ⟨l', h', hl'⟩
    obtain ⟨l'', h'', hl''⟩ := h'.requeueToFrontLocked t
    exact ⟨l'', h'', hl''.trans hl'⟩

theorem Linked.requeueToFront (t : TaskId) (now : Time) :
    ∃ l', Linked (q.requeueToFront t now).1 l' ∧ l'.Perm l := by
  obtain ⟨l₁, h₁, hl₁⟩ := h.promote now
  obtain ⟨l₂, h₂, hl₂⟩ := h₁.requeueToFrontLocked t
  exact ⟨l₂, h₂, hl₂.trans hl₁⟩

end

/-- **Removal** takes the first task of the list. -/
theorem Linked.unlinkHead (h : Linked q (t :: l)) :
    q.unlinkHead = some (t, q.removeHead t) ∧ Linked (q.removeHead t) l := by
  have hhead : q.head = some t := h.head_eq
  obtain ⟨htl, hnd⟩ := nodup_cons.mp h.nodup
  obtain ⟨-, hnext, -⟩ := h.seg
  simp only [or_none] at hnext
  have hseg : Seg q.next (updateAt q.prev l.head? none) none l none := by
    have hseg' : Seg q.next q.prev none ([] ++ t :: l) none := h.seg
    simpa [updateAt] using hseg'.unlink h.nodup
  have hin : ∀ u, update q.inQueue t false u ↔ u ∈ l := by
    intro u
    by_cases hu : u = t
    · subst hu; simp [htl]
    · simpa [hu] using h.inQueue_iff u
  have hcount : q.count - 1 = l.length := by
    have := h.count_eq
    simp only [length_cons] at this
    omega
  refine ⟨by simp only [TaskQueue.unlinkHead, hhead], ?_⟩
  cases l with
  | nil =>
    simp only [head?_nil] at hnext
    simp only [removeHead, hnext]
    exact ⟨trivial, rfl, rfl, hnd, hin, hcount⟩
  | cons v l =>
    simp only [head?_cons] at hnext
    simp only [removeHead, hnext]
    refine ⟨hseg.set_next_of_not_mem none htl, rfl, ?_, hnd, hin, hcount⟩
    exact h.tail_eq.trans (by simp [getLast?_cons])

/-- The dequeue step of an executor fails on the empty queue and only there; otherwise it
    removes exactly one waiting task. -/
theorem Linked.dequeue (h : Linked q l) (now : Time) (hl : l ≠ []) :
    ∃ t q' l', q.dequeue now = some (t, q') ∧ Linked q' l' ∧ (t :: l').Perm l := by
  obtain ⟨l₁, h₁, hl₁⟩ := h.promote now
  cases l₁ with
  | nil => exact absurd (nil_perm.mp hl₁) hl
  | cons t l' =>
    obtain ⟨hq', h'⟩ := h₁.unlinkHead
    exact ⟨t, _, l', hq', h', hl₁⟩

theorem Linked.dequeue_nil (h : Linked q []) (now : Time) : q.dequeue now = none := by
  obtain ⟨l₁, h₁, hl₁⟩ := h.promote now
  obtain rfl := perm_nil.mp hl₁
  have hhead : (q.promoteExpiredDeadlinesLocked now).1.head = none := h₁.head_eq
  simp only [TaskQueue.dequeue, TaskQueue.unlinkHead, hhead]

end TaskQueue

/-! ### The linked list as a wait queue -/

/-- The task pool's queue.  An `addTask` call brings only its context; the `Bool` says
    whether the deadline heap can grow. -/
instance : WaitQueue TaskQueue Bool where
  empty := TaskQueue.empty
  push := TaskQueue.push
  promote := TaskQueue.requeueToFront
  contains := TaskQueue.inQueue
  size := TaskQueue.count
  pop := TaskQueue.dequeue

instance : LawfulWaitQueue TaskQueue where
  Holds q l := ∃ l', q.Linked l' ∧ l'.Perm l
  holds_empty := ⟨[], TaskQueue.linked_empty, List.Perm.refl _⟩
  holds_nodup := fun ⟨_, h, hl⟩ => hl.nodup_iff.mp h.nodup
  holds_perm := fun ⟨l', h, hl⟩ hp => ⟨l', h, hl.trans hp⟩
  holds_contains := fun ⟨_, h, hl⟩ t => (h.inQueue_iff t).trans hl.mem_iff
  holds_size := fun ⟨_, h, hl⟩ => h.count_eq.trans hl.length_eq
  holds_push := by
    rintro q q' l t d r ⟨l', h, hl⟩ ht hpush
    have h' := h.push (fun hmem => ht (hl.mem_iff.mp hmem)) d r
    rw [show q.push t d r = (q', true) from hpush] at h'
    exact ⟨_, h', (perm_append_singleton t l').trans (hl.cons t)⟩
  holds_push_fail := by
    rintro q q' l t d r ⟨l', h, hl⟩ ht hpush
    have h' := h.push (fun hmem => ht (hl.mem_iff.mp hmem)) d r
    rw [show q.push t d r = (q', false) from hpush] at h'
    exact ⟨_, h', hl⟩
  holds_promote := by
    rintro q l t now ⟨l', h, hl⟩
    obtain ⟨l'', h'', hl''⟩ := h.requeueToFront t now
    exact ⟨l'', h'', hl''.trans hl⟩
  holds_pop := by
    rintro q q' l t now ⟨l', h, hl⟩ hpop
    have hne : l' ≠ [] := by
      rintro rfl
      exact some_ne_none _ (Eq.trans (Eq.symm hpop) (h.dequeue_nil now))
    obtain ⟨t', q'', l'', heq, h'', hl''⟩ := h.dequeue now hne
    obtain ⟨rfl, rfl⟩ : t' = t ∧ q'' = q' := by
      rw [show q.dequeue now = some (t, q') from hpop] at heq
      exact ⟨(congrArg Prod.fst (some.inj heq)).symm,
        (congrArg Prod.snd (some.inj heq)).symm⟩
    have hp : (t' :: l'').Perm l := hl''.trans hl
    refine ⟨hp.mem_iff.mp (by simp), l'', h'', ?_⟩
    simpa using hp.erase t'
  pop_isSome := by
    rintro q l now ⟨l', h, hl⟩ hne
    have hne' : l' ≠ [] := by
      rintro rfl
      exact hne (nil_perm.mp hl)
    obtain ⟨t, q', -, heq, -, -⟩ := h.dequeue now hne'
    show (q.dequeue now).isSome
    rw [heq]
    rfl

end ServiceLib.Pool
