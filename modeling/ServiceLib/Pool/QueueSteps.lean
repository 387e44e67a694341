import ServiceLib.Pool.ExactlyOnce
import ServiceLib.Pool.PriorityInvariant
import ServiceLib.Pool.TaskQueueInvariant

namespace ServiceLib.Pool

/-!
# Pool — what the pool does to its wait queue

A pool touches its wait queue in three places only: the insertion at the end of `addTask`, the
promotion by a cancellation watch, and the removal by an executor.  Whatever the operations of
a queue preserve therefore holds of the queue of a pool in every reachable state
(`reachable_queue`), among them the invariants of the two queues.
-/

variable {Q R : Type} [WaitQueue Q R]

/-- The effect of one step of a pool on its queue. -/
inductive QueueStep (s : State Q R) : Q → Prop
  | same : QueueStep s s.queue
  | push (i : TaskId) (c : AddCall R) (hc : s.adds[i]? = some c) (hpc : c.pc = .registering []) :
      QueueStep s (WaitQueue.push s.queue i c.ctx.deadline c.request).1
  | promote (t : TaskId) : QueueStep s (WaitQueue.promote s.queue t s.world.now).1
  | pop (t : TaskId) (q : Q) (hpop : WaitQueue.pop s.queue s.world.now = some (t, q)) :
      QueueStep s q

variable {s s' : State Q R} {a : Action R} {P : R → Prop}

omit [WaitQueue Q R] in
theorem Notified.queue (h : Notified s s') : s'.queue = s.queue := by
  cases h <;> rfl

theorem ExecMove.queueStep {e : Nat} {x : Executor} (h : ExecMove s e x s') :
    QueueStep s s'.queue := by
  cases h with
  | dequeue hpc t q hpop => exact .pop t q hpop
  | _ => exact .same

/-- What `addTask` does to the queue. -/
theorem AddMove.queueStep {i : TaskId} {c : AddCall R} (hc : s.adds[i]? = some c)
    (h : AddMove s i c s') : QueueStep s s'.queue := by
  cases h with
  | insert hpc q hpush | insertFail hpc q hpush =>
    have hq := QueueStep.push i c hc hpc
    rw [hpush] at hq
    exact hq
  | subscribeFired =>
    unfold State.onCancel
    split <;> exact .same
  | notify hpc s₁ hn =>
    show QueueStep s s₁.queue
    rw [hn.queue]
    exact .same
  | _ => exact .same

theorem WatchMove.queueStep {k : Nat} (h : WatchMove s k s') : QueueStep s s'.queue := by
  cases h with
  | dead => exact .same
  | promote t => exact .promote t
  | notify hw s₁ hn =>
    show QueueStep s s₁.queue
    rw [hn.queue]
    exact .same

omit [WaitQueue Q R] in
theorem stopStep_queue (hs : s.stopStep = some s') : s'.queue = s.queue := by
  cases stopStep_effect hs <;> rfl

omit [WaitQueue Q R] in
theorem managerStep_queue {n : Option Int} {hw : Int} {f : Bool}
    (hs : s.managerStep n hw f = some s') : s'.queue = s.queue := by
  cases managerStep_effect hs <;> rfl

/-- Every step of a pool does one of these things to its queue. -/
theorem step_queue (hs : step s a = some s') : QueueStep s s'.queue := by
  cases move_of_step hs with
  | stop s' hs =>
    rw [stopStep_queue hs]
    exact .same
  | manager n hw f s' hs =>
    rw [managerStep_queue hs]
    exact .same
  | executor e x s' hx hm | cancelled e x s' hx hc hm | watch k alive w s' hm => exact hm.queueStep
  | spurious e s' hn =>
    rw [hn.queue]
    exact .same
  | add i c f g w s' hc hm => exact hm.queueStep hc
  | _ => exact .same

/-- Requests only enter a pool through its callers. -/
theorem step_requests (hs : step s a = some s')
    (hcall : ∀ ctx r, a = .callAdd ctx r → P r) (h : ∀ c ∈ s.adds, P c.request) :
    ∀ c ∈ s'.adds, P c.request := by
  rcases step_books hs with ⟨hadds, -⟩ | ⟨ctx, r, ha, hadds, -⟩ | ⟨i, c, pc, hc, -, hadds, -⟩ <;>
    rw [hadds]
  · exact h
  · exact forall_mem_concat h (hcall ctx r ha)
  · exact forall_mem_set h (h c (List.mem_of_getElem? hc))

variable [LawfulWaitQueue Q]

open LawfulWaitQueue List

/-- **Queue invariants.**  What the empty queue has and the operations preserve, the queue of a
    pool has in every reachable state.  A task is pushed only while the queue does not hold it,
    with a request that a caller brought. -/
theorem reachable_queue {I : Q → Prop} (hempty : I WaitQueue.empty)
    (hpush : ∀ q l t d r, I q → Holds q l → t ∉ l → P r → I (WaitQueue.push q t d r).1)
    (hpromote : ∀ q t now, I q → I (WaitQueue.promote q t now).1)
    (hpop : ∀ q q' t now, I q → WaitQueue.pop q now = some (t, q') → I q')
    {ok : State Q R → Action R → Prop} (hok : ∀ s ctx r, ok s (.callAdd ctx r) → P r)
    (h : (system Q).ReachableIf ok s) : I s.queue := by
  suffices hboth : I s.queue ∧ ∀ c ∈ s.adds, P c.request from hboth.1
  refine h.invariant (I := fun s => I s.queue ∧ ∀ c ∈ s.adds, P c.request)
    ⟨hempty, by simp [system, State.init]⟩ (fun {s a s'} hr hi hoka hs => ⟨?_, ?_⟩)
  · suffices hall : ∀ q', QueueStep s q' → I q' from hall _ (step_queue hs)
    intro q' hq'
    cases hq' with
    | same => exact hi.1
    | push i c hc hpc =>
      obtain ⟨l, hl, hbal⟩ := (reachable_taskInv hr).balance
      have hfresh := (reachable_taskInv hr).fresh hc (by rw [hpc]; rfl)
      exact hpush _ l _ _ _ hi.1 hl (not_waiting_of_not_accepted hbal hfresh)
        (hi.2 c (List.mem_of_getElem? hc))
    | promote t => exact hpromote _ _ _ hi.1
    | pop t q hp => exact hpop _ _ _ _ hi.1 hp
  · exact step_requests hs (fun ctx r ha => hok s ctx r (ha ▸ hoka)) hi.2

/-- **The task pool's queue.**  In every reachable state the links, the marks and the deadline heap
    represent one list, of the accepted tasks that no executor has taken yet. -/
theorem taskPool_queue_wellFormed {s : State TaskQueue Bool} (h : (system TaskQueue).Reachable s) :
    ∃ l, s.queue.WellFormed l ∧
      ∀ t, s.accepted.count t = l.count t + s.held.count t + s.completed.count t := by
  have hqueue : ∃ l, s.queue.WellFormed l := by
    refine reachable_queue (I := fun q : TaskQueue => ∃ l, q.WellFormed l) (P := fun _ => True)
      ⟨[], TaskQueue.wellFormed_empty⟩ ?_ ?_ ?_ (fun _ _ _ _ => trivial) h
    · rintro q l t d r ⟨l', hwf⟩ hl ht -
      have htl' : t ∉ l' := by
        intro hmem
        exact ht ((holds_contains hl t).mp ((hwf.linked.inQueue_iff t).mpr hmem))
      exact ⟨_, hwf.push htl' d r⟩
    · rintro q t now ⟨l', hwf⟩
      obtain ⟨l'', h'', -⟩ := hwf.requeueToFront t now
      exact ⟨l'', h''⟩
    · rintro q q' t now ⟨l', hwf⟩ hpop
      obtain ⟨l'', h'', -⟩ := hwf.dequeue hpop
      exact ⟨l'', h''⟩
  obtain ⟨l, hwf⟩ := hqueue
  obtain ⟨l', hl', hbal⟩ := (reachable_taskInv h).balance
  have hperm : l.Perm l' := by
    refine (perm_ext_iff_of_nodup hwf.linked.nodup (holds_nodup hl')).mpr (fun t => ?_)
    rw [← hwf.linked.inQueue_iff t]
    exact holds_contains hl' t
  refine ⟨l, hwf, fun t => ?_⟩
  rw [hperm.count_eq t]
  exact hbal t

/-- A task waits in it. -/
theorem taskPool_queue_wellFormed_waiting :
    ∃ s l, (system TaskQueue).Reachable s ∧ s.queue.WellFormed l ∧ 0 ∈ l := by
  obtain ⟨s, hs, hacc, hheld, hdone⟩ := (system TaskQueue).exists_reachable_of_run
    (servedSchedule.take 24)
    (fun s => s.accepted = [0] ∧ s.held = [] ∧ s.completed = []) (by decide +kernel)
  obtain ⟨l, hwf, hbal⟩ := taskPool_queue_wellFormed hs
  have hcount : 1 = l.count 0 := by simpa [hacc, hheld, hdone] using hbal 0
  exact ⟨s, l, hs, hwf, count_pos_iff.mp (hcount ▸ Nat.one_pos)⟩

/-- A request with an `int` priority whose insertion can allocate. -/
def PriorityRequest.fits (r : PriorityRequest) : Prop :=
  intMin ≤ r.priority ∧ r.deadlineHeapGrows ∧ r.heapGrows

/-- **The priority pool's queue**, as long as insertions can allocate: both heaps and the positions
    are as they should be, for the accepted tasks that no executor has taken yet. -/
theorem priorityPool_queue_wellFormed {s : State PriorityQueue PriorityRequest}
    (h : (system PriorityQueue).ReachableIf
      (fun _ a => ∀ ctx r, a = .callAdd ctx r → r.fits) s) :
    s.queue.WellFormed ∧ ∀ t, s.accepted.count t =
      s.queue.heap.arr.count t + s.held.count t + s.completed.count t := by
  constructor
  · refine reachable_queue (I := PriorityQueue.WellFormed) (P := PriorityRequest.fits)
      PriorityQueue.wellFormed_empty ?_ ?_ ?_ (fun _ ctx r hr => hr ctx r rfl) h
    · rintro q l t d ⟨priority, _, _⟩ hwf ⟨hl, -⟩ ht ⟨hprio, rfl, rfl⟩
      exact hwf.push (fun hmem => ht (hl.mem_iff.mp hmem)) d hprio
    · intro q t now hwf
      exact (hwf.expedite t now).1
    · intro q q' t now hwf hpop
      exact (hwf.dequeue hpop).1
  · intro t
    obtain ⟨l, ⟨hperm, -⟩, hbal⟩ := (reachable_taskInv h).balance
    rw [hperm.count_eq t]
    exact hbal t

/-- A running priority pool in which task 0 waits. -/
def oneWaiting : List (Action PriorityRequest) :=
  [ startUp 1, [.callAdd {} ⟨5, true, true⟩], replicate 5 (.add 0 false false none) ].flatten

/-- The test whether the call that an action makes fits. -/
def Action.fits : Action PriorityRequest → Bool
  | .callAdd _ r => intMin ≤ r.priority && r.deadlineHeapGrows && r.heapGrows
  | _ => true

/-- A second task, with a deadline, waits before the first one. -/
theorem priorityPool_queue_wellFormed_deadline :
    ∃ s, (system PriorityQueue).ReachableIf (fun _ a => ∀ ctx r, a = .callAdd ctx r → r.fits) s ∧
      s.queue.heap.arr = [1, 0] ∧ s.queue.deadlineHeap.arr = [1] ∧ s.queue.WellFormed ∧
      s.accepted.count 1 = s.queue.heap.arr.count 1 + s.held.count 1 + s.completed.count 1 := by
  obtain ⟨s, hs, hheap, hdeadline⟩ := (system PriorityQueue).exists_reachableIf_of_run
    (fun _ a => a.fits = true)
    (oneWaiting ++ [.callAdd { deadline := some 100 } ⟨3, true, true⟩] ++
      replicate 5 (.add 1 false false none))
    (fun s => s.queue.heap.arr = [1, 0] ∧ s.queue.deadlineHeap.arr = [1]) (by decide +kernel)
  have hfits : (system PriorityQueue).ReachableIf
      (fun _ a => ∀ ctx r, a = .callAdd ctx r → r.fits) s := by
    refine hs.mono (fun _ a ha ctx r hcall => ?_)
    subst hcall
    simpa [Action.fits, PriorityRequest.fits, and_assoc] using ha
  obtain ⟨hwf, hbal⟩ := priorityPool_queue_wellFormed hfits
  exact ⟨s, hfits, hheap, hdeadline, hwf, hbal 1⟩

end ServiceLib.Pool
