import ServiceLib.Pool.QueueSteps

namespace ServiceLib.Pool

/-!
# Priority task pool — a rejected task leaves no trace

`addTask` of the priority pool may throw after it has begun to insert its task: the deadline heap
or the priority heap cannot grow.  `heapPush` writes the position of the task before it grows the
array, and nothing takes that back; a cancellation of the task may already have scheduled an
`expedite`, which then sifts from that position and may read the cell after the last one
(`addTask_failure_dangles`).  `addTask_failure_unchanged` says what holds otherwise.
-/

open IndexedHeap Option Function

namespace PriorityQueue

variable {stray : TaskId → Prop}

/-- Both heaps know the positions of their members, and of nothing else but strays. -/
structure Positioned (stray : TaskId → Prop) (q : PriorityQueue) : Prop where
  heap : q.heap.IndexedBut stray
  timers : Timers q

/-- Whether every cell that `expediteLocked` reads is in its array. -/
def expediteInBounds (q : PriorityQueue) (t : TaskId) : Bool :=
  match q.heap.idx t with
  | none => true
  | some i =>
    q.expedited t ||
      (q.deadlineHeap.idx t).all (· < q.deadlineHeap.arr.length) &&
        siftUpInBounds { q with priority := update q.priority t intMin }.comesBefore i
          q.heap i

/-! ### The operations -/

variable {r : PriorityRequest} {q q' : PriorityQueue} {t : TaskId} {d : Option Time}

/-- An insertion that succeeds pushes the task. -/
theorem push_heap (h : q.push t d r = (q', true)) : ∃ before, q'.heap = q.heap.push before t := by
  obtain ⟨priority, deadlineHeapGrows, heapGrows⟩ := r
  cases d <;> cases deadlineHeapGrows <;> cases heapGrows <;> cases h <;> exact ⟨_, rfl⟩

/-- One that fails changes at most the position of its task, and takes back what it did to the
    deadline heap. -/
theorem push_fail (h : q.push t d r = (q', false)) :
    (q'.heap = q.heap ∨
        r.heapGrows = false ∧ q'.heap =
          ⟨q.heap.arr, update q.heap.idx t (some q.heap.arr.length)⟩) ∧
      (q'.deadlineHeap = q.deadlineHeap ∨
        q'.deadlineHeap = q.deadlineHeap.remove (q.newTask t r.priority d).deadlineEarlier t ∨
        d.isSome ∧ r.heapGrows = false ∧ q'.deadlineHeap =
          (q.deadlineHeap.push (q.newTask t r.priority d).deadlineEarlier t).remove
            (q.newTask t r.priority d).deadlineEarlier t) := by
  obtain ⟨priority, deadlineHeapGrows, heapGrows⟩ := r
  cases d with
  | none =>
    cases heapGrows with
    | true => cases h
    | false =>
      cases h
      exact ⟨.inr ⟨rfl, rfl⟩, .inr (.inl rfl)⟩
  | some d =>
    cases deadlineHeapGrows with
    | false =>
      cases h
      exact ⟨.inl rfl, .inl rfl⟩
    | true =>
      cases heapGrows with
      | true => cases h
      | false =>
        cases h
        exact ⟨.inr ⟨rfl, rfl⟩, .inr (.inr ⟨rfl, rfl, rfl⟩)⟩

section

variable (h : Positioned stray q)
include h

/-- A failed insertion of a stray: the deadline heap holds the same tasks, in the same cells if the
    task has no deadline or the priority heap can grow. -/
theorem Positioned.deadlineHeap_fail (ht : t ∉ q.heap.arr) (hpush : q.push t d r = (q', false)) :
    q'.deadlineHeap.arr.Perm q.deadlineHeap.arr ∧
      (d = none ∨ r.heapGrows → q'.deadlineHeap = q.deadlineHeap) := by
  have hx := h.timers.deadlines.indexed
  have hout := h.timers.not_mem ht
  rcases (push_fail hpush).2 with heq | heq | ⟨hd, hr, heq⟩
  · exact ⟨by rw [heq], fun _ => heq⟩
  · rw [remove_of_not_mem _ hx hout] at heq
    exact ⟨by rw [heq], fun _ => heq⟩
  · refine ⟨by rw [heq]; exact push_remove_perm _ hx hout, fun hor => ?_⟩
    rcases hor with rfl | hr'
    · cases hd
    · exact absurd (hr.symm.trans hr') Bool.false_ne_true

theorem Positioned.push {stray' : TaskId → Prop} (ht : t ∉ q.heap.arr)
    (hs : ∀ u, stray u → u ≠ t → stray' u) (hpush : q.push t d r = (q', true)) :
    Positioned stray' q' := by
  have htimers := h.timers.push ht d r
  obtain ⟨before, heq⟩ := push_heap hpush
  rw [hpush] at htimers
  exact ⟨heq ▸ h.heap.push before ht hs, htimers⟩

/-- An insertion that fails may leave its task astray. -/
theorem Positioned.push_fail (ht : t ∉ q.heap.arr) (hs : stray t)
    (hpush : q.push t d r = (q', false)) : Positioned stray q' := by
  have htimers := h.timers.push ht d r
  rw [hpush] at htimers
  refine ⟨?_, htimers⟩
  rcases (PriorityQueue.push_fail hpush).1 with heq | ⟨-, heq⟩
  · rw [heq]
    exact h.heap
  · rw [heq]
    exact h.heap.write_stray hs ht _

/-- A waiting task claims a position. -/
theorem Positioned.idx_ne_none (ht : t ∈ q.heap.arr) : q.heap.idx t ≠ none := by
  obtain ⟨i, hi⟩ := List.mem_iff_getElem?.mp ht
  rw [h.heap.knows hi]
  exact some_ne_none i

end

theorem IndexedBut_expediteLocked (h : q.heap.IndexedBut stray) (t : TaskId) :
    (q.expediteLocked t).1.heap.IndexedBut stray := by
  rcases expediteLocked_cases q t with ⟨heq, -⟩ | ⟨i, hi, hexp⟩
  · rw [heq]
    exact h
  · rw [expediteLocked_eq hi hexp]
    exact h.siftUp _ i

section

variable (h : Positioned stray q)
include h

theorem Positioned.promote (now : Time) :
    Positioned stray (q.promoteExpiredDeadlinesLocked now).1 := by
  refine promoteLoop_induction (I := Positioned stray) now ?_ _ _ h
  intro q t d hroot _ hq
  have hbut := hq.timers.removeEarliest (head?_of_earliest hroot).1
  exact ⟨IndexedBut_expediteLocked (q := q.deadlineHeapRemoveAtLocked 0) hq.heap t,
    hbut.expedite hq.idx_ne_none⟩

theorem Positioned.expedite (t : TaskId) (now : Time) : Positioned stray (q.expedite t now).1 := by
  have hend := h.promote now
  exact ⟨IndexedBut_expediteLocked hend.heap t,
    TimersBut.expedite (hend.timers.holds.but t) hend.idx_ne_none⟩

theorem Positioned.dequeue {now : Time} (hpop : q.dequeue now = some (t, q')) :
    Positioned stray q' := by
  have hend := h.promote now
  obtain ⟨⟨t', q₁⟩, hheapPop, heq⟩ := map_eq_some_iff.mp hpop
  cases heq
  refine ⟨?_, hend.timers.heapPop hend.heap.nodup hheapPop⟩
  obtain ⟨last, htop, hlast, rfl⟩ := heapPop_eq hheapPop
  exact hend.heap.popTop _ htop hlast

/-! ### A task that is not there -/

omit h in
/-- Promotion leaves the position alone that such a task claims. -/
theorem promote_idx (ht : t ∉ q.heap.arr) (now : Time) :
    (q.promoteExpiredDeadlinesLocked now).1.heap.idx t = q.heap.idx t := by
  suffices h : (q.promoteExpiredDeadlinesLocked now).1.heap.arr.Perm q.heap.arr ∧
      (q.promoteExpiredDeadlinesLocked now).1.heap.idx t = q.heap.idx t from h.2
  refine promoteLoop_invariant (I := fun q' : PriorityQueue =>
    q'.heap.arr.Perm q.heap.arr ∧ q'.heap.idx t = q.heap.idx t) ?_ ?_ now _ _ ⟨.refl _, rfl⟩
  · exact fun _ h => h
  · intro q' u ⟨hperm, hidx⟩
    refine ⟨(expediteLocked_perm q' u).trans hperm, ?_⟩
    rcases expediteLocked_cases q' u with ⟨heq, -⟩ | ⟨i, hi, hexp⟩
    · rw [heq]
      exact hidx
    · rw [expediteLocked_eq hi hexp]
      exact (siftUp_idx (fun hmem => ht (hperm.mem_iff.mp hmem)) _ i).trans hidx

/-- `expedite` of a task that does not wait and claims no position but perhaps the first one reads
    no cell outside the arrays, and promotes what is due and nothing else. -/
theorem Positioned.expedite_absent (ht : t ∉ q.heap.arr) (now : Time)
    (hidx : q.heap.idx t = none ∨ q.heap.idx t = some 0) :
    (q.promoteExpiredDeadlinesLocked now).1.expediteInBounds t ∧
      (q.expedite t now).1.heap = (q.promoteExpiredDeadlinesLocked now).1.heap ∧
      (q.expedite t now).1.deadlineHeap = (q.promoteExpiredDeadlinesLocked now).1.deadlineHeap := by
  have hend := h.promote now
  have habsent : t ∉ (q.promoteExpiredDeadlinesLocked now).1.heap.arr := fun hmem =>
    ht ((promote_perm q now).mem_iff.mp hmem)
  have hx := hend.timers.deadlines.indexed
  have hout := hend.timers.not_mem habsent
  rw [← promote_idx ht now] at hidx
  unfold PriorityQueue.expedite expediteInBounds
  rcases expediteLocked_cases (q.promoteExpiredDeadlinesLocked now).1 t with
    ⟨heq, hcond⟩ | ⟨i, hi, hexp⟩
  · refine ⟨?_, by rw [heq], by rw [heq]⟩
    rcases hcond with hnone | hexp
    · rw [hnone]
    · cases (q.promoteExpiredDeadlinesLocked now).1.heap.idx t <;> simp [hexp]
  · -- The task claims the first position: sifting from there does nothing.
    obtain rfl : i = 0 := by
      rcases hidx with hnone | hzero
      · cases hnone.symm.trans hi
      · exact some.inj (hi.symm.trans hzero)
    rw [expediteLocked_eq hi hexp, hi]
    refine ⟨?_, rfl, remove_of_not_mem _ hx hout⟩
    simp [hx.idx_eq_none.mpr hout, siftUpInBounds]

end

/-- While nothing is due, nothing is promoted. -/
theorem promote_not_due (h : Timers q) {now : Time}
    (hdue : ∀ t ∈ q.heap.arr, ∀ d, q.deadline t = some d → now < d) :
    (q.promoteExpiredDeadlinesLocked now).1 = q := by
  rw [promoteExpiredDeadlinesLocked]
  cases hlen : q.deadlineHeap.arr.length with
  | zero => rfl
  | succ fuel =>
    rw [promoteLoop]
    split
    · rfl
    next t d hroot =>
      have hahead : ¬ d ≤ now := by
        obtain ⟨hhead, rfl⟩ := head?_of_earliest hroot
        obtain ⟨hmem, -, hsome⟩ := (h.members t).mp (List.mem_of_mem_head? hhead)
        obtain ⟨d, hd⟩ := isSome_iff_exists.mp hsome
        rw [deadlineKey, hd, getD_some]
        exact Int.not_le.mpr (hdue t hmem d hd)
      rw [if_neg hahead]

end PriorityQueue

/-! ### Runs -/

/-- An `addTask` call that failed. -/
def AddPc.rejected : AddPc → Bool
  | .unwinding | .threw _ => true
  | _ => false

variable {s s' : State PriorityQueue PriorityRequest} {i : TaskId} {c : AddCall PriorityRequest}

/-- A task that was not accepted does not wait. -/
theorem not_mem_of_not_accepted (h : (system PriorityQueue).Reachable s) (hi : i ∉ s.accepted) :
    i ∉ s.queue.heap.arr := by
  obtain ⟨l, hl, hbal⟩ := (reachable_taskInv h).balance
  exact fun hmem => not_waiting_of_not_accepted hbal hi (hl.1.mem_iff.mp hmem)

section

variable (h : s.queue.Positioned (· ∉ s.accepted))
include h

/-- A step of `addTask`: only tasks that were not accepted are astray. -/
theorem AddMove.positioned (hr : (system PriorityQueue).Reachable s) (hc : s.adds[i]? = some c)
    (hm : AddMove s i c s') : s'.queue.Positioned (· ∉ s'.accepted) := by
  have hfresh : c.pc = .registering [] → i ∉ s.accepted :=
    fun hpc => (reachable_taskInv hr).fresh hc (by rw [hpc]; rfl)
  cases hm with
  | insert hpc q hpush =>
    have hnew := hfresh hpc
    exact h.push (not_mem_of_not_accepted hr hnew) (fun u hu hne => by simp [hu, hne]) hpush
  | insertFail hpc q hpush =>
    have hnew := hfresh hpc
    exact h.push_fail (not_mem_of_not_accepted hr hnew) hnew hpush
  | subscribeFired =>
    unfold State.onCancel
    split <;> exact h
  | notify _ s₁ hn =>
    show s₁.queue.Positioned (· ∉ s₁.accepted)
    rw [hn.queue, hn.sameCalls.accepted]
    exact h
  | _ => exact h

theorem ExecMove.positioned {e : Nat} {x : Executor} (hm : ExecMove s e x s') :
    s'.queue.Positioned (· ∉ s'.accepted) := by
  cases hm with
  | dequeue hpc t q hpop => exact h.dequeue hpop
  | _ => exact h

theorem WatchMove.positioned {k : Nat} (hm : WatchMove s k s') :
    s'.queue.Positioned (· ∉ s'.accepted) := by
  cases hm with
  | dead => exact h
  | promote t => exact h.expedite t s.world.now
  | notify _ s₁ hn =>
    show s₁.queue.Positioned (· ∉ s₁.accepted)
    rw [hn.queue, hn.sameCalls.accepted]
    exact h

end

/-- **Run lemma.**  Only a task that was not accepted can claim a wrong position. -/
theorem positioned_of_reachable (h : (system PriorityQueue).Reachable s) :
    s.queue.Positioned (· ∉ s.accepted) := by
  refine h.invariant (I := fun s => s.queue.Positioned (· ∉ s.accepted)) ?_ ?_
  · have hempty := (valid_empty (ι := TaskId) (fun _ => 0)).indexed
    exact ⟨⟨hempty.knows, fun hi => (hempty.claims hi).imp_right False.elim⟩,
      PriorityQueue.timers_empty⟩
  · intro s a s' hr hq _ hs
    cases move_of_step hs with
    | stop s' hs =>
      rw [stopStep_queue hs, (stopStep_sameCalls hs).accepted]
      exact hq
    | manager n hw f s' hs =>
      rw [managerStep_queue hs, (managerStep_sameCalls hs).accepted]
      exact hq
    | executor e x s' hx hm | cancelled e x s' hx hc hm => exact hm.positioned hq
    | watch k alive w s' hm => exact hm.positioned hq
    | spurious e s' hn =>
      rw [hn.queue, hn.sameCalls.accepted]
      exact hq
    | add i c f g w s' hc hm => exact hm.positioned hq hr hc
    | _ => exact hq

/-! ### Calls that fail -/

/-- What a call that fails leaves as it was: the waiting tasks and their positions.  If the priority
    heap could not grow, the task of the call keeps the position that it would have had, and equal
    deadlines may have changed places. -/
structure Unchanged (i : TaskId) (c : AddCall PriorityRequest) (q q' : PriorityQueue) : Prop where
  arr : q'.heap.arr = q.heap.arr
  idx : ∀ t, t ≠ i → q'.heap.idx t = q.heap.idx t
  deadlines : q'.deadlineHeap.arr.Perm q.deadlineHeap.arr
  own : q'.heap.idx i = q.heap.idx i ∨
    c.request.heapGrows = false ∧ q'.heap.idx i = some q.heap.arr.length
  untimed : c.ctx.deadline = none ∨ c.request.heapGrows → q'.deadlineHeap = q.deadlineHeap

theorem Unchanged.of_eq {q q' : PriorityQueue} (h : q'.heap = q.heap)
    (hd : q'.deadlineHeap = q.deadlineHeap) : Unchanged i c q q' where
  arr := by rw [h]
  idx t _ := by rw [h]
  deadlines := by rw [hd]
  own := .inl (by rw [h])
  untimed _ := hd

/-- A step of an `addTask` that does not insert its task. -/
theorem AddMove.unchanged (hr : (system PriorityQueue).Reachable s) (hc : s.adds[i]? = some c)
    (hm : AddMove s i c s') (hpc : ∀ c', s'.adds[i]? = some c' → c'.pc ≠ .notifying) :
    Unchanged i c s.queue s'.queue := by
  cases hm with
  | insert =>
    exact absurd rfl (hpc { c with pc := .notifying } (getElem?_set_some hc _))
  | insertFail hregistering q hpush =>
    have hnew := (reachable_taskInv hr).fresh hc (by rw [hregistering]; rfl)
    obtain ⟨hperm, hsame⟩ := (positioned_of_reachable hr).deadlineHeap_fail
      (not_mem_of_not_accepted hr hnew) hpush
    rcases (PriorityQueue.push_fail hpush).1 with heq | ⟨hgrows, heq⟩
    · exact ⟨by rw [heq], fun t _ => by rw [heq], hperm, .inl (by rw [heq]), hsame⟩
    · refine ⟨by rw [heq], fun t ht => ?_, hperm, .inr ⟨hgrows, ?_⟩, hsame⟩
      · rw [heq]
        exact update_of_ne ht _ _
      · rw [heq]
        exact update_self _ _ _
  | subscribeFired =>
    unfold State.onCancel
    split <;> exact .of_eq rfl rfl
  | notify _ s₁ hn =>
    show Unchanged i c s.queue s₁.queue
    rw [hn.queue]
    exact .of_eq rfl rfl
  | _ => exact .of_eq rfl rfl

/-- **A failed `addTask` leaves no trace.**  No step of a call but the insertion changes the waiting
    tasks or their positions; tasks that were accepted claim positions in the arrays; and a watch of
    a task whose call failed, unless it failed to grow a priority heap that was not empty, reads
    no cell outside the arrays and promotes at most the waiting tasks whose deadline has
    passed. -/
theorem addTask_failure_unchanged {s : State PriorityQueue PriorityRequest}
    (h : (system PriorityQueue).Reachable s) :
    (∀ i c fails spawnFails wake s', s.adds[i]? = some c →
      s.addStep i fails spawnFails wake = some s' →
      (∀ c', s'.adds[i]? = some c' → c'.pc ≠ .notifying) → Unchanged i c s.queue s'.queue) ∧
    (∀ t i, (t ∈ s.accepted → s.queue.heap.idx t = some i → i < s.queue.heap.arr.length) ∧
      (s.queue.deadlineHeap.idx t = some i → i < s.queue.deadlineHeap.arr.length)) ∧
    ∀ t c, s.adds[t]? = some c → c.pc.rejected = true →
      t ∉ s.queue.heap.arr ∧ s.queue.deadlineHeap.idx t = none ∧
      (s.queue.heap.idx t = none ∨ s.queue.heap.idx t = some 0 →
        (s.queue.promoteExpiredDeadlinesLocked s.world.now).1.expediteInBounds t = true ∧
        ∀ k alive wake s', s.watches[k]? = some (.spawned t) →
          s.watchStep k alive wake = some s' →
          (s'.queue = s.queue ∨
            s'.queue.heap = (s.queue.promoteExpiredDeadlinesLocked s.world.now).1.heap ∧
            s'.queue.deadlineHeap =
              (s.queue.promoteExpiredDeadlinesLocked s.world.now).1.deadlineHeap) ∧
          ((∀ u ∈ s.queue.heap.arr, ∀ d, s.queue.deadline u = some d → s.world.now < d) →
            s'.queue.heap = s.queue.heap ∧ s'.queue.deadlineHeap = s.queue.deadlineHeap)) := by
  have hq := positioned_of_reachable h
  refine ⟨fun i c f g w s' hc hs hpc => ?_, fun t i => ⟨fun ht hi => ?_, fun hi => ?_⟩,
    fun t c hc hpc => ?_⟩
  · obtain ⟨c', hc', hm⟩ := addMove_of_addStep hs
    cases hc.symm.trans hc'
    exact hm.unchanged h hc hpc
  · exact lt_of_getElem? ((hq.heap.claims hi).resolve_right (not_not.mpr ht))
  · exact lt_of_getElem? (hq.timers.deadlines.indexed.get hi)
  · have hfresh := (reachable_taskInv h).fresh hc (by
      cases hp : c.pc <;> rw [hp] at hpc <;> first | rfl | cases hpc)
    have habsent := not_mem_of_not_accepted h hfresh
    refine ⟨habsent, hq.timers.deadlines.indexed.idx_eq_none.mpr (hq.timers.not_mem habsent), ?_⟩
    intro hidx
    obtain ⟨hbounds, hheap, hdeadline⟩ := hq.expedite_absent habsent s.world.now hidx
    refine ⟨hbounds, fun k alive wake s' hw hs => ?_⟩
    have hqueue : s'.queue = s.queue ∨ s'.queue = (s.queue.expedite t s.world.now).1 := by
      simp only [State.watchStep, hw] at hs
      split at hs
      · split at hs <;> cases hs
        exact .inr rfl
      · split at hs <;> cases hs
        exact .inl rfl
    refine ⟨hqueue.imp_right fun heq => ?_, fun hdue => ?_⟩
    · rw [heq]
      exact ⟨hheap, hdeadline⟩
    · rcases hqueue with heq | heq
      · rw [heq]
        exact ⟨rfl, rfl⟩
      · rw [heq, hheap, hdeadline, PriorityQueue.promote_not_due hq.timers hdue]
        exact ⟨rfl, rfl⟩

/-! ### The two ways to fail -/

/-- While task 0 waits, an `addTask` with a deadline and stop token 1; the token fires while the
    call holds the lock, its callback starts a watch, and then the insertion fails. -/
def cancelledInsertion (r : PriorityRequest) : List (Action PriorityRequest) :=
  [ oneWaiting, [.callAdd { stopToken := some 1, deadline := some 100 } r],
    List.replicate 4 (.add 1 false false none),
    [.fire 1, .callback 0 false, .add 1 false false none] ].flatten

/-- Task 0 waits, the call of task 1 has failed, nobody holds the lock, and the watch of task 1 is
    about to run. -/
def State.rejectedWatched (s : State PriorityQueue PriorityRequest) : Prop :=
  s.queue.heap.arr = [0] ∧ s.adds[1]?.map AddCall.pc = some .unwinding ∧
    s.watches[0]? = some (.spawned 1) ∧ (s.watchStep 0 true none).isSome

instance (s : State PriorityQueue PriorityRequest) : Decidable s.rejectedWatched :=
  inferInstanceAs (Decidable (_ ∧ _ ∧ _ ∧ _))

/-- The deadline heap could not grow: the watch that comes late finds nothing to do. -/
theorem addTask_failure_unchanged_deadline :
    ∃ s, (system PriorityQueue).Reachable s ∧ s.rejectedWatched ∧
      (s.queue.promoteExpiredDeadlinesLocked s.world.now).1.expediteInBounds 1 = true ∧
      ∀ s', s.watchStep 0 true none = some s' →
        (∀ u ∈ s.queue.heap.arr, ∀ d, s.queue.deadline u = some d → s.world.now < d) →
        s'.queue.heap = s.queue.heap ∧ s'.queue.deadlineHeap = s.queue.deadlineHeap := by
  obtain ⟨s, hs, hwatched, hidx⟩ := (system PriorityQueue).exists_reachable_of_run
    (cancelledInsertion ⟨5, false, true⟩)
    (fun s => s.rejectedWatched ∧ s.queue.heap.idx 1 = none) (by decide +kernel)
  obtain ⟨c, hc, hpc⟩ := map_eq_some_iff.mp hwatched.2.1
  have hrejected : c.pc.rejected = true := by rw [hpc]; rfl
  obtain ⟨-, -, hlate⟩ := (addTask_failure_unchanged hs).2.2 1 c hc hrejected
  obtain ⟨hbounds, hwatch⟩ := hlate (.inl hidx)
  exact ⟨s, hs, hwatched, hbounds,
    fun s' hstep => (hwatch 0 true none s' hwatched.2.2.1 hstep).2⟩

/-- **The position that is left behind.**  When the priority heap cannot grow, the call fails with
    the position of its task still written: the late watch takes the task for a waiting one and
    reads the cell after the last one. -/
theorem addTask_failure_dangles :
    ∃ s, (system PriorityQueue).Reachable s ∧ s.rejectedWatched ∧
      s.queue.heap.idx 1 = some 1 ∧
      (s.queue.promoteExpiredDeadlinesLocked s.world.now).1.expediteInBounds 1 = false := by
  obtain ⟨s, hs, hp⟩ := (system PriorityQueue).exists_reachable_of_run
    (cancelledInsertion ⟨5, true, false⟩)
    (fun s => s.rejectedWatched ∧ s.queue.heap.idx 1 = some 1 ∧
      (s.queue.promoteExpiredDeadlinesLocked s.world.now).1.expediteInBounds 1 = false)
    (by decide +kernel)
  exact ⟨s, hs, hp⟩

end ServiceLib.Pool
