import ServiceLib.Pool.Staffing
import ServiceLib.Pool.TaskQueue

namespace ServiceLib.Pool

/-!
# Pool — accepted tasks are executed exactly once

The contract of a pool towards its callers, for every interleaving:

* a task whose `addTask` returned waits, is in the hands of one executor, or was executed
  exactly once (`TaskInv.placed`);
* a task whose `addTask` threw is never executed (`TaskInv.not_executed`);
* once the pool has left the running state nothing is accepted (`steps_accepted`);
* when a `stop` has returned, every accepted task has finished (`finished_of_stopped`), and so has
  every executor.
-/

open List State

variable {Q R : Type}

open LawfulWaitQueue

/-! ### A closed pool stays closed -/

variable [WaitQueue Q R] {s s' t : State Q R} {ok : State Q R → Action R → Prop} {a : Action R}
  {i : TaskId} {c : AddCall R}

/-- `done_` is never taken back. -/
theorem step_done (hs : step s a = some s') (hd : s.ctl.done) : s'.ctl.done := by
  rcases step_ctl hs with h | ⟨ctx, h⟩ | ⟨f, h⟩ | ⟨-, h⟩ | h | ⟨n, hw, f, h⟩
  · rw [h]; exact hd
  · rw [h]; unfold Control.callStart; split <;> exact hd
  · rw [(startStep_state h).1]; exact hd
  · rw [h]; rfl
  · rw [(stopStep_state h).1]; exact hd
  · rcases managerStep_state h with ⟨-, h⟩ | ⟨-, -, h⟩
    · rw [h]; exact hd
    · exact h

/-- A pool leaves the running state only by closing. -/
theorem step_running (hwf : s.ctl.WellFormed) (hs : step s a = some s')
    (hst : s.ctl.state = .running) : s'.ctl.state = .running ∨ s'.ctl.done := by
  rcases step_ctl hs with h | ⟨ctx, h⟩ | ⟨f, h⟩ | ⟨-, h⟩ | h | ⟨n, hw, f, h⟩
  · left; rw [h]; exact hst
  · left; rw [h, Control.callStart, hst]; exact hst
  · exact .inl (startStep_running h hst)
  · right; rw [h]; rfl
  · right
    rw [(stopStep_state h).1]
    refine hwf.done_of_stopper (fun hidle => ?_)
    simp [stopStep, hidle] at h
  · rcases managerStep_state h with ⟨h, -⟩ | ⟨-, -, h⟩
    · left; rw [h]; exact hst
    · exact .inr h

/-- A stopped pool stays stopped. -/
theorem step_stopped (hs : step s a = some s') (hst : s.ctl.state = .stopped) :
    s'.ctl.state = .stopped := by
  rcases step_ctl hs with h | ⟨ctx, h⟩ | ⟨f, h⟩ | ⟨hcl, -⟩ | h | ⟨n, hw, f, h⟩
  · rw [h]; exact hst
  · rw [h, Control.callStart, hst]; exact hst
  · rcases (startStep_state h).2 with h | h
    · rw [h]; exact hst
    · simp [hst] at h
  · rw [hst] at hcl; cases hcl
  · rcases (stopStep_state h).2 with h | h
    · rw [h]; exact hst
    · exact h
  · rcases managerStep_state h with ⟨h, -⟩ | ⟨h, -⟩
    · rw [h]; exact hst
    · rw [hst] at h; rcases h with h | h <;> cases h

/-- **Leaving is closing.**  A pool that has been running and is not any more is closed. -/
theorem done_of_left_running
    (hr : (system Q).ReachableIf ok s) (hst : s.ctl.state = .running) (h : (system Q).Steps ok s
    t) : t.ctl.state = .running ∨ t.ctl.done := by
  induction h with
  | refl => exact .inl hst
  | @step t t' a ht hok hs ih =>
    have hwf := reachable_wellFormed (ht.reachableIf hr)
    rcases ih with ih | ih
    · exact step_running hwf hs ih
    · exact .inr (step_done hs ih)

/-! ### Calls that are over, and calls after the end -/

/-- An `addTask` call that is over. -/
def AddPc.over : AddPc → Bool
  | .returned | .threw _ => true
  | _ => false

omit [WaitQueue Q R] in
theorem wakeStop_returned {ws : List StopWaiter}
    (h : StopWaiter.returned ∈ ws.map wakeStop) : StopWaiter.returned ∈ ws := by
  obtain ⟨w, hw, hwake⟩ := mem_map.mp h
  cases w <;> simp_all [wakeStop]

/-- The calls of `s'` are those of `s`: no `addTask` moved and no `stop` returned. -/
structure SameCalls (s s' : State Q R) : Prop where
  adds : s'.adds = s.adds
  accepted : s'.accepted = s.accepted
  stopWaiters : .returned ∈ s'.stopWaiters → .returned ∈ s.stopWaiters

omit [WaitQueue Q R] in
theorem Notified.sameCalls (h : Notified s s') : SameCalls s s' := by
  cases h with
  | nobody | executor => exact ⟨rfl, rfl, id⟩
  | stop i hw =>
    refine ⟨rfl, rfl, fun hret => ?_⟩
    rcases mem_or_eq_of_mem_set hret with h | h
    · exact h
    · cases h

omit [WaitQueue Q R] in
theorem stopStep_sameCalls (hs : s.stopStep = some s') : SameCalls s s' := by
  cases stopStep_effect hs with
  | control => exact ⟨rfl, rfl, id⟩
  | notify => exact ⟨rfl, rfl, wakeStop_returned⟩

omit [WaitQueue Q R] in
theorem managerStep_sameCalls {n : Option Int} {hw : Int} {f : Bool}
    (hs : s.managerStep n hw f = some s') : SameCalls s s' := by
  cases managerStep_effect hs with
  | drain | shrink => exact ⟨rfl, rfl, wakeStop_returned⟩
  | _ => exact ⟨rfl, rfl, id⟩

theorem ExecMove.sameCalls {e : Nat} {x : Executor} (h : ExecMove s e x s') : SameCalls s s' := by
  cases h <;> exact ⟨rfl, rfl, id⟩

theorem WatchMove.sameCalls {k : Nat} (h : WatchMove s k s') : SameCalls s s' := by
  cases h with
  | notify _ s₁ hn => exact ⟨hn.sameCalls.adds, hn.sameCalls.accepted, hn.sameCalls.stopWaiters⟩
  | _ => exact ⟨rfl, rfl, id⟩

/-- A move of the call `i` changes the record of that call, which was not over, and accepts
    nothing but its own task, holding `mu_`. -/
theorem AddMove.books (h : AddMove s i c s') :
    c.pc.over = false ∧ (∃ pc, s'.adds = s.adds.set i { c with pc := pc }) ∧
      (s'.accepted = s.accepted ∨ c.pc.inside ∧ s'.accepted = s.accepted ++ [i]) := by
  cases h with
  | enter hpc | pass hpc | lock hpc | unwind hpc | insertFail hpc =>
    exact ⟨by rw [hpc]; rfl, ⟨_, rfl⟩, .inl rfl⟩
  | reject e hpc => exact ⟨by rcases hpc with h | h | h <;> rw [h] <;> rfl, ⟨_, rfl⟩, .inl rfl⟩
  | subscribe _ _ hpc | registerFail _ hpc => exact ⟨by rw [hpc]; rfl, ⟨_, rfl⟩, .inl rfl⟩
  | subscribeFired _ rest hpc _ f =>
    unfold onCancel
    split <;> exact ⟨by rw [hpc]; rfl, ⟨_, rfl⟩, .inl rfl⟩
  | insert hpc => exact ⟨by rw [hpc]; rfl, ⟨_, rfl⟩, .inr ⟨by rw [hpc]; rfl, rfl⟩⟩
  | notify hpc s₁ hn =>
    refine ⟨by rw [hpc]; rfl, ⟨.returned, ?_⟩, .inl hn.sameCalls.accepted⟩
    show s₁.adds.set i _ = _
    rw [hn.sameCalls.adds]

/-- What one step does to the calls and the accepted tasks. -/
theorem step_books (hs : step s a = some s') :
    (s'.adds = s.adds ∧ s'.accepted = s.accepted) ∨
    (∃ ctx r, a = .callAdd ctx r ∧ s'.adds = s.adds ++ [⟨ctx, r, .entered⟩] ∧
      s'.accepted = s.accepted) ∨
    ∃ i c pc, s.adds[i]? = some c ∧ c.pc.over = false ∧
      s'.adds = s.adds.set i { c with pc := pc } ∧
      (s'.accepted = s.accepted ∨ c.pc.inside ∧ s'.accepted = s.accepted ++ [i]) := by
  have hsame : SameCalls s s' → s'.adds = s.adds ∧ s'.accepted = s.accepted :=
    fun h => ⟨h.adds, h.accepted⟩
  cases move_of_step hs with
  | background | waiters | cancel | callStart | start | claimStop => exact .inl ⟨rfl, rfl⟩
  | callAdd ctx r => exact .inr (.inl ⟨ctx, r, rfl, rfl, rfl⟩)
  | stop s' hs => exact .inl (hsame (stopStep_sameCalls hs))
  | manager n hw f s' hs => exact .inl (hsame (managerStep_sameCalls hs))
  | executor e x s' hx hm | cancelled e x s' hx hc hm | watch k alive w s' hm =>
    exact .inl (hsame hm.sameCalls)
  | spurious e s' hn => exact .inl (hsame hn.sameCalls)
  | add i c f g w s' hc hm =>
    obtain ⟨hover, ⟨pc, hpc⟩, hacc⟩ := hm.books
    exact .inr (.inr ⟨i, c, pc, hc, hover, hpc, hacc⟩)

/-- A call that is over stays as it is. -/
theorem step_over (hs : step s a = some s') (hc : s.adds[i]? = some c)
    (hover : c.pc.over) : s'.adds[i]? = some c := by
  have hlt : i < s.adds.length := lt_of_getElem? hc
  rcases step_books hs with ⟨h, -⟩ | ⟨ctx, r, -, h, -⟩ | ⟨j, c', pc, hc', hover', h, -⟩
  · rw [h]; exact hc
  · rw [h]; exact getElem?_concat hc _
  · have hne : j ≠ i := by
      rintro rfl
      rw [hc] at hc'
      cases hc'
      rw [hover] at hover'
      cases hover'
    rw [h, getElem?_set_ne hne]
    exact hc

/-- A call that is over stays over. -/
theorem steps_over (h : (system Q).Steps ok s t)
    (hc : s.adds[i]? = some c) (hover : c.pc.over) : t.adds[i]? = some c :=
  h.preserves (I := fun s => s.adds[i]? = some c) (fun hi _ hs => step_over hs hi hover) hc

/-- Nothing is accepted by a closed pool. -/
theorem step_accepted (hmx : MutexInv s) (hwf : s.ctl.WellFormed)
    (hs : step s a = some s') (hd : s.ctl.done) : s'.accepted = s.accepted := by
  rcases step_books hs with ⟨-, h⟩ | ⟨ctx, r, -, -, h⟩ | ⟨i, c, pc, hc, -, -, h | ⟨hin, -⟩⟩
  · exact h
  · exact h
  · exact h
  · -- The call holds `mu_`, which it got while the pool was running.
    have hrun := (hmx.add i c hc hin).2
    rw [hwf.done_eq, hrun] at hd
    cases hd

/-- **A closed pool accepts nothing**, however long it goes on. -/
theorem steps_accepted
    (hr : (system Q).ReachableIf ok s) (hd : s.ctl.done) (h : (system Q).Steps ok s t) :
    t.accepted = s.accepted := by
  suffices hboth : t.ctl.done ∧ t.accepted = s.accepted from hboth.2
  induction h with
  | refl => exact ⟨hd, rfl⟩
  | @step t t' a ht hok hs ih =>
    have hrt := ht.reachableIf hr
    obtain ⟨hdt, hacc⟩ := ih
    refine ⟨step_done hs hdt, ?_⟩
    rw [step_accepted (reachable_mutexInv hrt) (reachable_wellFormed hrt) hs hdt]
    exact hacc

/-! ### Where a task is -/

/-- The task waits in the queue and has not been executed. -/
structure State.Waiting (s : State Q R) (t : TaskId) : Prop where
  queued : WaitQueue.contains s.queue t
  held : s.held.count t = 0
  executions : s.executions.count t = 0
  completed : s.completed.count t = 0

/-- One executor has the task; its callback is running or about to. -/
structure State.InHand (s : State Q R) (t : TaskId) : Prop where
  queued : WaitQueue.contains s.queue t = false
  held : s.held.count t = 1
  executions : s.executions.count t ≤ 1
  completed : s.completed.count t = 0

/-- The callback of the task was invoked once and is over. -/
structure State.Finished (s : State Q R) (t : TaskId) : Prop where
  queued : WaitQueue.contains s.queue t = false
  held : s.held.count t = 0
  executions : s.executions.count t = 1
  completed : s.completed.count t = 1

omit [WaitQueue Q R] in
/-- A running task is a task some executor holds. -/
theorem runningTasks_count_le (s : State Q R) (t : TaskId) :
    s.runningTasks.count t ≤ s.held.count t := by
  refine count_filterMap_le (fun x u hx => ?_) s.executors t
  unfold Executor.runs at hx
  unfold Executor.held
  split at hx
  next hpc =>
    rw [hpc]
    exact hx
  · cases hx

variable [LawfulWaitQueue Q] {t : TaskId}

/-- **One place.**  An accepted task waits, is in hand, or has finished. -/
theorem TaskInv.placed (h : TaskInv s) (ht : t ∈ s.accepted) :
    s.Waiting t ∨ s.InHand t ∨ s.Finished t := by
  obtain ⟨l, hl, hbal⟩ := h.balance
  have hone : s.accepted.count t = 1 := count_eq_one_of_mem h.nodup ht
  have hsum := hbal t
  have hrun := runningTasks_count_le s t
  have hexec := h.executed t
  by_cases hmem : t ∈ l
  · have hpos : 1 ≤ l.count t := count_pos_iff.mpr hmem
    exact .inl ⟨(holds_contains hl t).mpr hmem, by omega, by omega, by omega⟩
  · have hzero : l.count t = 0 := count_eq_zero.mpr hmem
    have hcont : WaitQueue.contains s.queue t = false :=
      Bool.eq_false_iff.mpr (fun hc => hmem ((holds_contains hl t).mp hc))
    right
    by_cases hc : s.completed.count t = 0
    · exact .inl ⟨hcont, by omega, by omega, hc⟩
    · exact .inr ⟨hcont, by omega, by omega, by omega⟩

/-- A task that was not accepted has not been executed. -/
theorem TaskInv.not_executed (h : TaskInv s)
    (ht : t ∉ s.accepted) : t ∉ s.executions := by
  obtain ⟨l, -, hbal⟩ := h.balance
  have hsum := hbal t
  have hrun := runningTasks_count_le s t
  have hexec := h.executed t
  rw [count_eq_zero.mpr ht] at hsum
  exact count_eq_zero.mp (by omega)

/-- A call that returned has its task accepted, and one that threw has not. -/
theorem TaskInv.accepted_of_returned (h : TaskInv s) (hc : s.adds[i]? = some c)
    (hpc : c.pc = .returned) : i ∈ s.accepted :=
  (h.accepted_iff i).mpr ⟨c, hc, by rw [hpc]; rfl⟩

theorem TaskInv.not_accepted_of_threw (h : TaskInv s) {e : PoolError}
    (hc : s.adds[i]? = some c) (hpc : c.pc = .threw e) : i ∉ s.accepted := by
  intro hacc
  obtain ⟨c', hc', hacc'⟩ := (h.accepted_iff i).mp hacc
  rw [hc] at hc'
  cases hc'
  rw [hpc] at hacc'
  cases hacc'

/-! ### When stop has returned -/

omit [LawfulWaitQueue Q] in
theorem AddMove.stopWaiters (h : AddMove s i c s')
    (hret : .returned ∈ s'.stopWaiters) : .returned ∈ s.stopWaiters := by
  cases h with
  | subscribeFired _ _ _ _ f =>
    unfold onCancel at hret
    split at hret <;> exact hret
  | notify _ s₁ hn => exact hn.sameCalls.stopWaiters hret
  | _ => exact hret

omit [LawfulWaitQueue Q] in
/-- A `stop` that waited for another one returns only when the pool is stopped. -/
theorem step_stopWaiters (hs : step s a = some s')
    (hret : .returned ∈ s'.stopWaiters) : .returned ∈ s.stopWaiters ∨ s.ctl.state = .stopped := by
  cases move_of_step hs with
  | background | cancel | callStart | start | callAdd => exact .inl hret
  | waiters ws hws => exact hws _ hret rfl
  | claimStop => exact .inl (wakeStop_returned hret)
  | stop s' hs => exact .inl ((stopStep_sameCalls hs).stopWaiters hret)
  | manager n hw f s' hs => exact .inl ((managerStep_sameCalls hs).stopWaiters hret)
  | executor e x s' hx hm | cancelled e x s' hx hc hm | watch k alive w s' hm =>
    exact .inl (hm.sameCalls.stopWaiters hret)
  | spurious e s' hn => exact .inl (hn.sameCalls.stopWaiters hret)
  | add i c f g w s' hc hm => exact .inl (hm.stopWaiters hret)

/-- Some `stop()` call has returned: the one that did the work, or one that waited. -/
def State.stopReturned (s : State Q R) : Prop :=
  s.ctl.stopper = .returned ∨ .returned ∈ s.stopWaiters

omit [LawfulWaitQueue Q] in
theorem stopped_of_stopReturned (h : (system Q).ReachableIf ok s) (hret : s.stopReturned) :
    s.ctl.state = .stopped := by
  rcases hret with hret | hret
  · exact (reachable_wellFormed h).stopped.mpr (by rw [hret]; rfl)
  · revert hret
    refine h.invariant (I := fun s => .returned ∈ s.stopWaiters → s.ctl.state = .stopped) ?_ ?_
    · intro hret
      cases hret
    · intro s a s' _ ih _ hs hret
      rcases step_stopWaiters hs hret with h | h
      · exact step_stopped hs (ih h)
      · exact step_stopped hs h

omit [WaitQueue Q R] [LawfulWaitQueue Q] in
/-- Nobody joins executors any more once a pool is stopped. -/
theorem Roster.finished (hr : Roster s) (hwf : s.ctl.WellFormed)
    (hstopped : s.ctl.state = .stopped) : ∀ x ∈ s.executors, x.pc = .finished := by
  have hstored := hwf.stopped.mp hstopped
  intro x hx
  obtain ⟨e, he⟩ := mem_iff_getElem?.mp hx
  by_contra hne
  have hj := hr.joinable e x he hne
  unfold State.Joinable at hj
  cases hp : s.ctl.stopper <;> simp_all [StopPc.stored]

/-- **Drained.**  In a stopped pool every executor has returned, so nothing waits, nothing
    is in hand, and every accepted task has finished. -/
theorem finished_of_stopped (h : TaskInv s) (hwf : s.ctl.WellFormed) (hr : Roster s)
    (hst : Staffed s) (hstopped : s.ctl.state = .stopped) (ht : t ∈ s.accepted) :
    s.Finished t := by
  have hfin := hr.finished hwf hstopped
  have hlive : s.live = 0 := by
    refine countP_eq_zero.mpr (fun x hx => ?_)
    rw [Executor.live, hfin x hx]
    simp
  have hheld : s.held.count t = 0 := by
    refine count_eq_zero.mpr (fun hmem => ?_)
    obtain ⟨x, hx, hxt⟩ := mem_filterMap.mp hmem
    simp [Executor.held, hfin x hx] at hxt
  have hsize : WaitQueue.size s.queue = 0 := by
    by_contra hne
    have := hst.waiting hne
    omega
  rcases h.placed ht with hw | hin | hf
  · obtain ⟨l, hl, -⟩ := h.balance
    have hnil := length_eq_zero_iff.mp ((holds_size hl).symm.trans hsize)
    have hmem := (holds_contains hl t).mp hw.queued
    simp [hnil] at hmem
  · have := hin.held
    omega
  · exact hf

/-! ### The contract of the task pool -/

/-- **Exactly once.**  Whatever the interleaving, as long as nobody outside the pool cancels
    its executors:
    a task whose `addTask` returned waits, is in hand, or has been executed exactly once;
    a task whose `addTask` threw is never executed, however the run goes on;
    after the pool has left the running state, the only calls that return normally are those
    that had inserted their task before;
    and when a `stop` has returned, every accepted task has finished. -/
theorem taskPool_exactlyOnce {s : State TaskQueue Bool}
    (h : (system TaskQueue).ReachableIf noOutsideCancel s) :
    (∀ i c, s.adds[i]? = some c → c.pc = .returned →
      s.Waiting i ∨ s.InHand i ∨ s.Finished i) ∧
    (∀ i c e, s.adds[i]? = some c → c.pc = .threw e →
      ∀ t, (system TaskQueue).Steps noOutsideCancel s t → i ∉ t.executions) ∧
    (∀ s₁ t, s.ctl.state = .running → (system TaskQueue).Steps noOutsideCancel s s₁ →
      s₁.ctl.state ≠ .running → (system TaskQueue).Steps noOutsideCancel s₁ t →
      ∀ (i : TaskId) (c : AddCall Bool), t.adds[i]? = some c → c.pc = .returned →
        ∃ c₁, s₁.adds[i]? = some c₁ ∧ c₁.pc.accepted = true) ∧
    (s.stopReturned → ∀ i ∈ s.accepted, s.Finished i) := by
  have hinv := reachable_taskInv h
  refine ⟨?_, ?_, ?_, ?_⟩
  · intro i c hc hpc
    exact hinv.placed (hinv.accepted_of_returned hc hpc)
  · intro i c e hc hpc t ht
    have hct := steps_over ht hc (by rw [hpc]; rfl)
    have hinvt := reachable_taskInv (ht.reachableIf h)
    exact hinvt.not_executed (hinvt.not_accepted_of_threw hct hpc)
  · intro s₁ t hrun hs₁ hleft ht i c hc hpc
    have hr₁ := hs₁.reachableIf h
    have hdone := (done_of_left_running h hrun hs₁).resolve_left hleft
    have hacc := (reachable_taskInv (ht.reachableIf hr₁)).accepted_of_returned hc hpc
    rw [steps_accepted hr₁ hdone ht] at hacc
    exact ((reachable_taskInv hr₁).accepted_iff i).mp hacc
  · intro hret i hi
    exact finished_of_stopped hinv (reachable_wellFormed h) (reachable_roster h)
      (reachable_staffed h) (stopped_of_stopReturned h hret) hi

/-- One task from `start` to the end of `stop`, with one executor. -/
def servedSchedule : List (Action Bool) :=
  [ startUp 1, [.callAdd {} true], replicate 5 (.add 0 false false none),
    replicate 5 (.executor 0),
    [.callStop], replicate 3 .stop, replicate 5 (.manager (some 1) 1 false),
    replicate 2 .stop, replicate 3 (.executor 0), replicate 4 .stop ].flatten

theorem taskPool_exactlyOnce_served :
    ∃ s, (system TaskQueue).ReachableIf noOutsideCancel s ∧ s.accepted = [0] ∧
      s.ctl.stopper = .returned ∧ s.Finished 0 := by
  obtain ⟨s, hs, hacc, hret⟩ := System.exists_reachableIf_of_run
    (system TaskQueue) noOutsideCancel servedSchedule
    (fun s => s.accepted = [0] ∧ s.ctl.stopper = .returned) (by decide +kernel)
  exact ⟨s, hs, hacc, hret, (taskPool_exactlyOnce hs).2.2.2 (.inl hret) 0 (by simp [hacc])⟩

/-! ### The executors of a stopped pool -/

omit [LawfulWaitQueue Q] in
/-- **No executor outlives its pool.**  Once a `stop` has returned, every executor coroutine that
    was ever spawned has finished and given its slot back, even if executors were cancelled. -/
theorem executors_finished (h : (system Q).ReachableIf ok s) (hret : s.stopReturned) :
    (∀ x ∈ s.executors, x.pc = .finished) ∧ s.allocatedExecutors = 0 := by
  have hwf := reachable_wellFormed h
  have hstopped := stopped_of_stopReturned h hret
  have hfin := (reachable_roster h).finished hwf hstopped
  have hslots : s.slots = 0 :=
    countP_eq_zero.mpr (fun x hx => by simp [Executor.hasSlot, hfin x hx])
  have hgone : s.ctl.managerGone := by
    have hstored := hwf.stopped.mp hstopped
    refine hwf.settled ?_
    cases hpc : s.ctl.stopper <;> rw [hpc] at hstored <;> first | rfl | cases hstored
  have hreserved : s.ctl.manager.reserved = 0 := by
    rcases hgone with hover | ⟨habsent, -⟩
    · cases hpc : s.ctl.manager <;> simp [hpc, ManagerPc.over] at hover <;> rfl
    · rw [habsent]
      rfl
  rw [(reachable_roster h).allocated, hslots, hreserved]
  exact ⟨hfin, rfl⟩

theorem executors_finished_served :
    ∃ s, (system TaskQueue).Reachable s ∧ s.executors.length = 1 ∧
      (∀ x ∈ s.executors, x.pc = .finished) ∧ s.allocatedExecutors = 0 := by
  obtain ⟨s, hs, hone, hret⟩ := (system TaskQueue).exists_reachable_of_run servedSchedule
    (fun s => s.executors.length = 1 ∧ s.ctl.stopper = .returned) (by decide +kernel)
  exact ⟨s, hs, hone, executors_finished hs (.inl hret)⟩

end ServiceLib.Pool
