import ServiceLib.Lib.ThreadList
import ServiceLib.Pool.Lifecycle

namespace ServiceLib.Pool

/-!
# Pool — every accepted task is in exactly one place

`TaskInv` balances the books: an accepted task waits in the queue, is held by one executor,
or is completed, and never two of these at once.  The invariant does not depend on the
lifecycle, so it holds for every pool and every schedule.
-/

open List Option State Executor

variable {Q R : Type} {e : Nat} {x : Executor} {s s' : State Q R} {c : AddCall R} {i : TaskId}

/-! ### What a notification and a move change -/

@[simp] theorem wakeExecutor_held (x : Executor) : (wakeExecutor x).held = x.held := by
  unfold wakeExecutor
  split
  next h =>
    simp [Executor.held, h]
  · rfl

@[simp] theorem wakeExecutor_runs (x : Executor) : (wakeExecutor x).runs = x.runs := by
  unfold wakeExecutor
  split
  next h =>
    simp [runs, h]
  · rfl

@[simp] theorem notifyAll_held (s : State Q R) : s.notifyAll.held = s.held := by
  simp [State.held, notifyAll, filterMap_map]

@[simp] theorem notifyAll_runningTasks (s : State Q R) :
    s.notifyAll.runningTasks = s.runningTasks := by
  simp [runningTasks, notifyAll, filterMap_map]

/-- What the executors hold after executor `e` moved. -/
theorem held_setExecutor (hx : s.executors[e]? = some x) (pc : ExecPc) (t : TaskId) :
    x.held.toList.count t + (s.setExecutor e x pc).held.count t =
      (Executor.held ⟨pc, x.cancelled⟩).toList.count t + s.held.count t :=
  count_filterMap_set Executor.held hx { x with pc := pc } t

theorem runningTasks_setExecutor (hx : s.executors[e]? = some x) (pc : ExecPc) (t : TaskId) :
    x.runs.toList.count t + (s.setExecutor e x pc).runningTasks.count t =
      (runs ⟨pc, x.cancelled⟩).toList.count t + s.runningTasks.count t :=
  count_filterMap_set runs hx { x with pc := pc } t

variable [WaitQueue Q R] [LawfulWaitQueue Q]

open LawfulWaitQueue

/-! ### The invariant -/

/-- Where the tasks of a pool are.  An `addTask` call is its task, so a task is accepted
    exactly when its call has inserted it. -/
structure TaskInv (s : State Q R) : Prop where
  balance : ∃ l, Holds s.queue l ∧
    ∀ t, s.accepted.count t = l.count t + s.held.count t + s.completed.count t
  executed : ∀ t, s.executions.count t = s.runningTasks.count t + s.completed.count t
  nodup : s.accepted.Nodup
  accepted_iff : ∀ i, i ∈ s.accepted ↔ ∃ c, s.adds[i]? = some c ∧ c.pc.accepted

theorem init_taskInv : TaskInv (init Q) where
  balance := ⟨[], holds_empty, by simp [init, State.held]⟩
  executed := by simp [init, runningTasks]
  nodup := nodup_nil
  accepted_iff := by simp [init]

section

variable (h : TaskInv s)
include h

/-- **Frame rule.**  A step is harmless when it leaves the queue, the calls and the history
    alone and no executor's task changes hands. -/
theorem TaskInv.congr (hqueue : s'.queue = s.queue) (hadds : s'.adds = s.adds)
    (haccepted : s'.accepted = s.accepted) (hexecutions : s'.executions = s.executions)
    (hcompleted : s'.completed = s.completed) (hheld : ∀ t, s'.held.count t = s.held.count t)
    (hruns : ∀ t, s'.runningTasks.count t = s.runningTasks.count t) : TaskInv s' := by
  obtain ⟨l, hl, hbal⟩ := h.balance
  refine ⟨⟨l, by rw [hqueue]; exact hl, fun t => ?_⟩, fun t => ?_, ?_, ?_⟩
  · rw [haccepted, hheld, hcompleted]; exact hbal t
  · rw [hexecutions, hruns, hcompleted]; exact h.executed t
  · rw [haccepted]; exact h.nodup
  · rw [haccepted, hadds]; exact h.accepted_iff

/-- A move of an executor that holds nothing before and after. -/
theorem TaskInv.setExecutor (hx : s.executors[e]? = some x) (pc : ExecPc) (hold : x.held = none)
    (hnew : Executor.held ⟨pc, x.cancelled⟩ = none) (holdr : x.runs = none)
    (hnewr : runs ⟨pc, x.cancelled⟩ = none) : TaskInv (s.setExecutor e x pc) := by
  refine h.congr rfl rfl rfl rfl rfl (fun t => ?_) (fun t => ?_)
  · simpa [hold, hnew] using held_setExecutor hx pc t
  · simpa [holdr, hnewr] using runningTasks_setExecutor hx pc t

theorem TaskInv.notifyAll : TaskInv s.notifyAll :=
  h.congr rfl rfl rfl rfl rfl (by simp) (by simp)

theorem TaskInv.notified (hn : Notified s s') : TaskInv s' := by
  cases hn with
  | nobody => exact h
  | executor e c hx => exact h.setExecutor hx .notified rfl rfl rfl rfl
  | stop i hw => exact { h with }

/-- The frame rule for a call that stays on its side of acceptance. -/
theorem TaskInv.setAdd (hc : s.adds[i]? = some c) (pc : AddPc) (hpc : pc.accepted = c.pc.accepted) :
    TaskInv (s.setAdd i c pc) := by
  refine ⟨h.balance, h.executed, h.nodup, fun j => ?_⟩
  show j ∈ s.accepted ↔ _
  rw [h.accepted_iff j]
  by_cases hij : i = j
  · subst hij
    have hlt : i < s.adds.length := lt_of_getElem? hc
    simp only [State.setAdd, getElem?_set_self hlt, hc, some.injEq, exists_eq_left', hpc]
  · simp only [State.setAdd, getElem?_set_ne hij]

/-! ### Steps of the executors -/

/-- A move of an executor in which callbacks are invoked, `ex`, or return, `fin`. -/
theorem TaskInv.move (hx : s.executors[e]? = some x) (pc : ExecPc) (ex fin : List TaskId)
    (hheld : x.held.toList = (Executor.held ⟨pc, x.cancelled⟩).toList ++ fin)
    (hruns : x.runs.toList ++ ex = (runs ⟨pc, x.cancelled⟩).toList ++ fin) :
    TaskInv { s.setExecutor e x pc with
      executions := s.executions ++ ex, completed := s.completed ++ fin } := by
  obtain ⟨l, hl, hbal⟩ := h.balance
  refine ⟨⟨l, hl, fun u => ?_⟩, fun u => ?_, h.nodup, h.accepted_iff⟩
  · have hcount := held_setExecutor hx pc u
    rw [hheld, count_append] at hcount
    have := hbal u
    show s.accepted.count u = _ + (s.setExecutor e x pc).held.count u + (s.completed ++ fin).count u
    rw [count_append]
    omega
  · have hcount := runningTasks_setExecutor hx pc u
    have hruns := congrArg (count u) hruns
    have := h.executed u
    show (s.executions ++ ex).count u =
      (s.setExecutor e x pc).runningTasks.count u + (s.completed ++ fin).count u
    rw [count_append, count_append] at hruns ⊢
    omega

/-- A step of an executor. -/
theorem execMove_taskInv (hx : s.executors[e]? = some x) (hm : ExecMove s e x s') : TaskInv s' := by
  obtain ⟨pc, cancelled⟩ := x
  cases hm with
  | park hpc | idleExit hpc =>
    rcases hpc with rfl | rfl <;> exact h.setExecutor hx _ rfl rfl rfl rfl
  | wake hpc =>
    rcases hpc with rfl | rfl | rfl <;> exact { h.setExecutor hx .woken rfl rfl rfl rfl with }
  | excess hpc | release hpc =>
    cases hpc
    exact { h.setExecutor hx .finished rfl rfl rfl rfl with }
  | drained hpc =>
    cases hpc
    exact { h.setExecutor hx .leaving rfl rfl rfl rfl with }
  | proceed hpc =>
    cases hpc
    exact h.setExecutor hx _ rfl rfl rfl rfl
  | dequeue hpc t q hpop =>
    -- The task moves from the queue into the executor's hands.
    obtain ⟨l, hl, hbal⟩ := h.balance
    obtain ⟨htl, hl'⟩ := holds_pop hl hpop
    cases hpc
    refine ⟨⟨l.erase t, hl', fun u => ?_⟩, fun u => ?_, h.nodup, h.accepted_iff⟩
    · have hheld := held_setExecutor hx (.dequeued t) u
      have herase := (perm_cons_erase htl).count_eq u
      rw [count_cons] at herase
      simp only [Executor.held, toList_none, count_nil, toList_some, count_cons] at hheld
      have := hbal u
      show s.accepted.count u =
        _ + (s.setExecutor e _ (.dequeued t)).held.count u + s.completed.count u
      omega
    · have hruns := runningTasks_setExecutor hx (.dequeued t) u
      have := h.executed u
      show s.executions.count u =
        (s.setExecutor e _ (.dequeued t)).runningTasks.count u + s.completed.count u
      exact this.trans (congrArg (· + _) (Nat.add_left_cancel hruns).symm)
  | run t hpc =>
    -- The executor keeps the task; its callback has been invoked.
    cases hpc
    have h' := h.move hx (.running t) [t] [] rfl rfl
    rw [append_nil] at h'
    exact { h' with }
  | finish t hpc =>
    -- The task moves from the executor's hands into the history.
    cases hpc
    have h' := h.move hx .loopHead [] [t] rfl rfl
    rw [append_nil] at h'
    exact { h' with }

/-! ### Steps of the callers -/

/-- The task of a call that has not inserted it is not in the queue. -/
theorem TaskInv.fresh (hc : s.adds[i]? = some c) (hpc : c.pc.accepted = false) :
    i ∉ s.accepted := by
  intro hmem
  obtain ⟨c', hc', hacc⟩ := (h.accepted_iff i).mp hmem
  rw [hc] at hc'
  cases hc'
  simp [hpc] at hacc

end

omit [WaitQueue Q R] [LawfulWaitQueue Q] in
theorem not_waiting_of_not_accepted {l : List TaskId}
    (hbal : ∀ t, s.accepted.count t = l.count t + s.held.count t + s.completed.count t)
    (hfresh : i ∉ s.accepted) : i ∉ l := by
  intro hmem
  have hzero := count_eq_zero.mpr hfresh
  have hpos := count_pos_iff.mpr hmem
  have := hbal i
  omega

section

variable (h : TaskInv s)
include h

/-- The insertion of a task by its call. -/
theorem TaskInv.insert (hc : s.adds[i]? = some c) (hpc : c.pc.accepted = false) {q : Q}
    (hpush : WaitQueue.push s.queue i c.ctx.deadline c.request = (q, true)) :
    TaskInv { s.setAdd i c .notifying with
      queue := q, mu := none, accepted := s.accepted ++ [i] } := by
  obtain ⟨l, hl, hbal⟩ := h.balance
  have hlt : i < s.adds.length := lt_of_getElem? hc
  have hfresh := h.fresh hc hpc
  have hil := not_waiting_of_not_accepted hbal hfresh
  refine ⟨⟨i :: l, holds_push hl hil hpush, fun u => ?_⟩, h.executed, ?_, fun j => ?_⟩
  · show (s.accepted ++ [i]).count u = (i :: l).count u + s.held.count u + s.completed.count u
    have := hbal u
    rw [count_append, count_cons, count_cons, count_nil]
    omega
  · show (s.accepted ++ [i]).Nodup
    rw [nodup_append]
    refine ⟨h.nodup, by simp, ?_⟩
    intro a ha b hb hab
    rw [mem_singleton] at hb
    exact hfresh (by rw [← hb, ← hab]; exact ha)
  · show j ∈ s.accepted ++ [i] ↔ _
    by_cases hij : i = j
    · subst hij
      simp [State.setAdd, getElem?_set_self hlt, AddPc.accepted]
    · have hj := h.accepted_iff j
      simp only [State.setAdd, getElem?_set_ne hij, mem_append, mem_singleton]
      rw [← hj]
      exact ⟨fun hor => hor.resolve_right (Ne.symm hij), .inl⟩

/-- A step of `addTask`. -/
theorem addMove_taskInv (hc : s.adds[i]? = some c) (hm : AddMove s i c s') : TaskInv s' := by
  obtain ⟨ctx, request, pc⟩ := c
  cases hm with
  | enter hpc | pass hpc =>
    cases hpc
    exact h.setAdd hc _ rfl
  | reject e hpc => rcases hpc with rfl | rfl | rfl <;> exact h.setAdd hc _ rfl
  | lock hpc =>
    cases hpc
    exact { h.setAdd hc (.registering ctx.tokens) rfl with }
  | subscribe τ rest hpc =>
    cases hpc
    exact { h.setAdd hc (.registering rest) rfl with }
  | subscribeFired τ rest hpc =>
    cases hpc
    have h' := h.setAdd hc (.registering rest) rfl
    unfold onCancel
    split
    · exact h'
    · exact { h' with }
  | registerFail rest hpc =>
    cases hpc
    exact { h.setAdd hc .unwinding rfl with }
  | insert hpc q hpush =>
    cases hpc
    exact h.insert hc rfl hpush
  | insertFail hpc q hpush =>
    cases hpc
    obtain ⟨l, hl, hbal⟩ := h.balance
    -- A failed push only writes the fields of a task that is not in the queue.
    have hil := not_waiting_of_not_accepted hbal (h.fresh hc rfl)
    exact { h.setAdd hc .unwinding rfl with balance := ⟨l, holds_push_fail hl hil hpush, hbal⟩ }
  | unwind hpc =>
    cases hpc
    exact { h.setAdd hc (.threw .resource) rfl with }
  | notify hpc s₁ hn =>
    cases hpc
    have hadds : s₁.adds = s.adds := by cases hn <;> rfl
    exact (h.notified hn).setAdd (by rw [hadds]; exact hc) _ rfl

theorem TaskInv.callAdd (ctx : Context) (r : R) :
    TaskInv { s with adds := s.adds ++ [⟨ctx, r, .entered⟩] } := by
  refine ⟨h.balance, h.executed, h.nodup, fun i => ?_⟩
  show i ∈ s.accepted ↔ _
  rw [h.accepted_iff i]
  constructor
  · rintro ⟨c, hc, hacc⟩
    exact ⟨c, getElem?_concat hc _, hacc⟩
  · rintro ⟨c, hc, hacc⟩
    rcases getElem?_append_singleton_cases hc with hc | ⟨-, rfl⟩
    · exact ⟨c, hc, hacc⟩
    · cases hacc

theorem watchMove_taskInv {k : Nat} (hm : WatchMove s k s') : TaskInv s' := by
  cases hm with
  | dead t hw ht => exact { h with }
  | promote t hw hmu pc hpc =>
    obtain ⟨l, hl, hbal⟩ := h.balance
    exact { h with balance := ⟨l, holds_promote t _ hl, hbal⟩ }
  | notify hw s₁ hn => exact { h.notified hn with }

/-! ### Steps of the lifecycle coroutines -/

/-- A step of `stop`. -/
theorem stopStep_taskInv (hs : s.stopStep = some s') : TaskInv s' := by
  cases stopStep_effect hs with
  | control => exact { h with }
  | notify => exact { h.notifyAll with }

/-- A new executor holds nothing. -/
theorem TaskInv.spawnExecutor : TaskInv s.spawnExecutor := by
  refine h.congr rfl rfl rfl rfl rfl (fun t => ?_) (fun t => ?_)
  · simp [State.held, State.spawnExecutor, filterMap_cons, Executor.held]
  · simp [runningTasks, State.spawnExecutor, filterMap_cons, runs]

theorem managerStep_taskInv {n : Option Int} {hw : Int} {f : Bool}
    (hs : s.managerStep n hw f = some s') : TaskInv s' := by
  cases managerStep_effect hs with
  | drain => exact { h.notifyAll with }
  | shrink target handles =>
    have h' : TaskInv { s with targetExecutors := target, handles := handles } := { h with }
    exact { h'.notifyAll with }
  | spawn => exact { h.spawnExecutor with }
  | _ => exact { h with }

/-! ### Every step keeps the invariant -/

/-- **The books are balanced after every step.** -/
theorem step_taskInv {a : Action R} (hs : step s a = some s') : TaskInv s' := by
  cases move_of_step hs with
  | background | waiters | callStart | start => exact { h with }
  | claimStop => exact { h.notifyAll with }
  | stop s' hs => exact stopStep_taskInv h hs
  | manager n hw f s' hs => exact managerStep_taskInv h hs
  | executor e x s' hx hm | cancelled e x s' hx hc hm => exact execMove_taskInv h hx hm
  | cancel e x hx =>
    refine h.congr rfl rfl rfl rfl rfl (fun t => ?_) (fun t => ?_)
    · have := (filterMap_set_perm Executor.held hx { x with cancelled := true }).count_eq t
      rw [count_append, count_append] at this
      exact Nat.add_left_cancel this
    · have := (filterMap_set_perm runs hx { x with cancelled := true }).count_eq t
      rw [count_append, count_append] at this
      exact Nat.add_left_cancel this
  | spurious e s' hn => exact h.notified hn
  | callAdd ctx r => exact h.callAdd ctx r
  | add i c f g w s' hc hm => exact addMove_taskInv h hc hm
  | watch k alive w s' hm => exact watchMove_taskInv h hm

end

/-- The books are balanced in every reachable state, whatever the schedule. -/
theorem reachable_taskInv {ok : State Q R → Action R → Prop} (h : (system Q).ReachableIf ok s) :
    TaskInv s :=
  h.invariant init_taskInv (fun _ hi _ hs => step_taskInv hi hs)

end ServiceLib.Pool
