import ServiceLib.DelayPool.Ownership

namespace ServiceLib.DelayPool

/-!
# Delay pool — accepted callbacks run exactly once

The contract of the delay pool towards its callers, for every interleaving:

* a callback whose `delay` returned is pending or ran exactly once (`TaskInv.placed`), and one
  whose `delay` threw never runs;
* `pending` is the number of accepted tasks that are not finished (`TaskInv.pending_eq`);
* when a `stop` has returned, nothing is pending and nothing will ever run again
  (`quiet_of_stopped`).
-/

open List Option State

/-! ### Calls that are over -/

/-- A `delay` call that is over. -/
def DelayPc.over : DelayPc → Bool
  | .returned | .threw _ => true
  | _ => false

/-- The program counter of call `i`. -/
def State.pcOf (s : State) (i : TaskId) : Option DelayPc := s.calls[i]?.map DelayCall.pc

variable {s s' s₁ : State} {c : DelayCall} {i : TaskId} {k : Nat} {a : Action}
  {ok : State → Action → Prop} {p : PoolState} {pc : DelayPc} {x : StopCall} {t : State}

theorem pcOf_set {j : TaskId} {c' : DelayCall} (hc : s.calls[i]? = some c)
    (hcalls : s'.calls = s.calls.set i c') (h : j ≠ i ∨ c'.pc = c.pc) : s'.pcOf j = s.pcOf j := by
  rw [pcOf, hcalls]
  exact map_getElem?_set hc h

/-- A call that moves was not over, and it is the only one whose counter moves. -/
theorem DelayMove.frame (hm : DelayMove s i c s') :
    c.pc.over = false ∧ ∃ c', s'.calls = s.calls.set i c' := by
  cases hm with
  | nodeFail now hpc hmu s₁ he | immediate now hpc hmu hopen s₁ he
  | enqueue now hpc hmu hopen s₁ he =>
    exact ⟨by rw [hpc]; rfl, _, congrArg (set · i _) he.calls⟩
  | _ => exact ⟨by simp [DelayPc.over, *], _, rfl⟩

theorem CancelMove.pcOf {x : Canceller} (hc : s.calls[x.task]? = some c)
    (hm : CancelMove s k x c s') (j : TaskId) : s'.pcOf j = s.pcOf j := by
  cases hm with
  | again | early | admitted => rfl
  | request | published | exchange | push | send => exact pcOf_set hc rfl (.inr rfl)

/-- The scheduler writes nothing to a call but whether it is queued. -/
theorem SchedulerMove.map_calls {α : Type} {f : DelayCall → α}
    (hf : ∀ c q, f { c with queued := q } = f c) (hm : SchedulerMove s s') (j : TaskId) :
    s'.calls[j]?.map f = s.calls[j]?.map f := by
  cases hm with
  | expedite t | finalExpedite t =>
    obtain ⟨timers, heq⟩ := expedite_eq s t
    rw [heq]
  | take hpc hmu key t | retry t => exact map_getElem?_modify (fun c => hf c _) t j
  | _ => rfl

theorem SchedulerMove.pcOf (hm : SchedulerMove s s') (j : TaskId) : s'.pcOf j = s.pcOf j :=
  hm.map_calls (fun _ _ => rfl) j

/-- A call that is over stays over. -/
theorem step_over (hs : step s a = some s')
    (hpc : s.pcOf i = some pc) (hover : pc.over) : s'.pcOf i = some pc := by
  cases move_of_step hs with
  | world | startAgain | startFail | callback | callStop => exact hpc
  | start hmu hst s₁ hs₁ =>
    unfold pcOf at hpc ⊢
    rw [← hs₁.calls] at hpc
    exact hpc
  | callDelay ctx d =>
    obtain ⟨c, hc, rfl⟩ := map_eq_some_iff.mp hpc
    exact congrArg (Option.map DelayCall.pc) (getElem?_concat hc _)
  | delay j c hc s' hm =>
    obtain ⟨hnot, c', hcalls⟩ := hm.frame
    refine (pcOf_set hc hcalls (.inl ?_)).trans hpc
    rintro rfl
    rw [pcOf, hc] at hpc
    cases hpc
    simp [hover] at hnot
  | cancel k x c hx hc s' hm => exact (hm.pcOf hc i).trans hpc
  | scheduler s' hm => exact (hm.pcOf i).trans hpc
  | coroutine k x hx s' hm =>
    cases hm with
    | claim hpc' c hc hcl =>
      refine (pcOf_set hc rfl ?_).trans hpc
      exact .inr rfl
    | _ => exact hpc
  | stop k x hx s' hm => cases hm <;> exact hpc

/-- A call that is over stays over. -/
theorem steps_over (h : system.Steps ok s t)
    (hpc : s.pcOf i = some pc) (hover : pc.over) : t.pcOf i = some pc :=
  h.preserves (I := fun s => s.pcOf i = some pc) (fun hi _ hs => step_over hs hi hover) hpc

/-! ### A closed pool -/

/-- The states in which a delay pool takes no more tasks for good. -/
def PoolState.closed : PoolState → Bool
  | .stopping | .stopped => true
  | _ => false

theorem not_closed_of_open (h : delayRejection p = none) : p.closed = false := by
  cases p <;> first | rfl | cases h

theorem Ensured.poolState (he : Ensured s s₁) : s₁.poolState = s.poolState := by
  cases he <;> rfl

theorem Ensured.history (he : Ensured s s₁) :
    s₁.pending = s.pending ∧ s₁.executions = s.executions := by
  cases he <;> exact ⟨rfl, rfl⟩

/-- What a step may do to a closed pool: it stays closed, stays stopped, and nothing is added
    to what is pending; a callback is invoked only by a coroutine that has a task. -/
structure StaysClosed (s s' : State) : Prop where
  closed : s'.poolState.closed
  stopped : s.poolState = .stopped → s'.poolState = .stopped
  pending : s'.pending ≤ s.pending
  executions : s'.executions = s.executions ∨ s.dispatched ≠ []

theorem StaysClosed.of_eq (hd : s.poolState.closed)
    (hp : s'.poolState = s.poolState := by rfl) (hpend : s'.pending = s.pending := by rfl)
    (he : s'.executions = s.executions := by rfl) : StaysClosed s s' :=
  ⟨by rw [hp]; exact hd, fun h => by rw [hp]; exact h, by omega, .inl he⟩

/-- A coroutine only counts `pending` down. -/
theorem coroutineMove_staysClosed {x : Coroutine} (hx : s.coroutines[k]? = some x)
    (hm : CoroutineMove s k x s') (hd : s.poolState.closed) : StaysClosed s s' := by
  cases hm with
  | invoke hpc =>
    refine ⟨hd, id, Int.le_refl _, .inr (ne_nil_of_mem (a := x.task) ?_)⟩
    exact mem_filterMap.mpr ⟨x, mem_of_getElem? hx, by rw [Coroutine.holds, hpc]⟩
  | finish =>
    refine ⟨hd, id, ?_, .inl rfl⟩
    show s.pending - 1 ≤ s.pending
    omega
  | _ => exact .of_eq hd

/-- A closed pool accepts nothing. -/
theorem delayMove_staysClosed (hm : DelayMove s i c s')
    (hd : s.poolState.closed) : StaysClosed s s' := by
  have hopen : delayRejection s.poolState ≠ none := by
    intro h
    simp [not_closed_of_open h] at hd
  cases hm with
  | storageFail _ _ _ h | immediate _ _ _ h | enqueue _ _ _ h => exact absurd h hopen
  | nodeFail _ _ _ s₁ hs₁ => exact .of_eq hd hs₁.poolState hs₁.history.1 hs₁.history.2
  | _ => exact .of_eq hd

/-- **Closing is final.** -/
theorem step_staysClosed (hs : step s a = some s') (hd : s.poolState.closed) :
    StaysClosed s s' := by
  cases move_of_step hs with
  | world | startAgain | callDelay | callback | callStop => exact .of_eq hd
  | startFail hmu hst | start hmu hst => rw [hst] at hd; cases hd
  | delay i c hc s' hm => exact delayMove_staysClosed hm hd
  | cancel k x c hx hc s' hm => cases hm <;> exact .of_eq hd
  | scheduler s' hm =>
    cases hm with
    | expedite t | finalExpedite t =>
      obtain ⟨timers, heq⟩ := expedite_eq s t
      rw [heq]
      exact .of_eq hd
    | _ => exact .of_eq hd
  | coroutine k x hx s' hm => exact coroutineMove_staysClosed hx hm hd
  | stop k x hx s' hm =>
    cases hm with
    | own hpc hmu hst hst' =>
      cases hp : s.poolState <;> simp_all [PoolState.closed]
    | store => exact ⟨rfl, fun _ => rfl, Int.le_refl _, .inl rfl⟩
    | _ => exact .of_eq hd

/-! ### Counting -/

/-- The tasks of the pool that are not finished, wherever they are. -/
def State.outstanding (s : State) : List TaskId := s.queuedTasks ++ s.scheduler.held ++ s.dispatched

theorem TaskInv.perm (h : TaskInv s) : s.accepted.Perm (s.outstanding ++ s.finished) := by
  refine perm_iff_count.mpr (fun t => ?_)
  rw [h.balance t, outstanding]
  simp only [count_append]

/-- **The pending count** is the number of accepted tasks that are not finished. -/
theorem TaskInv.pending_eq (h : TaskInv s) : s.pending = s.outstanding.length := by
  have hlen := h.perm.length_eq
  rw [length_append] at hlen
  have := h.pending
  omega

theorem TaskInv.dispatched_nil (h : TaskInv s) (hp : s.pending = 0) : s.dispatched = [] := by
  have hlen := h.pending_eq
  rw [hp, outstanding, length_append] at hlen
  exact length_eq_zero_iff.mp (by omega)

/-- Nothing can become pending again in a closed pool. -/
theorem step_pending_zero (h : TaskInv s) (hs : step s a = some s')
    (hd : s.poolState.closed) (hp : s.pending = 0) : s'.pending = 0 := by
  have hle := (step_staysClosed hs hd).pending
  have hnn := (step_taskInv h hs).pending_eq
  omega

/-! ### stop -/

/-- The `stop` call that does the work. -/
def StopPc.owns : StopPc → Bool
  | .waitPending | .finishWait | .stopScheduler | .joinScheduler | .cancelTasks
  | .storeStopped => true
  | _ => false

/-- A `stop` call that has seen `pending` at zero. -/
def StopPc.drained : StopPc → Bool
  | .stopScheduler | .joinScheduler | .cancelTasks | .storeStopped => true
  | _ => false

/-- What the `stop` calls know about the pool. -/
structure StopInv (s : State) : Prop where
  owner : ∀ x ∈ s.stops, x.pc.owns → s.poolState.closed
  drained : ∀ x ∈ s.stops, x.pc.drained → s.pending = 0
  returned : ∀ x ∈ s.stops, x.pc = .returned → s.poolState = .stopped
  stopped : s.poolState = .stopped → s.pending = 0

theorem owns_of_drained {pc : StopPc} (h : pc.drained) : pc.owns := by
  cases pc <;> first | rfl | cases h

/-- Steps of others keep what the `stop` calls know. -/
theorem StopInv.frame (h : StopInv s) (ht : TaskInv s) (hs : step s a = some s')
    (hstops : s'.stops = s.stops := by rfl)
    (hstopped : s'.poolState = .stopped → s.poolState = .stopped := by exact id) : StopInv s' where
  owner := by
    intro x hx hpc
    rw [hstops] at hx
    exact (step_staysClosed hs (h.owner x hx hpc)).closed
  drained := by
    intro x hx hpc
    rw [hstops] at hx
    exact step_pending_zero ht hs (h.owner x hx (owns_of_drained hpc)) (h.drained x hx hpc)
  returned := by
    intro x hx hpc
    rw [hstops] at hx
    have hst := h.returned x hx hpc
    exact (step_staysClosed hs (by rw [hst]; rfl)).stopped hst
  stopped := by
    intro hst
    have hst := hstopped hst
    exact step_pending_zero ht hs (by rw [hst]; rfl) (h.stopped hst)

/-- A `stop` call that moves to a place whose knowledge it has. -/
theorem StopInv.setStop (h : StopInv s) {pc : StopPc}
    (hown : pc.owns → s.poolState.closed := by rintro ⟨⟩)
    (hdr : pc.drained → s.pending = 0 := by rintro ⟨⟩)
    (hret : pc = .returned → s.poolState = .stopped := by simp) : StopInv (s.setStop k x pc) where
  owner := forall_mem_set h.owner hown
  drained := forall_mem_set h.drained hdr
  returned := forall_mem_set h.returned hret
  stopped := h.stopped

/-- The state of the pool moves on. -/
theorem StopInv.setPoolState (h : StopInv s) (hp : p.closed)
    (hst : s.poolState = .stopped → p = .stopped) (hz : p = .stopped → s.pending = 0) :
    StopInv { s with poolState := p } where
  owner _ _ _ := hp
  drained := h.drained
  returned y hy hpc := hst (h.returned y hy hpc)
  stopped := hz

/-- A step of `stop`. -/
theorem stopMove_stopInv (h : StopInv s) (hx : s.stops[k]? = some x)
    (hm : StopMove s k x s') : StopInv s' := by
  have hown := h.owner x (mem_of_getElem? hx)
  have hdrained := h.drained x (mem_of_getElem? hx)
  cases hm with
  | alreadyStopped hpc hst => exact h.setStop (by rintro ⟨⟩) (by rintro ⟨⟩) (fun _ => hst)
  | wait hpc hst => exact h.setStop
  | own hpc hmu hst hst' =>
    have hstopping := h.setPoolState (p := .stopping) rfl (fun hs => absurd hs hst') (by simp)
    exact hstopping.setStop (fun _ => rfl)
  | finish hpc => exact h.setStop (fun _ => hown (by rw [hpc]; rfl))
  | drained hpc hp pc hpc' =>
    refine h.setStop (fun _ => hown (by rw [hpc]; rfl)) (fun _ => hp) (fun hret => ?_)
    rw [hret] at hpc'
    split at hpc' <;> cases hpc'
  | signal hpc | join hpc | cancelTasks hpc =>
    exact { h.setStop (fun _ => hown (by rw [hpc]; rfl))
      (fun _ => hdrained (by rw [hpc]; rfl)) with }
  | store hpc =>
    have hp := hdrained (by rw [hpc]; rfl)
    have hstopped := h.setPoolState (p := .stopped) rfl (fun _ => rfl) (fun _ => hp)
    exact hstopped.setStop (fun _ => rfl) (fun _ => hp) (fun _ => rfl)

theorem Ensured.stops (he : Ensured s s₁) : s₁.stops = s.stops := by
  cases he <;> rfl

theorem DelayMove.stops (hm : DelayMove s i c s') :
    s'.stops = s.stops ∧ (s'.poolState = .stopped → s.poolState = .stopped) := by
  cases hm with
  | storageFail => exact ⟨rfl, fun h => by cases h⟩
  | nodeFail _ _ _ s₁ he | immediate _ _ _ _ s₁ he | enqueue _ _ _ _ s₁ he =>
    exact ⟨he.stops, fun h => he.poolState ▸ h⟩
  | _ => exact ⟨rfl, id⟩

/-- Every step keeps what a `stop` call has seen. -/
theorem step_stopInv (h : StopInv s) (ht : TaskInv s) (hs : step s a = some s') : StopInv s' := by
  cases move_of_step hs with
  | world | startAgain | callDelay | callback => exact h.frame ht hs
  | startFail => exact h.frame ht hs rfl (fun hst => by cases hst)
  | start hmu hst s₁ hs₁ => exact h.frame ht hs hs₁.stops (fun hst => by cases hst)
  | delay i c hc s' hm => exact h.frame ht hs hm.stops.1 hm.stops.2
  | cancel k x c hx hc s' hm | coroutine k x hx s' hm => cases hm <;> exact h.frame ht hs
  | scheduler s' hm =>
    cases hm with
    | expedite t | finalExpedite t =>
      obtain ⟨timers, heq⟩ := expedite_eq s t
      rw [heq] at hs ⊢
      exact h.frame ht hs
    | _ => exact h.frame ht hs
  | callStop x hpc =>
    have hnew : x.pc.owns = false ∧ x.pc.drained = false ∧ x.pc ≠ .returned := by
      rcases hpc with hpc | ⟨e, hpc⟩ <;> rw [hpc] <;> exact ⟨rfl, rfl, by simp⟩
    exact ⟨forall_mem_concat h.owner (by simp [hnew]), forall_mem_concat h.drained (by simp [hnew]),
      forall_mem_concat h.returned (by simp [hnew]), h.stopped⟩
  | stop k x hx s' hm => exact stopMove_stopInv h hx hm

theorem reachable_stopInv (h : system.ReachableIf ok s) : StopInv s := by
  refine h.invariant ?_ ?_
  · constructor <;> simp [system, init]
  · intro s a s' hr hi _ hs
    exact step_stopInv hi (reachable_taskInv hr) hs

/-- **Quiet for good.**  In a stopped pool nothing is pending, and no run that goes on from
    it invokes a callback. -/
theorem quiet_of_stopped (hr : system.ReachableIf ok s) (hst : s.poolState = .stopped)
    (h : system.Steps ok s t) :
    t.poolState = .stopped ∧ t.pending = 0 ∧ t.executions = s.executions := by
  induction h with
  | refl => exact ⟨hst, (reachable_stopInv hr).stopped hst, rfl⟩
  | @step t t' a ht hok hs ih =>
    obtain ⟨hstt, hpt, hext⟩ := ih
    have hrt := ht.reachableIf hr
    have hinv := reachable_taskInv hrt
    have hcl : t.poolState.closed := by rw [hstt]; rfl
    have hstays := step_staysClosed hs hcl
    refine ⟨hstays.stopped hstt, step_pending_zero hinv hs hcl hpt, ?_⟩
    rcases hstays.executions with he | hne
    · rw [he, hext]
    · exact absurd (hinv.dispatched_nil hpt) hne

/-! ### Where a task is -/

/-- The task is in one place, its callback has been invoked at most once and is not over. -/
structure State.Pending (s : State) (t : TaskId) : Prop where
  outstanding : s.outstanding.count t = 1
  executions : s.executions.count t = s.runningTasks.count t
  running : s.runningTasks.count t ≤ 1
  finished : s.finished.count t = 0

/-- The callback was invoked once and is over. -/
structure State.Finished (s : State) (t : TaskId) : Prop where
  outstanding : s.outstanding.count t = 0
  executions : s.executions.count t = 1
  finished : s.finished.count t = 1

variable {pc : DelayPc} {t : TaskId}

/-- **One place.**  An accepted task is pending or has finished. -/
theorem TaskInv.placed (h : TaskInv s) (ht : t ∈ s.accepted) :
    s.Pending t ∨ s.Finished t := by
  have hpos := count_pos_iff.mpr ht
  have hle := h.count_le_one t
  have hperm := h.perm.count_eq t
  rw [count_append] at hperm
  have hbal := h.balance t
  have hrun := runningTasks_count_le s t
  have hcl := claimedTasks_count_le s t
  have hex := h.executed t
  by_cases hf : s.finished.count t = 0
  · exact .inl ⟨by omega, by omega, by omega, hf⟩
  · exact .inr ⟨by omega, by omega, by omega⟩

/-- A task that was not accepted has not been executed. -/
theorem TaskInv.not_executed (h : TaskInv s) (ht : t ∉ s.accepted) :
    t ∉ s.executions := by
  have hbal := h.balance t
  have hrun := runningTasks_count_le s t
  have hcl := claimedTasks_count_le s t
  have hex := h.executed t
  rw [count_eq_zero.mpr ht] at hbal
  exact count_eq_zero.mp (by omega)

/-- The marks of a call that is over are decided by how it ended. -/
theorem TaskInv.accepted_iff_pc (h : TaskInv s) (hpc : s.pcOf i = some pc) :
    i ∈ s.accepted ↔ pc.accepted := by
  obtain ⟨c, hc, rfl⟩ := map_eq_some_iff.mp hpc
  rw [h.accepted_iff, mark_eq hc]
  exact Iff.rfl

/-! ### The contract of the delay pool -/

/-- **Exactly once.**  Whatever the interleaving:
    a callback whose `delay` returned is pending or has run exactly once;
    a callback whose `delay` threw never runs, however the run goes on;
    `pending` is the number of accepted minus the number of finished tasks, and not negative;
    and when a `stop` has returned, `pending` is zero, no callback is running, and none ever
    starts again. -/
theorem delayPool_exactlyOnce {s : State} (h : system.Reachable s) :
    (∀ i, s.pcOf i = some .returned → s.Pending i ∨ s.Finished i) ∧
    (∀ i e, s.pcOf i = some (.threw e) →
      ∀ t, system.Steps (fun _ _ => True) s t → i ∉ t.executions) ∧
    (s.pending = s.accepted.length - s.finished.length ∧ 0 ≤ s.pending) ∧
    (∀ x ∈ s.stops, x.pc = .returned → s.pending = 0 ∧ s.runningTasks = [] ∧
      ∀ t, system.Steps (fun _ _ => True) s t →
        t.pending = 0 ∧ t.executions = s.executions) := by
  have hinv := reachable_taskInv h
  refine ⟨?_, ?_, ⟨hinv.pending, ?_⟩, ?_⟩
  · intro i hpc
    exact hinv.placed ((hinv.accepted_iff_pc hpc).mpr rfl)
  · intro i e hpc t ht
    have hpct := steps_over ht hpc rfl
    have hinvt := reachable_taskInv (ht.reachableIf h)
    refine hinvt.not_executed (fun hacc => ?_)
    cases (hinvt.accepted_iff_pc hpct).mp hacc
  · rw [hinv.pending_eq]
    omega
  · intro x hx hret
    have hst := (reachable_stopInv h).returned x hx hret
    have hp := (reachable_stopInv h).stopped hst
    refine ⟨hp, ?_, fun t ht => (quiet_of_stopped h hst ht).2⟩
    -- Without a dispatched task no coroutine runs one.
    refine eq_nil_iff_forall_not_mem.mpr (fun t hmem => ?_)
    have hpos := count_pos_iff.mpr hmem
    have hrun := runningTasks_count_le s t
    have hcl := claimedTasks_count_le s t
    rw [hinv.dispatched_nil hp, count_nil] at hcl
    omega

/-- A timed callback from `delay` to the end of `stop`: it is cancelled before it is due, and
    its first dispatch fails. -/
def cancelledSchedule : List Action :=
  [ [.start false, .callDelay { stopToken := some 7 } 10],
    replicate 9 (.delay 0 false false),
    [.fire 7, .callback 0], replicate 5 (.cancel 0),
    -- Drain the inbox, take the task, fail to dispatch it, put it back.
    replicate 4 (.scheduler false false), [.scheduler true false],
    replicate 6 (.scheduler false false),
    replicate 5 (.coroutine 0),
    [.callStop {} false], replicate 4 (.stop 0), replicate 5 (.scheduler false false),
    replicate 3 (.stop 0) ].flatten

theorem delayPool_exactlyOnce_cancelled :
    ∃ s, system.Reachable s ∧ s.executions = [0] ∧ s.pending = 0 ∧ s.runningTasks = [] ∧
      (s.Pending 0 ∨ s.Finished 0) := by
  obtain ⟨s, hs, hret, hstop, hex⟩ := system.exists_reachable_of_run cancelledSchedule
    (fun s => s.pcOf 0 = some .returned ∧ s.stops = [⟨{}, .returned⟩] ∧
      s.executions = [0]) (by decide +kernel)
  obtain ⟨hplace, -, -, hquiet⟩ := delayPool_exactlyOnce hs
  obtain ⟨hpend, hrun, -⟩ := hquiet ⟨{}, .returned⟩ (by rw [hstop]; exact mem_cons_self) rfl
  exact ⟨s, hs, hex, hpend, hrun, hplace 0 hret⟩

end ServiceLib.DelayPool
