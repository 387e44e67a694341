import ServiceLib.DelayPool.Step

namespace ServiceLib.DelayPool

/-!
# Delay pool — what one step of a thread can do

The inversion of the step functions.  Each relation lists the moves of one kind of thread
with their guards and their effect; the invariants are proved over these lists.
-/

open State

/-! ### delay -/

/-- What `ensureTaskStorageLocked` leaves behind when it returns. -/
@[grind intro] inductive Ensured (s : State) : State → Prop
  | present (ht : s.tasks) : Ensured s s
  | fresh (ht : s.tasks = false) :
      Ensured s { s with tasks := true, scheduler := .loopHead }

/-- The moves of the `delay` call `i`, whose record is `c`. -/
@[grind intro] inductive DelayMove (s : State) (i : TaskId) (c : DelayCall) : State → Prop
  | begin (hpc : c.pc = .entered) :
      DelayMove s i c (s.setCall i { c with pc := .checking s.world.now })
  | reject (now : Time) (e : DelayError) (hpc : c.pc = .checking now) :
      DelayMove s i c (s.setCall i { c with pc := .threw e })
  | planTimed (now runAt : Time) (hpc : c.pc = .checking now)
      (hrun : runAt = runAtFor now c.delayDuration c.ctx.deadline) (hlt : now < runAt) :
      DelayMove s i c
        (s.setCall i { c with runAt := runAt, pc := .registering now c.ctx.tokens })
  | planNow (now runAt : Time) (hpc : c.pc = .checking now)
      (hrun : runAt = runAtFor now c.delayDuration c.ctx.deadline) (hle : runAt ≤ now) :
      DelayMove s i c (s.setCall i { c with runAt := runAt, pc := .locking now })
  | registerFail (now : Time) (rest : List TokenId) (hpc : c.pc = .registering now rest) :
      DelayMove s i c (s.setCall i { c with pc := .unwinding .resource })
  | fired (now : Time) (τ : TokenId) (rest : List TokenId)
      (hpc : c.pc = .registering now (τ :: rest)) (hτ : s.world.stopRequested τ) :
      DelayMove s i c
        (s.setCall i { c with cancelRequested := true, pc := .registering now rest })
  | subscribe (now : Time) (τ : TokenId) (rest : List TokenId)
      (hpc : c.pc = .registering now (τ :: rest)) (hτ : s.world.stopRequested τ = false) :
      DelayMove s i c { s.setCall i { c with pc := .registering now rest } with
        subs := s.subs ++ [(τ, i)] }
  | registered (now : Time) (hpc : c.pc = .registering now []) :
      DelayMove s i c (s.setCall i { c with pc := .locking now })
  | refuse (now : Time) (e : DelayError) (hpc : c.pc = .locking now) (hmu : s.mu = none) :
      DelayMove s i c (s.setCall i { c with pc := .unwinding e })
  | storageFail (now : Time) (hpc : c.pc = .locking now) (hmu : s.mu = none)
      (hopen : delayRejection s.poolState = none) (ht : s.tasks = false) :
      DelayMove s i c
        ({ s with poolState := .failed }.setCall i { c with pc := .unwinding .resource })
  | nodeFail (now : Time) (hpc : c.pc = .locking now) (hmu : s.mu = none) (s₁ : State)
      (hs₁ : Ensured s s₁) :
      DelayMove s i c (s₁.setCall i { c with pc := .unwinding .resource })
  | immediate (now : Time) (hpc : c.pc = .locking now) (hmu : s.mu = none)
      (hopen : delayRejection s.poolState = none) (s₁ : State) (hs₁ : Ensured s s₁)
      (hle : c.runAt ≤ now) :
      DelayMove s i c (((s₁.accept i).dispatch i).setCall i { c with pc := .leaving })
  | enqueue (now : Time) (hpc : c.pc = .locking now) (hmu : s.mu = none)
      (hopen : delayRejection s.poolState = none) (s₁ : State) (hs₁ : Ensured s s₁)
      (hlt : now < c.runAt) : DelayMove s i c ((s₁.accept i).enqueue i c)
  | admitted (hpc : c.pc = .admitting) :
      DelayMove s i c (s.setCall i { c with admitted := true, pc := .rechecking })
  | recheck (hpc : c.pc = .rechecking) :
      DelayMove s i c (s.setCall i { c with
        pc := if c.cancelRequested then .publishing .exchanging else .signalling })
  | published (hpc : c.pc = .publishing .exchanging) (hp : c.cancellationPublished) :
      DelayMove s i c (s.setCall i { c with pc := .signalling })
  | exchange (hpc : c.pc = .publishing .exchanging) (hp : c.cancellationPublished = false) :
      DelayMove s i c
        (s.setCall i { c with cancellationPublished := true, pc := .publishing .pushing })
  | push (hpc : c.pc = .publishing .pushing) :
      DelayMove s i c
        ({ s with inbox := i :: s.inbox }.setCall i { c with pc := .publishing .sending })
  | send (hpc : c.pc = .publishing .sending) :
      DelayMove s i c ({ s with queueChanged := true }.setCall i { c with pc := .signalling })
  | signal (hpc : c.pc = .signalling) :
      DelayMove s i c { s.setCall i { c with pc := .leaving } with
        queueChanged := s.queueChanged || s.isFirst i, mu := none }
  | leave (hpc : c.pc = .leaving) : DelayMove s i c (s.setCall i { c with pc := .returned })
  | unwind (e : DelayError) (hpc : c.pc = .unwinding e) :
      DelayMove s i c
        { s.setCall i { c with pc := .threw e } with subs := s.subs.filter (·.2 ≠ i) }

variable {s s' : State} {f g : Bool} {k : Nat} {i : TaskId}

theorem ensured_of_ensureTaskStorage (h : (s.ensureTaskStorage f).2) :
    Ensured s (s.ensureTaskStorage f).1 := by
  grind [ensureTaskStorage]

/-- Without storage the pool has failed. -/
theorem ensureTaskStorage_fail (h : (s.ensureTaskStorage f).2 = false) :
    s.tasks = false ∧ (s.ensureTaskStorage f).1 = { s with poolState := .failed } := by
  grind [ensureTaskStorage]

/-- What `delay` does under `mu`. -/
theorem delayMove_of_admitDelay {c : DelayCall} {now : Time}
    (hpc : c.pc = .locking now) (hmu : s.mu = none) :
    DelayMove s i c (s.admitDelay i c now f g) := by
  unfold admitDelay
  split
  · exact .refuse now _ hpc hmu
  next hopen =>
    dsimp only
    split
    next hfail =>
      obtain ⟨ht, heq⟩ := ensureTaskStorage_fail (by simpa using hfail)
      rw [heq]
      exact .storageFail now hpc hmu hopen ht
    next hok =>
      have hens : Ensured s (s.ensureTaskStorage f).1 :=
        ensured_of_ensureTaskStorage (by simpa using hok)
      split
      · exact .nodeFail now hpc hmu _ hens
      · split
        · exact .immediate now hpc hmu hopen _ hens ‹_›
        · exact .enqueue now hpc hmu hopen _ hens (Int.not_le.mp ‹_›)

/-- A step of `delay` is one of its moves. -/
theorem delayMove_of_delayStep (h : s.delayStep i f g = some s') :
    ∃ c, s.calls[i]? = some c ∧ DelayMove s i c s' := by
  unfold delayStep at h
  split at h
  · cases h
  next c hc =>
    refine ⟨c, hc, ?_⟩
    split at h
    case h_5 =>
      split at h <;> cases h
      exact delayMove_of_admitDelay ‹_› (not_not.mp ‹_›)
    case h_8 p hpc =>
      cases h
      cases p with
      | exchanging => grind [publishStep]
      | pushing => exact .push hpc
      | sending => exact .send hpc
    all_goals grind

/-! ### Cancellation callbacks -/

/-- The moves of the thread `k` in the cancellation callback of a task with record `c`. -/
@[grind intro] inductive CancelMove (s : State) (k : Nat) (x : Canceller) (c : DelayCall) :
    State → Prop
  | again (hpc : x.pc = .requesting) (hr : c.cancelRequested) :
      CancelMove s k x c (s.setCanceller k x .finished)
  | request (hpc : x.pc = .requesting) (hr : c.cancelRequested = false) :
      CancelMove s k x c
        ((s.setCall x.task { c with cancelRequested := true }).setCanceller k x .checkAdmitted)
  | early (hpc : x.pc = .checkAdmitted) (ha : c.admitted = false) :
      CancelMove s k x c (s.setCanceller k x .finished)
  | admitted (hpc : x.pc = .checkAdmitted) (ha : c.admitted) :
      CancelMove s k x c (s.setCanceller k x (.publishing .exchanging))
  | published (hpc : x.pc = .publishing .exchanging) (hp : c.cancellationPublished) :
      CancelMove s k x c ((s.setCall x.task c).setCanceller k x .finished)
  | exchange (hpc : x.pc = .publishing .exchanging) (hp : c.cancellationPublished = false) :
      CancelMove s k x c ((s.setCall x.task { c with cancellationPublished := true }).setCanceller
        k x (.publishing .pushing))
  | push (hpc : x.pc = .publishing .pushing) :
      CancelMove s k x c (({ s with inbox := x.task :: s.inbox }.setCall x.task c).setCanceller
        k x (.publishing .sending))
  | send (hpc : x.pc = .publishing .sending) :
      CancelMove s k x c (({ s with queueChanged := true }.setCall x.task c).setCanceller
        k x .finished)

/-- A step of a stop callback is one of its moves. -/
theorem cancelMove_of_cancelStep (h : s.cancelStep k = some s') :
    ∃ x c, s.cancellers[k]? = some x ∧ s.calls[x.task]? = some c ∧ CancelMove s k x c s' := by
  unfold cancelStep at h
  split at h
  · cases h
  next x hx =>
    split at h
    · cases h
    next c hc =>
      refine ⟨x, c, hx, hc, ?_⟩
      split at h
      case h_3 p hpc =>
        cases h
        cases p with
        | exchanging => grind [publishStep]
        | pushing => exact .push hpc
        | sending => exact .send hpc
      all_goals grind

/-! ### The scheduler -/

/-- The moves of the scheduler. -/
@[grind intro] inductive SchedulerMove (s : State) : State → Prop
  | drain (hpc : s.scheduler = .loopHead) :
      SchedulerMove s { s with scheduler := .draining s.inbox, inbox := [] }
  | expedite (t : TaskId) (rest : List TaskId) (hpc : s.scheduler = .draining (t :: rest))
      (hmu : s.mu = none) : SchedulerMove s { s.expedite t with scheduler := .draining rest }
  | drained (hpc : s.scheduler = .draining []) :
      SchedulerMove s { s with scheduler := .inspecting }
  | stopping (hpc : s.scheduler = .inspecting) (hmu : s.mu = none)
      (hstop : s.schedulerStopping) :
      SchedulerMove s { s with scheduler := .finalDrain }
  | idle (hpc : s.scheduler = .inspecting) (hmu : s.mu = none) (ht : s.timers = []) :
      SchedulerMove s { s with scheduler := .waiting none }
  | sleep (hpc : s.scheduler = .inspecting) (hmu : s.mu = none) (key : Time) (t : TaskId)
      (rest : List (Time × TaskId)) (ht : s.timers = (key, t) :: rest)
      (hkey : s.world.now < key) :
      SchedulerMove s { s with scheduler := .waiting (some key) }
  | take (hpc : s.scheduler = .inspecting) (hmu : s.mu = none) (key : Time) (t : TaskId)
      (rest : List (Time × TaskId)) (ht : s.timers = (key, t) :: rest)
      (hkey : key ≤ s.world.now) (hstop : s.schedulerStopping = false) :
      SchedulerMove s { s.setQueued t false with timers := rest, scheduler := .ready t }
  | wake (next : Option Time) (hpc : s.scheduler = .waiting next) (qc : Bool) :
      SchedulerMove s { s with queueChanged := qc, scheduler := .loopHead }
  | dispatch (t : TaskId) (hpc : s.scheduler = .ready t) :
      SchedulerMove s { s.dispatch t with scheduler := .loopHead }
  | dispatchFail (t : TaskId) (hpc : s.scheduler = .ready t) :
      SchedulerMove s { s with scheduler := .retrying t }
  | retry (t : TaskId) (hpc : s.scheduler = .retrying t) (hmu : s.mu = none) :
      SchedulerMove s { s.setQueued t true with
        timers := insertTimer s.world.now t s.timers, scheduler := .retryWait }
  | retryWake (hpc : s.scheduler = .retryWait) (qc : Bool) :
      SchedulerMove s { s with queueChanged := qc, scheduler := .loopHead }
  | finalDrain (hpc : s.scheduler = .finalDrain) :
      SchedulerMove s { s with scheduler := .finalDraining s.inbox, inbox := [] }
  | finalExpedite (t : TaskId) (rest : List TaskId)
      (hpc : s.scheduler = .finalDraining (t :: rest)) (hmu : s.mu = none) :
      SchedulerMove s { s.expedite t with scheduler := .finalDraining rest }
  | finish (hpc : s.scheduler = .finalDraining []) :
      SchedulerMove s { s with scheduler := .finished }

theorem schedulerMove_of_inspect (hpc : s.scheduler = .inspecting) (hmu : s.mu = none) :
    SchedulerMove s s.inspect := by
  unfold inspect
  split <;> grind

/-- A step of the scheduler is one of its moves. -/
theorem schedulerMove_of_schedulerStep (h : s.schedulerStep f g = some s') :
    SchedulerMove s s' := by
  unfold schedulerStep at h
  split at h
  case h_4 =>
    split at h <;> cases h
    exact schedulerMove_of_inspect ‹_› (not_not.mp ‹_›)
  all_goals grind

/-! ### Dispatched coroutines -/

/-- The moves of the coroutine `k`. -/
@[grind intro] inductive CoroutineMove (s : State) (k : Nat) (x : Coroutine) : State → Prop
  | lose (hpc : x.pc = .claiming) (c : DelayCall) (hc : s.calls[x.task]? = some c)
      (hcl : c.claimed) : CoroutineMove s k x (s.setCoroutine k x .finished)
  | claim (hpc : x.pc = .claiming) (c : DelayCall) (hc : s.calls[x.task]? = some c)
      (hcl : c.claimed = false) :
      CoroutineMove s k x
        ((s.setCall x.task { c with claimed := true }).setCoroutine k x .resetting)
  | reset (hpc : x.pc = .resetting)
      (hidle : ∀ y ∈ s.cancellers, y.task ≠ x.task ∨ y.pc = .finished) :
      CoroutineMove s k x { s.setCoroutine k x .invoking with
        subs := s.subs.filter (·.2 ≠ x.task) }
  | invoke (hpc : x.pc = .invoking) :
      CoroutineMove s k x { s.setCoroutine k x .running with
        executions := s.executions ++ [x.task] }
  | finish (hpc : x.pc = .running) (hmu : s.mu = none) :
      CoroutineMove s k x { s.setCoroutine k x .exiting with
        pending := s.pending - 1, finished := s.finished ++ [x.task] }
  | exit (hpc : x.pc = .exiting) : CoroutineMove s k x (s.setCoroutine k x .finished)

/-- A step of a coroutine is one of its moves. -/
theorem coroutineMove_of_coroutineStep (h : s.coroutineStep k = some s') :
    ∃ x, s.coroutines[k]? = some x ∧ CoroutineMove s k x s' := by
  unfold coroutineStep at h
  split at h
  · cases h
  next x hx =>
    refine ⟨x, hx, ?_⟩
    split at h
    case h_4 hpc =>
      split at h <;> cases h
      exact .finish hpc (not_not.mp ‹_›)
    all_goals grind

/-! ### stop -/

/-- The moves of the `stop` call `k`. -/
@[grind intro] inductive StopMove (s : State) (k : Nat) (x : StopCall) : State → Prop
  | alreadyStopped (hpc : x.pc = .entered ∨ x.pc = .waitStopped) (hst : s.poolState = .stopped) :
      StopMove s k x (s.setStop k x .returned)
  | wait (hpc : x.pc = .entered) (hst : s.poolState = .stopping) :
      StopMove s k x (s.setStop k x .waitStopped)
  | own (hpc : x.pc = .entered) (hmu : s.mu = none) (hst : s.poolState ≠ .stopping)
      (hst' : s.poolState ≠ .stopped) :
      StopMove s k x { s.setStop k x .waitPending with poolState := .stopping }
  | finish (hpc : x.pc = .waitPending) : StopMove s k x (s.setStop k x .finishWait)
  | drained (hpc : x.pc = .finishWait) (hp : s.pending = 0) (pc : StopPc)
      (hpc' : pc = if s.tasks then .stopScheduler else .storeStopped) :
      StopMove s k x (s.setStop k x pc)
  | signal (hpc : x.pc = .stopScheduler) :
      StopMove s k x { s.setStop k x .joinScheduler with
        schedulerStopping := true, queueChanged := true }
  | join (hpc : x.pc = .joinScheduler) (hs : s.scheduler = .finished) :
      StopMove s k x (s.setStop k x .cancelTasks)
  | cancelTasks (hpc : x.pc = .cancelTasks)
      (hall : ∀ y ∈ s.coroutines, y.pc = .finished) :
      StopMove s k x (s.setStop k x .storeStopped)
  | store (hpc : x.pc = .storeStopped) :
      StopMove s k x { s.setStop k x .returned with poolState := .stopped }

/-- A step of `stop` is one of its moves. -/
theorem stopMove_of_stopStep (h : s.stopStep k = some s') :
    ∃ x, s.stops[k]? = some x ∧ StopMove s k x s' := by
  unfold stopStep at h
  split at h
  · cases h
  next x hx =>
    refine ⟨x, hx, ?_⟩
    split at h <;> grind

/-! ### The steps of a delay pool -/

/-- The steps of a delay pool by who makes them. -/
@[grind intro] inductive Move (s : State) : State → Prop
  | world (w : World) : Move s { s with world := w }
  | startAgain : Move s s
  | startFail (hmu : s.mu = none) (hst : s.poolState = .created) (ht : s.tasks = false) :
      Move s { s with poolState := .failed }
  | start (hmu : s.mu = none) (hst : s.poolState = .created) (s₁ : State) (hs₁ : Ensured s s₁) :
      Move s { s₁ with poolState := .running }
  | callDelay (ctx : Context) (delayDuration : Time) :
      Move s { s with calls := s.calls ++ [{ ctx, delayDuration, pc := .entered }] }
  | delay (i : TaskId) (c : DelayCall) (hc : s.calls[i]? = some c) (s' : State)
      (hm : DelayMove s i c s') : Move s s'
  | callback (k : Nat) (τ : TokenId) (t : TaskId) (hk : s.subs[k]? = some (τ, t)) :
      Move s { s with
        subs := s.subs.eraseIdx k, cancellers := s.cancellers ++ [⟨t, .requesting⟩] }
  | cancel (k : Nat) (x : Canceller) (c : DelayCall) (hx : s.cancellers[k]? = some x)
      (hc : s.calls[x.task]? = some c) (s' : State) (hm : CancelMove s k x c s') : Move s s'
  | scheduler (s' : State) (hm : SchedulerMove s s') : Move s s'
  | coroutine (k : Nat) (x : Coroutine) (hx : s.coroutines[k]? = some x) (s' : State)
      (hm : CoroutineMove s k x s') : Move s s'
  | callStop (x : StopCall) (hpc : x.pc = .entered ∨ ∃ e, x.pc = .threw e) :
      Move s { s with stops := s.stops ++ [x] }
  | stop (k : Nat) (x : StopCall) (hx : s.stops[k]? = some x) (s' : State)
      (hm : StopMove s k x s') : Move s s'

/-- `start` in every state of the pool. -/
theorem move_of_start (h : s.start f = some s') : Move s s' := by
  unfold start at h
  split at h
  · cases h
  · cases hok : (s.ensureTaskStorage f).2 with
    | true =>
      have hens := ensured_of_ensureTaskStorage hok
      grind
    | false =>
      have hfail := ensureTaskStorage_fail hok
      grind

/-- Every step of a delay pool is one of these moves. -/
theorem move_of_step {a : Action} (hs : step s a = some s') : Move s s' := by
  cases a with
  | tick now =>
    simp only [step] at hs
    split at hs <;> cases hs
    exact .world { s.world with now := now }
  | fire τ => cases hs; exact .world { s.world with fired := τ :: s.world.fired }
  | start f => exact move_of_start hs
  | callDelay ctx d => cases hs; exact .callDelay ctx d
  | delay i f g =>
    obtain ⟨c, hc, hm⟩ := delayMove_of_delayStep hs
    exact .delay i c hc s' hm
  | callback k =>
    simp only [step, runCallback] at hs
    split at hs
    · cases hs
    · split at hs <;> cases hs
      exact .callback k _ _ ‹_›
  | cancel k =>
    obtain ⟨x, c, hx, hc, hm⟩ := cancelMove_of_cancelStep hs
    exact .cancel k x c hx hc s' hm
  | scheduler f g => exact .scheduler s' (schedulerMove_of_schedulerStep hs)
  | coroutine k =>
    obtain ⟨x, hx, hm⟩ := coroutineMove_of_coroutineStep hs
    exact .coroutine k x hx s' hm
  | callStop ctx b =>
    cases hs
    refine .callStop _ ?_
    cases b
    · exact .inl rfl
    · exact .inr ⟨_, rfl⟩
  | stop k =>
    obtain ⟨x, hx, hm⟩ := stopMove_of_stopStep hs
    exact .stop k x hx s' hm

end ServiceLib.DelayPool
