import ServiceLib.Pool.Step

namespace ServiceLib.Pool

/-!
# Pool — what one step of a coroutine can do

The inversion of the step functions of executors, `addTask` calls and watches.  Each
relation lists the moves of one coroutine with their guards and their effect; every
invariant of the pool is proved over these lists and never unfolds a step function again.
-/

open State

variable {Q R : Type} [WaitQueue Q R]

/-! ### Notification -/

/-- `s'` is `s` with some parked coroutines woken. -/
@[grind intro] inductive Notified (s : State Q R) : State Q R → Prop
  | nobody : Notified s s
  | executor (e : Nat) (c : Bool) (hx : s.executors[e]? = some ⟨.parked, c⟩) :
      Notified s { s with executors := s.executors.set e ⟨.notified, c⟩ }
  | stop (i : Nat) (hw : s.stopWaiters[i]? = some .parked) :
      Notified s { s with stopWaiters := s.stopWaiters.set i .notified }

variable {s s' : State Q R} {w : Option Waiter} {e : Nat} {i : TaskId} {k : Nat}

omit [WaitQueue Q R] in
/-- `NotifyOne` wakes one waiter, if there is one. -/
theorem notified_of_notifyOne (h : s.notifyOne w = some s') : Notified s s' := by
  unfold notifyOne at h
  grind

omit [WaitQueue Q R] in
theorem Notified.ctl (h : Notified s s') : s'.ctl = s.ctl := by
  cases h <;> rfl

/-! ### Executors -/

/-- The moves of executor `e`, whose record is `x`. -/
@[grind intro] inductive ExecMove (s : State Q R) (e : Nat) (x : Executor) : State Q R → Prop
  | park (hpc : x.pc = .loopHead ∨ x.pc = .notified) (hmu : s.mu = none)
      (hpred : s.wakePredicate = false) : ExecMove s e x (s.setExecutor e x .parked)
  | wake (hpc : x.pc = .loopHead ∨ x.pc = .notified ∨ x.pc = .parked) (hmu : s.mu = none)
      (hpred : s.wakePredicate) :
      ExecMove s e x { s.setExecutor e x .woken with mu := some (.executor e) }
  | idleExit (hpc : x.pc = .notified ∨ x.pc = .parked) (hc : x.cancelled)
      (hmu : s.mu = none) (hpred : s.wakePredicate = false) :
      ExecMove s e x (s.setExecutor e x .leaving)
  | excess (hpc : x.pc = .woken) (hlt : s.targetExecutors < s.allocatedExecutors) :
      ExecMove s e x { s.setExecutor e x .finished with
        allocatedExecutors := s.allocatedExecutors - 1, mu := none }
  | drained (hpc : x.pc = .woken) (hsize : WaitQueue.size s.queue = 0)
      (hdone : s.ctl.done) :
      ExecMove s e x { s.setExecutor e x .leaving with mu := none }
  | proceed (hpc : x.pc = .woken) (hle : s.allocatedExecutors ≤ s.targetExecutors)
      (hwork : WaitQueue.size s.queue = 0 → s.ctl.done = false) :
      ExecMove s e x (s.setExecutor e x .dequeuing)
  | dequeue (hpc : x.pc = .dequeuing) (t : TaskId) (q : Q)
      (hpop : WaitQueue.pop s.queue s.world.now = some (t, q)) :
      ExecMove s e x { s.setExecutor e x (.dequeued t) with queue := q, mu := none }
  | run (t : TaskId) (hpc : x.pc = .dequeued t) :
      ExecMove s e x { s.setExecutor e x (.running t) with
        subs := s.subs.filter (·.2 ≠ t), executions := s.executions ++ [t] }
  | finish (t : TaskId) (hpc : x.pc = .running t) :
      ExecMove s e x { s.setExecutor e x .loopHead with completed := s.completed ++ [t] }
  | release (hpc : x.pc = .leaving) :
      ExecMove s e x { s.setExecutor e x .finished with
        allocatedExecutors := s.allocatedExecutors - 1 }

/-- A step of an executor is one of its moves. -/
theorem execMove_of_executorStep (h : s.executorStep e = some s') :
    ∃ x, s.executors[e]? = some x ∧ ExecMove s e x s' := by
  simp only [executorStep, evalPredicate] at h
  split at h
  · cases h
  next x hx =>
    refine ⟨x, hx, ?_⟩
    split at h
    case h_3 =>
      cases h
      unfold exitOrDequeue
      split
      · exact .excess ‹_› ‹_›
      · grind
    case h_7 => cases h; exact .release ‹_›
    all_goals grind

/-- A cancelled executor wakes up, too. -/
theorem execMove_of_cancelledWake (h : s.cancelledWake e = some s') :
    ∃ x, s.executors[e]? = some x ∧ x.cancelled ∧ ExecMove s e x s' := by
  simp only [cancelledWake, evalPredicate] at h
  grind

theorem ExecMove.ctl {x : Executor} (h : ExecMove s e x s') : s'.ctl = s.ctl := by
  cases h <;> rfl

/-! ### addTask -/

/-- The moves of the `addTask` call `i`, whose record is `c`. -/
@[grind intro] inductive AddMove (s : State Q R) (i : TaskId) (c : AddCall R) : State Q R → Prop
  | enter (hpc : c.pc = .entered) (hst : s.ctl.state = .running) :
      AddMove s i c (s.setAdd i c .checkContext)
  | pass (hpc : c.pc = .checkContext) : AddMove s i c (s.setAdd i c .locking)
  | reject (e : PoolError) (hpc : c.pc = .entered ∨ c.pc = .checkContext ∨ c.pc = .locking) :
      AddMove s i c (s.setAdd i c (.threw e))
  | lock (hpc : c.pc = .locking) (hmu : s.mu = none) (hst : s.ctl.state = .running)
      (hdone : s.ctl.done = false) (hctx : c.ctx.cancelled s.world = false) :
      AddMove s i c { s.setAdd i c (.registering c.ctx.tokens) with mu := some (.add i) }
  | subscribe (τ : TokenId) (rest : List TokenId) (hpc : c.pc = .registering (τ :: rest))
      (hτ : s.world.stopRequested τ = false) :
      AddMove s i c { s.setAdd i c (.registering rest) with subs := s.subs ++ [(τ, i)] }
  | subscribeFired (τ : TokenId) (rest : List TokenId) (hpc : c.pc = .registering (τ :: rest))
      (hτ : s.world.stopRequested τ) (spawnFails : Bool) :
      AddMove s i c ((s.setAdd i c (.registering rest)).onCancel i spawnFails)
  | registerFail (rest : List TokenId) (hpc : c.pc = .registering rest) :
      AddMove s i c { s.setAdd i c .unwinding with mu := none }
  | insert (hpc : c.pc = .registering []) (q : Q)
      (hpush : WaitQueue.push s.queue i c.ctx.deadline c.request = (q, true)) :
      AddMove s i c { s.setAdd i c .notifying with
        queue := q, mu := none, accepted := s.accepted ++ [i] }
  | insertFail (hpc : c.pc = .registering []) (q : Q)
      (hpush : WaitQueue.push s.queue i c.ctx.deadline c.request = (q, false)) :
      AddMove s i c { s.setAdd i c .unwinding with queue := q, mu := none }
  | unwind (hpc : c.pc = .unwinding) :
      AddMove s i c { s.setAdd i c (.threw .resource) with subs := s.subs.filter (·.2 ≠ i) }
  | notify (hpc : c.pc = .notifying) (s₁ : State Q R) (hn : Notified s s₁) :
      AddMove s i c (s₁.setAdd i c .returned)

/-- A step of `addTask` is one of its moves. -/
theorem addMove_of_addStep {f g : Bool} (h : s.addStep i f g w = some s') :
    ∃ c, s.adds[i]? = some c ∧ AddMove s i c s' := by
  unfold addStep at h
  split at h
  · cases h
  next c hc =>
    refine ⟨c, hc, ?_⟩
    split at h
    case h_4 =>
      split at h <;> cases h
      · exact .registerFail _ ‹_›
      · unfold subscribe
        split
        · exact .subscribeFired _ _ ‹_› ‹_› _
        · exact .subscribe _ _ ‹_› (Bool.eq_false_iff.mpr ‹_›)
    case h_5 =>
      cases h
      unfold State.insert
      dsimp only
      split
      · exact .insert ‹_› _ (Prod.ext rfl ‹_›)
      · exact .insertFail ‹_› _ (Prod.ext rfl (Bool.eq_false_iff.mpr ‹_›))
    case h_7 =>
      obtain ⟨s₁, hs₁, rfl⟩ := Option.map_eq_some_iff.mp h
      exact .notify ‹_› s₁ (notified_of_notifyOne hs₁)
    all_goals grind

omit [WaitQueue Q R] in
@[simp] theorem onCancel_ctl (s : State Q R) (t : TaskId) (f : Bool) :
    (s.onCancel t f).ctl = s.ctl := by
  unfold onCancel; split <;> rfl

/-- `addTask` leaves the lifecycle alone. -/
theorem AddMove.ctl {c : AddCall R} (h : AddMove s i c s') : s'.ctl = s.ctl := by
  cases h with
  | subscribeFired => exact onCancel_ctl _ _ _
  | notify _ s₁ hn => exact hn.ctl
  | _ => rfl

/-! ### Cancellation watches -/

/-- The moves of the watch `k`. -/
@[grind intro] inductive WatchMove (s : State Q R) (k : Nat) : State Q R → Prop
  | dead (t : TaskId) (hw : s.watches[k]? = some (.spawned t))
      (ht : WaitQueue.contains s.queue t = false)
      (hown : ∀ c, s.adds[t]? = some c → c.pc.owns = false) :
      WatchMove s k { s with watches := s.watches.set k .finished }
  | promote (t : TaskId) (hw : s.watches[k]? = some (.spawned t)) (hmu : s.mu = none)
      (pc : WatchPc) (hpc : pc = .finished ∨ pc = .notifying) :
      WatchMove s k { s with
        queue := (WaitQueue.promote s.queue t s.world.now).1
        watches := s.watches.set k pc }
  | notify (hw : s.watches[k]? = some .notifying) (s₁ : State Q R) (hn : Notified s s₁) :
      WatchMove s k { s₁ with watches := s₁.watches.set k .finished }

/-- A step of a stop callback is one of its moves. -/
theorem watchMove_of_watchStep {alive : Bool} (h : s.watchStep k alive w = some s') :
    WatchMove s k s' := by
  unfold watchStep at h
  split at h
  · grind
  · obtain ⟨s₁, hs₁, rfl⟩ := Option.map_eq_some_iff.mp h
    exact .notify ‹_› s₁ (notified_of_notifyOne hs₁)
  · cases h

theorem WatchMove.ctl (h : WatchMove s k s') : s'.ctl = s.ctl := by
  cases h with
  | notify _ s₁ hn => exact hn.ctl
  | _ => rfl

/-! ### The winner of stop and the manager -/

/-- What the winner of `stop` does outside the control record: it takes over the handles, and in
    the end it wakes everybody. -/
@[grind intro] inductive StopEffect (s : State Q R) : State Q R → Prop
  | control (c : Control) (handles : List Nat) (hdone : c.done = s.ctl.done) :
      StopEffect s { s with ctl := c, handles := handles }
  | notify (c : Control) (hdone : c.done = s.ctl.done) (hst : c.state = s.ctl.state) :
      StopEffect s { s.notifyAll with ctl := c }

omit [WaitQueue Q R] in
/-- A step of `stop` has one of these effects. -/
theorem stopStep_effect (hs : s.stopStep = some s') : StopEffect s s' := by
  unfold stopStep at hs
  split at hs
  case h_10 =>
    split at hs <;> cases hs
    exact .notify _ rfl rfl
  all_goals grind [Control.resolveStartup]

/-- What the manager does outside the control record. -/
@[grind intro] inductive ManagerEffect (s : State Q R) : State Q R → Prop
  | control (c : Control) (handles newExecutors : List Nat) (hdone : c.done = s.ctl.done)
      (hst : c.state = s.ctl.state) :
      ManagerEffect s { s with ctl := c, handles := handles, newExecutors := newExecutors }
  | drain (hmu : s.mu = none) : ManagerEffect s { s.notifyAll with
      ctl := { s.ctl with state := .draining, done := true, manager := .exiting } }
  | shrink (target : Int) (handles : List Nat) (m : ManagerPc) (hmu : s.mu = none) :
      ManagerEffect s { { s with targetExecutors := target, handles := handles }.notifyAll with
        ctl.manager := m }
  | retarget (target : Int) (handles : List Nat) (m : ManagerPc) (hmu : s.mu = none)
      (hle : s.allocatedExecutors ≤ target) : ManagerEffect s { s with
        targetExecutors := target, handles := handles, ctl.manager := m }
  | claim (k : Nat) (hpc : s.ctl.manager = .spawning (k + 1)) : ManagerEffect s { s with
      allocatedExecutors := s.allocatedExecutors + 1, ctl.manager := .claimed k }
  | unclaim (k : Nat) (hpc : s.ctl.manager = .claimed k) : ManagerEffect s { s with
      allocatedExecutors := s.allocatedExecutors - 1, ctl.manager := .adopting true }
  | spawn (k : Nat) (hpc : s.ctl.manager = .claimed k) :
      ManagerEffect s { s.spawnExecutor with ctl.manager := .spawning k }

omit [WaitQueue Q R] in
/-- A step of the manager has one of these effects. -/
theorem managerStep_effect {n : Option Int} {hw : Int} {f : Bool}
    (hs : s.managerStep n hw f = some s') : ManagerEffect s s' := by
  cases hpc : s.ctl.manager <;> simp only [managerStep, hpc] at hs
  case drain =>
    split at hs <;> cases hs
    unfold requestDrain
    split
    · exact .drain (not_not.mp ‹_›)
    · exact .control _ s.handles s.newExecutors rfl rfl
  case reconcile =>
    split at hs <;> cases hs
    have hmu : s.mu = none := not_not.mp ‹_›
    unfold reconcile
    dsimp only
    split
    · exact .shrink _ _ _ hmu
    next hle =>
      repeat' split
      all_goals exact .retarget _ _ _ hmu (Int.not_lt.mp hle)
  case spawning k => cases k <;> cases hs <;> grind
  case claimed k =>
    split at hs <;> cases hs
    · exact .unclaim k hpc
    · exact .spawn k hpc
  all_goals grind [Control.resolveStartup]

/-! ### The steps of a pool -/

/-- The steps of a pool by what they can change.  `background` stands for the clock, stop
    sources and callbacks, `waiters` for the callers of `stop` that only wait. -/
@[grind intro] inductive Move (s : State Q R) : Action R → State Q R → Prop
  | background {a : Action R} (w : World) (watches : List WatchPc)
      (subs : List (TokenId × TaskId)) :
      Move s a { s with world := w, watches := watches, subs := subs }
  | waiters {a : Action R} (ws : List StopWaiter)
      (hws : ∀ w ∈ ws, w = .returned → w ∈ s.stopWaiters ∨ s.ctl.state = .stopped) :
      Move s a { s with stopWaiters := ws }
  | callStart (ctx : Context) : Move s (.callStart ctx) { s with ctl := s.ctl.callStart ctx }
  | start (fails : Bool) (c : Control) (hc : s.ctl.startStep fails = some c) :
      Move s (.start fails) { s with ctl := c }
  | claimStop (hmu : s.mu = none) (hst : s.ctl.state ≠ .stopping) (hst' : s.ctl.state ≠ .stopped) :
      Move s .callStop { s.notifyAll with ctl := s.ctl.claimStop }
  | stop (s' : State Q R) (hs : s.stopStep = some s') : Move s .stop s'
  | manager (n : Option Int) (hw : Int) (fails : Bool) (s' : State Q R)
      (hs : s.managerStep n hw fails = some s') : Move s (.manager n hw fails) s'
  | executor (e : Nat) (x : Executor) (s' : State Q R) (hx : s.executors[e]? = some x)
      (hm : ExecMove s e x s') : Move s (.executor e) s'
  | cancelled (e : Nat) (x : Executor) (s' : State Q R) (hx : s.executors[e]? = some x)
      (hc : x.cancelled) (hm : ExecMove s e x s') : Move s (.cancelledWake e) s'
  | cancel (e : Nat) (x : Executor) (hx : s.executors[e]? = some x) :
      Move s (.cancelExecutor e)
        { s with executors := s.executors.set e { x with cancelled := true } }
  | spurious (e : Nat) (s' : State Q R) (hn : Notified s s') : Move s (.spuriousWake e) s'
  | callAdd (ctx : Context) (r : R) :
      Move s (.callAdd ctx r) { s with adds := s.adds ++ [⟨ctx, r, .entered⟩] }
  | add (i : TaskId) (c : AddCall R) (f g : Bool) (w : Option Waiter) (s' : State Q R)
      (hc : s.adds[i]? = some c) (hm : AddMove s i c s') : Move s (.add i f g w) s'
  | watch (k : Nat) (alive : Bool) (w : Option Waiter) (s' : State Q R)
      (hm : WatchMove s k s') : Move s (.watch k alive w) s'

/-- Every step of a pool is one of these moves. -/
theorem move_of_step {a : Action R} (hs : step s a = some s') : Move s a s' := by
  cases a with
  | tick now =>
    simp only [step] at hs
    split at hs <;> cases hs
    exact .background { s.world with now := now } s.watches s.subs
  | fire τ =>
    cases hs
    exact .background { s.world with fired := τ :: s.world.fired } s.watches s.subs
  | start fails =>
    obtain ⟨c, hc, rfl⟩ := Option.map_eq_some_iff.mp hs
    exact .start fails c hc
  | callStop => grind [step, callStop]
  | stopWaiter i => grind [step, stopWaiterStep, List.mem_or_eq_of_mem_set]
  | executor e =>
    obtain ⟨x, hx, hm⟩ := execMove_of_executorStep hs
    exact .executor e x s' hx hm
  | cancelledWake e =>
    obtain ⟨x, hx, hc, hm⟩ := execMove_of_cancelledWake hs
    exact .cancelled e x s' hx hc hm
  | add i f g w =>
    obtain ⟨c, hc, hm⟩ := addMove_of_addStep hs
    exact .add i c f g w s' hc hm
  | callback k g =>
    simp only [step, runCallback] at hs
    split at hs
    · cases hs
    · split at hs <;> cases hs
      unfold onCancel
      split
      · exact .background s.world s.watches _
      · exact .background s.world _ _
  | watch k alive w => exact .watch k alive w s' (watchMove_of_watchStep hs)
  | _ => grind [step, cancelExecutor, spuriousWake]

end ServiceLib.Pool
