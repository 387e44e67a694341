import ServiceLib.Lib.Transition
import ServiceLib.Pool.State

namespace ServiceLib.Pool

/-!
# Pool — steps

One step function for each kind of coroutine, translated statement by statement from
`TaskPoolImpl` (`PriorityTaskPoolImpl` is the same code around another wait queue), and the
transition system `system` that interleaves them in any way.

A step that needs `mu_` is enabled only while nobody holds it.  Critical sections in which
every shared access is protected by `mu_` are one step; the two that are not — an executor
between its wait predicate and its dequeue, an `addTask` between its admission check and
its insertion — hold `mu_` across several steps.

Everything the code does not decide is an argument of the action: which allocation or
coroutine creation throws, which waiter a `NotifyOne` reaches, what the configuration says.
-/

variable {Q R : Type} [WaitQueue Q R]

/-- A coroutine parked on `cv_`. -/
inductive Waiter
  | executor (e : Nat)
  | stop (i : Nat)
  deriving DecidableEq, Repr

/-! ### The condition variable -/

namespace State

def wakeExecutor (x : Executor) : Executor :=
  if x.pc = .parked then { x with pc := .notified } else x

def wakeStop : StopWaiter → StopWaiter
  | .parked => .notified
  | w => w

/-- `cv_.NotifyAll()`. -/
def notifyAll (s : State Q R) : State Q R :=
  { s with
    executors := s.executors.map wakeExecutor
    stopWaiters := s.stopWaiters.map wakeStop }

/-- `cv_.NotifyOne()`: somebody parked is woken, if anybody is. -/
def notifyOne (s : State Q R) : Option Waiter → Option (State Q R)
  | none =>
    if s.executors.all (·.pc ≠ .parked) && s.stopWaiters.all (· ≠ .parked) then some s
    else none
  | some (.executor e) =>
    match s.executors[e]? with
    | some ⟨.parked, c⟩ => some { s with executors := s.executors.set e ⟨.notified, c⟩ }
    | _ => none
  | some (.stop i) =>
    match s.stopWaiters[i]? with
    | some .parked => some { s with stopWaiters := s.stopWaiters.set i .notified }
    | _ => none

end State

/-! ### start -/

namespace Control

/-- What the compare-exchange at the top of `start` reports to a caller that lost it. -/
def startRejection : PoolState → PoolError
  | .draining | .stopping | .stopped => .stopped
  | _ => .alreadyStarted

/-- A call of `start`: its compare-exchange.  A losing call throws `startRejection` and
    leaves no trace. -/
def callStart (c : Control) (ctx : Context) : Control :=
  if c.state = .created then
    { c with state := .starting, startCtx := ctx, starter := .building }
  else c

/-- What `start` makes of the result of the startup when the state is still its own: the
    new state, and how the call ends. -/
def startOutcome : StartupResult → PoolState × StartPc
  | .ready => (.running, .returned)
  | .cancelled => (.failed, .threw .cancelled)
  | .stopped | .pending => (.failed, .threw .stopped)
  | .failed => (.failed, .threw .startFailed)

/-- The end of `start`: move the state out of `kStarting`, unless a concurrent `stop` or
    drain has done so. -/
def resolveStart (c : Control) : Control :=
  if c.state = .starting then
    { c with
      state := (startOutcome c.startupResult).1
      starter := (startOutcome c.startupResult).2 }
  else { c with starter := .threw .stopped }

/-- The winner of `start`; `fails` is whether this step's allocation throws. -/
def startStep (c : Control) (fails : Bool) : Option Control :=
  match c.starter with
  | .building =>
    if fails then some { c with starter := .failing }
    else some { c with cancelWatches := true, starter := .spawning }
  | .spawning =>
    if fails then some { c with starter := .failing }
    else some { c with manager := .loopHead, starter := .assigning }
  | .assigning => some { c with managerTask := true, starter := .publishing }
  | .publishing => some { c with fieldsPublished := true, starter := .awaitReady }
  | .awaitReady => if c.readyEvent then some { c with starter := .resolving } else none
  | .resolving => some c.resolveStart
  | .failing => some { c with fieldsPublished := true, starter := .failingState }
  | .failingState =>
    some { c with
      state := if c.state = .starting then .failed else c.state
      starter := .threw .resource }
  | .idle | .returned | .threw _ => none

/-- `resolveStartup`: only the first resolution counts. -/
def resolveStartup (c : Control) (r : StartupResult) : Control :=
  if c.startupResult = .pending then { c with startupResult := r } else c

/-- The compare-exchange by which `stop` takes the pool over. -/
def claimStop (c : Control) : Control :=
  { c with
    state := .stopping
    done := true
    stopper := if c.state = .starting then .awaitFields else .joinManager }

end Control

namespace State

/-! ### stop -/

/-- A call of `stop`, up to the end of its first critical section. -/
def callStop (s : State Q R) : Option (State Q R) :=
  if s.mu ≠ none then none
  else match s.ctl.state with
    | .stopped => some { s with stopWaiters := s.stopWaiters ++ [.returned] }
    | .stopping => some { s with stopWaiters := s.stopWaiters ++ [.parked] }
    | _ => some { s.notifyAll with ctl := s.ctl.claimStop }

/-- A `stop` call that waits for another one. -/
def stopWaiterStep (s : State Q R) (i : Nat) : Option (State Q R) :=
  match s.stopWaiters[i]? with
  | some .notified =>
    if s.mu ≠ none then none
    else if s.ctl.state = .stopped then
      some { s with stopWaiters := s.stopWaiters.set i .returned }
    else some { s with stopWaiters := s.stopWaiters.set i .parked }
  | _ => none

/-- Whether the executor with this index has returned. -/
def executorFinished (s : State Q R) (e : Nat) : Bool :=
  match s.executors[e]? with
  | some x => x.pc = .finished
  | none => true

/-- The winner of `stop`. -/
def stopStep (s : State Q R) : Option (State Q R) :=
  match s.ctl.stopper with
  | .awaitFields =>
    if s.ctl.fieldsPublished then some { s with ctl.stopper := .joinManager } else none
  | .joinManager =>
    if s.ctl.managerTask then
      some { s with ctl := { s.ctl.resolveStartup .stopped with stopper := .signalReady } }
    else some { s with ctl.stopper := .takeExecutors }
  | .signalReady => some { s with ctl.readyEvent := true, ctl.stopper := .cancelManager }
  | .cancelManager => some { s with ctl.managerCancelled := true, ctl.stopper := .awaitManager }
  | .awaitManager =>
    if s.ctl.manager = .finished then some { s with ctl.stopper := .takeExecutors } else none
  | .takeExecutors =>
    if s.mu ≠ none then none
    else some { s with ctl.stopper := .awaitExecutors s.handles, handles := [] }
  | .awaitExecutors toWait =>
    if toWait.all s.executorFinished then some { s with ctl.stopper := .awaitWatches } else none
  | .awaitWatches =>
    -- `CancelAndWait` on the watch storage, when there is one.
    if !s.ctl.cancelWatches || s.watches.all (· = .finished) then
      some { s with ctl.stopper := .storeStopped }
    else none
  | .storeStopped => some { s with ctl.state := .stopped, ctl.stopper := .notifyStopped }
  | .notifyStopped =>
    if s.mu ≠ none then none else some { s.notifyAll with ctl.stopper := .returned }
  | .idle | .returned => none

/-! ### The manager -/

/-- `lifecycleCancelled()`: the coroutine was cancelled, or the context of `start` was. -/
def lifecycleCancelled (s : State Q R) : Bool :=
  s.ctl.managerCancelled || s.ctl.startCtx.cancelled s.world || s.ctl.startCtx.expired s.world

/-- The executor count the manager aims at, from the configured count (when the pool is
    configured) and `hardware_concurrency()`. -/
def newTarget (executorsCount : Option Int) (hardware : Int) : Int :=
  let n := match executorsCount with
    | some n => if 0 < n then n else hardware
    | none => hardware
  if n ≤ 0 then 1 else n

/-- The first critical section of `reconcileExecutors`. -/
def reconcile (s : State Q R) (target : Int) (fails : Bool) : State Q R :=
  let s := { s with
    targetExecutors := target
    handles := s.handles.filter (fun e => !s.executorFinished e) }
  if target < s.allocatedExecutors then { s.notifyAll with ctl.manager := .checkCancelled }
  else if target - s.allocatedExecutors = 0 then { s with ctl.manager := .checkCancelled }
  else if fails then { s with ctl.manager := .spawnFailed }
  else { s with ctl.manager := .reserving (target - s.allocatedExecutors).toNat }

/-- `requestDrainFromManager`. -/
def requestDrain (s : State Q R) : State Q R :=
  if s.ctl.state = .starting ∨ s.ctl.state = .running then
    { s.notifyAll with ctl.state := .draining, ctl.done := true }
  else s

/-- The creation of one executor coroutine, for a slot already claimed. -/
def spawnExecutor (s : State Q R) : State Q R :=
  { s with
    executors := s.executors ++ [⟨.loopHead, false⟩]
    newExecutors := s.newExecutors ++ [s.executors.length] }

/-- The manager coroutine. -/
def managerStep (s : State Q R) (executorsCount : Option Int) (hardware : Int)
    (fails : Bool) : Option (State Q R) :=
  match s.ctl.manager with
  | .loopHead =>
    some { s with ctl.manager := if s.lifecycleCancelled then .resolveCancelled else .checkDone }
  | .resolveCancelled =>
    if s.ctl.startupResult = .pending then
      some { s with ctl.startupResult := .cancelled, ctl.manager := .exiting }
    else some { s with ctl.manager := .drain }
  | .drain =>
    if s.mu ≠ none then none else some { s.requestDrain with ctl.manager := .exiting }
  | .checkDone =>
    if s.mu ≠ none then none
    else if s.ctl.done then
      some { s with ctl := { s.ctl.resolveStartup .stopped with manager := .exiting } }
    else some { s with ctl.manager := .reconcile }
  | .reconcile =>
    if s.mu ≠ none then none else some (s.reconcile (newTarget executorsCount hardware) fails)
  | .reserving n =>
    some { s with ctl.manager := if fails then .spawnFailed else .spawning n }
  | .spawning 0 => some { s with ctl.manager := .adopting false }
  | .spawning (n + 1) =>
    some { s with allocatedExecutors := s.allocatedExecutors + 1, ctl.manager := .claimed n }
  | .claimed n =>
    if fails then
      some { s with
        allocatedExecutors := s.allocatedExecutors - 1
        ctl.manager := .adopting true }
    else some { s.spawnExecutor with ctl.manager := .spawning n }
  | .adopting failed =>
    if s.mu ≠ none then none
    else some { s with
      handles := s.handles ++ s.newExecutors
      newExecutors := []
      ctl.manager := if failed then .spawnFailed else .checkCancelled }
  | .spawnFailed =>
    some { s with ctl.manager :=
      if s.ctl.startupResult = .pending then .spawnFailedPending else .checkCancelled }
  | .spawnFailedPending =>
    some { s with ctl.manager :=
      if s.allocatedExecutors = 0 then .resolveFailed else .checkCancelled }
  | .resolveFailed =>
    some { s with ctl := { s.ctl.resolveStartup .failed with manager := .exiting } }
  | .checkCancelled =>
    some { s with ctl.manager :=
      if s.lifecycleCancelled then .resolveCancelled else .resolveReady }
  | .resolveReady =>
    some { s with ctl := { s.ctl.resolveStartup .ready with manager := .sendReady } }
  | .sendReady => some { s with ctl.readyEvent := true, ctl.manager := .sleeping }
  | .sleeping => some { s with ctl.manager := .loopHead }
  | .exiting => some { s with ctl.readyEvent := true, ctl.manager := .finished }
  | .absent | .finished => none

/-! ### Executors -/

/-- The predicate of the wait in `executorLoop`. -/
def wakePredicate (s : State Q R) : Bool :=
  WaitQueue.size s.queue ≠ 0 || s.ctl.done || s.targetExecutors < s.allocatedExecutors

def setExecutor (s : State Q R) (e : Nat) (x : Executor) (pc : ExecPc) : State Q R :=
  { s with executors := s.executors.set e { x with pc := pc } }

/-- One evaluation of the predicate under `mu_`; `otherwise` is where the executor goes when
    it is false. -/
def evalPredicate (s : State Q R) (e : Nat) (x : Executor) (otherwise : ExecPc) :
    Option (State Q R) :=
  if s.mu ≠ none then none
  else if s.wakePredicate then
    some { s.setExecutor e x .woken with mu := some (.executor e) }
  else some (s.setExecutor e x otherwise)

/-- `shouldExitAsExcess` and the check for the end of the pool, with `mu_` held. -/
def exitOrDequeue (s : State Q R) (e : Nat) (x : Executor) : State Q R :=
  if s.targetExecutors < s.allocatedExecutors then
    { s.setExecutor e x .finished with
      allocatedExecutors := s.allocatedExecutors - 1
      mu := none }
  else if WaitQueue.size s.queue = 0 ∧ s.ctl.done then
    { s.setExecutor e x .leaving with mu := none }
  else s.setExecutor e x .dequeuing

/-- An executor coroutine. -/
def executorStep (s : State Q R) (e : Nat) : Option (State Q R) :=
  match s.executors[e]? with
  | none => none
  | some x =>
    match x.pc with
    | .loopHead | .notified => s.evalPredicate e x .parked
    | .woken => some (s.exitOrDequeue e x)
    | .dequeuing =>
      match WaitQueue.pop s.queue s.world.now with
      | none => none
      | some (t, q) => some { s.setExecutor e x (.dequeued t) with queue := q, mu := none }
    | .dequeued t =>
      some { s.setExecutor e x (.running t) with
        subs := s.subs.filter (·.2 ≠ t)
        executions := s.executions ++ [t] }
    | .running t =>
      some { s.setExecutor e x .loopHead with completed := s.completed ++ [t] }
    | .leaving =>
      some { s.setExecutor e x .finished with allocatedExecutors := s.allocatedExecutors - 1 }
    | .parked | .finished => none

/-- A cancelled executor comes back from its wait: the predicate decides what it returns. -/
def cancelledWake (s : State Q R) (e : Nat) : Option (State Q R) :=
  match s.executors[e]? with
  | some ⟨.parked, true⟩ => s.evalPredicate e ⟨.parked, true⟩ .leaving
  | some ⟨.notified, true⟩ => s.evalPredicate e ⟨.notified, true⟩ .leaving
  | _ => none

/-- Somebody outside the pool requests the cancellation of an executor coroutine. -/
def cancelExecutor (s : State Q R) (e : Nat) : Option (State Q R) :=
  match s.executors[e]? with
  | some x => some { s with executors := s.executors.set e { x with cancelled := true } }
  | none => none

/-! ### addTask and cancellation -/

/-- The first check of `addTask`. -/
def addRejection : PoolState → PoolError
  | .draining | .stopping | .stopped => .stopped
  | _ => .notStarted

def setAdd (s : State Q R) (i : TaskId) (c : AddCall R) (pc : AddPc) : State Q R :=
  { s with adds := s.adds.set i { c with pc := pc } }

/-- A cancellation callback starts a watch; a failure to do so is swallowed. -/
def onCancel (s : State Q R) (t : TaskId) (spawnFails : Bool) : State Q R :=
  if spawnFails then s else { s with watches := s.watches ++ [.spawned t] }

/-- Construction of one `stop_callback`: it runs at once when the token has fired. -/
def subscribe (s : State Q R) (τ : TokenId) (t : TaskId) (spawnFails : Bool) : State Q R :=
  if s.world.stopRequested τ then s.onCancel t spawnFails
  else { s with subs := s.subs ++ [(τ, t)] }

/-- The insertion that ends the critical section of `addTask`. -/
def insert (s : State Q R) (i : TaskId) (c : AddCall R) : State Q R :=
  let r := WaitQueue.push s.queue i c.ctx.deadline c.request
  if r.2 then
    { s.setAdd i c .notifying with queue := r.1, mu := none, accepted := s.accepted ++ [i] }
  else { s.setAdd i c .unwinding with queue := r.1, mu := none }

/-- An `addTask` call. -/
def addStep (s : State Q R) (i : TaskId) (fails spawnFails : Bool) (wake : Option Waiter) :
    Option (State Q R) :=
  match s.adds[i]? with
  | none => none
  | some c =>
    match c.pc with
    | .entered =>
      if s.ctl.state ≠ .running then some (s.setAdd i c (.threw (addRejection s.ctl.state)))
      else some (s.setAdd i c .checkContext)
    | .checkContext =>
      if c.ctx.cancelled s.world then some (s.setAdd i c (.threw .cancelled))
      else if c.ctx.expired s.world then some (s.setAdd i c (.threw .cancelled))
      else if fails then some (s.setAdd i c (.threw .resource))
      else some (s.setAdd i c .locking)
    | .locking =>
      if s.mu ≠ none then none
      else if s.ctl.done ∨ s.ctl.state ≠ .running then some (s.setAdd i c (.threw .stopped))
      else if c.ctx.cancelled s.world ∨ c.ctx.expired s.world then
        some (s.setAdd i c (.threw .cancelled))
      else some { s.setAdd i c (.registering c.ctx.tokens) with mu := some (.add i) }
    | .registering (τ :: rest) =>
      if fails then some { s.setAdd i c .unwinding with mu := none }
      else some ((s.setAdd i c (.registering rest)).subscribe τ i spawnFails)
    | .registering [] => some (s.insert i c)
    | .unwinding =>
      some { s.setAdd i c (.threw .resource) with subs := s.subs.filter (·.2 ≠ i) }
    | .notifying => (s.notifyOne wake).map (·.setAdd i c .returned)
    | .returned | .threw _ => none

/-- The owner of a fired stop source runs the `k`-th registered callback. -/
def runCallback (s : State Q R) (k : Nat) (spawnFails : Bool) : Option (State Q R) :=
  match s.subs[k]? with
  | none => none
  | some (τ, t) =>
    if s.world.stopRequested τ then
      some ({ s with subs := s.subs.eraseIdx k }.onCancel t spawnFails)
    else none

/-- A cancellation watch.  `alive` is whether its weak reference can be locked, which it
    always can while the queue or the `addTask` call owns the task. -/
def watchStep (s : State Q R) (w : Nat) (alive : Bool) (wake : Option Waiter) :
    Option (State Q R) :=
  match s.watches[w]? with
  | some (.spawned t) =>
    if alive then
      if s.mu ≠ none then none
      else
        let r := WaitQueue.promote s.queue t s.world.now
        some { s with
          queue := r.1
          watches := s.watches.set w (if r.2 = 0 then .finished else .notifying) }
    else if WaitQueue.contains s.queue t ∨ s.adds[t]?.any (·.pc.owns) then none
    else some { s with watches := s.watches.set w .finished }
  | some .notifying =>
    (s.notifyOne wake).map (fun s => { s with watches := s.watches.set w .finished })
  | _ => none

/-- A wake-up that nobody asked for. -/
def spuriousWake (s : State Q R) (e : Nat) : Option (State Q R) :=
  match s.executors[e]? with
  | some ⟨.parked, c⟩ => some { s with executors := s.executors.set e ⟨.notified, c⟩ }
  | _ => none

end State

/-! ### The transition system -/

/-- Who moves next, and what the environment decides for that step. -/
inductive Action (R : Type)
  | tick (now : Time)
  | fire (τ : TokenId)
  | callStart (ctx : Context)
  | start (fails : Bool)
  | callStop
  | stop
  | stopWaiter (i : Nat)
  | manager (executorsCount : Option Int) (hardware : Int) (fails : Bool)
  | executor (e : Nat)
  | cancelledWake (e : Nat)
  | cancelExecutor (e : Nat)
  | spuriousWake (e : Nat)
  | callAdd (ctx : Context) (request : R)
  | add (i : TaskId) (fails spawnFails : Bool) (wake : Option Waiter)
  | callback (k : Nat) (spawnFails : Bool)
  | watch (w : Nat) (alive : Bool) (wake : Option Waiter)
  deriving DecidableEq, Repr

/-- One step of the pool. -/
def step (s : State Q R) : Action R → Option (State Q R)
  | .tick now => if s.world.now ≤ now then some { s with world.now := now } else none
  | .fire τ => some { s with world.fired := τ :: s.world.fired }
  | .callStart ctx => some { s with ctl := s.ctl.callStart ctx }
  | .start fails => (s.ctl.startStep fails).map (fun c => { s with ctl := c })
  | .callStop => s.callStop
  | .stop => s.stopStep
  | .stopWaiter i => s.stopWaiterStep i
  | .manager executorsCount hardware fails => s.managerStep executorsCount hardware fails
  | .executor e => s.executorStep e
  | .cancelledWake e => s.cancelledWake e
  | .cancelExecutor e => s.cancelExecutor e
  | .spuriousWake e => s.spuriousWake e
  | .callAdd ctx request => some { s with adds := s.adds ++ [⟨ctx, request, .entered⟩] }
  | .add i fails spawnFails wake => s.addStep i fails spawnFails wake
  | .callback k spawnFails => s.runCallback k spawnFails
  | .watch w alive wake => s.watchStep w alive wake

/-- A pool around the wait queue `Q`, from its construction on. -/
def system (Q : Type) {R : Type} [WaitQueue Q R] : System (State Q R) (Action R) where
  init := State.init Q
  step := step

/-- `start()` of a pool with `n` executors, up to its return. -/
def startUp (n : Nat) : List (Action R) :=
  [ [.callStart {}], List.replicate 4 (.start false),
    List.replicate (2 * n + 9) (.manager (some n) 1 false),
    List.replicate 2 (.start false) ].flatten

/-- Whether the step is somebody outside the pool cancelling an executor. -/
def Action.outsideCancel : Action R → Bool
  | .cancelExecutor _ => true
  | _ => false

/-- The executors are not cancelled from outside the pool. -/
def noOutsideCancel (_ : State Q R) (a : Action R) : Prop := a.outsideCancel = false

instance (s : State Q R) (a : Action R) : Decidable (noOutsideCancel s a) :=
  inferInstanceAs (Decidable (a.outsideCancel = false))

end ServiceLib.Pool
