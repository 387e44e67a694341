import ServiceLib.Pool.WaitQueue

namespace ServiceLib.Pool

/-!
# Pool — threads and state

The coroutines that work on one pool, each with its program counter, and the fields they
share.  A program counter sits in front of the next access to shared memory; what a
coroutine does between two such accesses is local and belongs to the step before.

* the winner of `start()` (`StartPc`) and the winner of `stop()` (`StopPc`); every other
  caller of `start()` throws at its compare-exchange, every other caller of `stop()` only
  waits (`StopWaiter`);
* the manager coroutine (`ManagerPc`), the executors (`ExecPc`), the `addTask` calls
  (`AddPc`) and the cancellation watches (`WatchPc`).

Metrics and log lines do not influence any of them and are left out, and so is the deadline
of the `stop()` context, which only decides whether a warning is logged.
-/

/-- `TaskPoolImpl::PoolState`. -/
inductive PoolState
  | created | starting | running | draining | stopping | stopped | failed
  deriving DecidableEq, Repr

/-- `TaskPoolImpl::StartupResult`. -/
inductive StartupResult
  | pending | ready | cancelled | stopped | failed
  deriving DecidableEq, Repr

/-- What `start` and `addTask` throw. -/
inductive PoolError
  /-- `PoolAlreadyStartedError`: "pool already started". -/
  | alreadyStarted
  /-- `PoolStoppedError`: "pool stopped". -/
  | stopped
  /-- `PoolNotStartedError`: "pool not started". -/
  | notStarted
  /-- `PoolCancelledError`: "request cancelled". -/
  | cancelled
  /-- `std::runtime_error`: "failed to start task pool '<name>'". -/
  | startFailed
  /-- An allocation or the creation of a coroutine failed. -/
  | resource
  deriving DecidableEq, Repr

/-! ### Program counters -/

/-- The `start()` call that moved the state from `kCreated` to `kStarting`. -/
inductive StartPc
  | idle
  /-- About to construct `cancelWatches_`. -/
  | building
  /-- About to create the manager coroutine. -/
  | spawning
  /-- The manager exists; about to assign `managerTask_`. -/
  | assigning
  /-- About to send `fieldsPublished_`. -/
  | publishing
  | awaitReady
  /-- About to act on `startupResult_`. -/
  | resolving
  /-- In the `catch (...)`: about to send `fieldsPublished_`. -/
  | failing
  /-- In the `catch (...)`: about to move the state to `kFailed`. -/
  | failingState
  | returned
  | threw (e : PoolError)
  deriving DecidableEq, Repr

/-- The `stop()` call that moved the state to `kStopping`. -/
inductive StopPc
  | idle
  | awaitFields
  | joinManager
  | signalReady
  | cancelManager
  | awaitManager
  | takeExecutors
  /-- Waiting for the executors whose handles it took. -/
  | awaitExecutors (toWait : List Nat)
  | awaitWatches
  | storeStopped
  | notifyStopped
  | returned
  deriving DecidableEq, Repr

/-- A `stop()` call that found another one at work. -/
inductive StopWaiter
  | parked | notified | returned
  deriving DecidableEq, Repr

/-- `managerLoop` and `reconcileExecutors`. -/
inductive ManagerPc
  | absent
  /-- First `lifecycleCancelled()` of an iteration. -/
  | loopHead
  | resolveCancelled
  /-- `requestDrainFromManager`. -/
  | drain
  | checkDone
  | reconcile
  /-- About to reserve room for `n` new handles. -/
  | reserving (n : Nat)
  /-- `n` executors still to spawn. -/
  | spawning (n : Nat)
  /-- A slot is claimed for an executor that does not exist yet; `n` more to come. -/
  | claimed (n : Nat)
  /-- About to move the new handles to `executors_`, then to rethrow if `failed`. -/
  | adopting (failed : Bool)
  /-- In the `catch`: about to read `startupResult_`. -/
  | spawnFailed
  /-- In the `catch`: about to read `allocatedExecutors_`. -/
  | spawnFailedPending
  | resolveFailed
  /-- Second `lifecycleCancelled()` of an iteration. -/
  | checkCancelled
  | resolveReady
  | sendReady
  | sleeping
  /-- About to run the destructor of `SignalReadyOnExit`. -/
  | exiting
  | finished
  deriving DecidableEq, Repr

/-- `executorLoop`. -/
inductive ExecPc
  | loopHead
  | parked
  | notified
  /-- `cv_.Wait` returned true; `mu_` is held. -/
  | woken
  /-- Not excess and not stopping: about to dequeue; `mu_` is held. -/
  | dequeuing
  /-- Owns task `t`; about to reset its cancellation callbacks. -/
  | dequeued (t : TaskId)
  | running (t : TaskId)
  /-- Returned from the loop; `ExecutorSlotGuard` has yet to release the slot. -/
  | leaving
  | finished
  deriving DecidableEq, Repr

/-- An executor coroutine; `cancelled` when somebody requested its cancellation. -/
structure Executor where
  pc : ExecPc
  cancelled : Bool
  deriving DecidableEq, Repr

/-- `addTask`. -/
inductive AddPc
  | entered
  | checkContext
  | locking
  /-- `mu_` is held; the tokens still to be subscribed to, then the insertion. -/
  | registering (rest : List TokenId)
  /-- Throwing after a failed allocation; `mu_` is released, the task object is not. -/
  | unwinding
  | notifying
  | returned
  | threw (e : PoolError)
  deriving DecidableEq, Repr

/-- An `addTask` call. -/
structure AddCall (R : Type) where
  ctx : Context
  request : R
  pc : AddPc

/-- A coroutine of `cancelWatches_`. -/
inductive WatchPc
  | spawned (t : TaskId)
  | notifying
  | finished
  deriving DecidableEq, Repr

/-- Who can hold `mu_` across several steps. -/
inductive Holder
  | executor (e : Nat)
  | add (i : TaskId)
  deriving DecidableEq, Repr

/-! ### Shared state -/

/-- The lifecycle part of a pool: its state words, its events, and the coroutines that
    drive it. -/
structure Control where
  state : PoolState
  startupResult : StartupResult
  done : Bool
  readyEvent : Bool
  fieldsPublished : Bool
  /-- `managerTask_.IsValid()`. -/
  managerTask : Bool
  /-- Whether `cancelWatches_` holds a storage. -/
  cancelWatches : Bool
  /-- Whether `stop` requested the manager's cancellation. -/
  managerCancelled : Bool
  startCtx : Context
  starter : StartPc
  stopper : StopPc
  manager : ManagerPc
  deriving DecidableEq, Repr

/-- A pool over the wait queue `Q`.  The last three fields are history: the tasks accepted,
    whose callback was invoked, and whose callback is over. -/
structure State (Q R : Type) where
  world : World
  ctl : Control
  targetExecutors : Int
  allocatedExecutors : Int
  queue : Q
  mu : Option Holder
  stopWaiters : List StopWaiter
  /-- Every executor ever spawned, by index. -/
  executors : List Executor
  /-- `executors_`, as indices. -/
  handles : List Nat
  /-- The local `newExecutors` of `reconcileExecutors`. -/
  newExecutors : List Nat
  /-- Every `addTask` call; its index is the identity of its task. -/
  adds : List (AddCall R)
  watches : List WatchPc
  /-- The registered `stop_callback`s that have not run. -/
  subs : List (TokenId × TaskId)
  accepted : List TaskId
  executions : List TaskId
  completed : List TaskId

/-- The lifecycle part of a freshly constructed pool. -/
def Control.init : Control where
  state := .created
  startupResult := .pending
  done := false
  readyEvent := false
  fieldsPublished := false
  managerTask := false
  cancelWatches := false
  managerCancelled := false
  startCtx := {}
  starter := .idle
  stopper := .idle
  manager := .absent

/-- A freshly constructed pool. -/
def State.init (Q : Type) {R : Type} [WaitQueue Q R] : State Q R where
  world := ⟨0, []⟩
  ctl := .init
  targetExecutors := 0
  allocatedExecutors := 0
  queue := WaitQueue.empty
  mu := none
  stopWaiters := []
  executors := []
  handles := []
  newExecutors := []
  adds := []
  watches := []
  subs := []
  accepted := []
  executions := []
  completed := []

/-! ### What program counters stand for -/

/-- The task an executor has taken off the queue and not finished. -/
def Executor.held (x : Executor) : Option TaskId :=
  match x.pc with
  | .dequeued t | .running t => some t
  | _ => none

/-- The task whose callback an executor is running. -/
def Executor.runs (x : Executor) : Option TaskId :=
  match x.pc with
  | .running t => some t
  | _ => none

/-- An executor that owns a slot of `allocatedExecutors_`. -/
def Executor.hasSlot (x : Executor) : Bool :=
  match x.pc with
  | .finished => false
  | _ => true

/-- An executor that is still in its loop. -/
def Executor.live (x : Executor) : Bool :=
  match x.pc with
  | .leaving | .finished => false
  | _ => true

/-- An `addTask` call that has inserted its task. -/
def AddPc.accepted : AddPc → Bool
  | .notifying | .returned => true
  | _ => false

/-- An `addTask` call that owns a reference to its task and may have subscribed it. -/
def AddPc.owns : AddPc → Bool
  | .registering _ | .unwinding | .notifying => true
  | _ => false

/-- The slots the manager has claimed for executors that do not exist yet. -/
def ManagerPc.reserved : ManagerPc → Nat
  | .claimed _ => 1
  | _ => 0

variable {Q R : Type}

/-- The tasks the executors are working on. -/
def State.held (s : State Q R) : List TaskId := s.executors.filterMap Executor.held

/-- The tasks whose callback is running. -/
def State.runningTasks (s : State Q R) : List TaskId := s.executors.filterMap Executor.runs

/-- The number of executors still in their loop. -/
def State.live (s : State Q R) : Nat := s.executors.countP Executor.live

/-- The number of executors that own a slot. -/
def State.slots (s : State Q R) : Nat := s.executors.countP Executor.hasSlot

end ServiceLib.Pool
