import Mathlib.Data.List.Basic
import ServiceLib.Runtime.Context

namespace ServiceLib.DelayPool

/-!
# Delay pool — threads and state

`DelayPoolImpl` keeps one timer queue for the whole service.  A `delay` call either throws or
leaves behind a `DelayTask` that moves from the timer queue to the scheduler and on to a
coroutine of its own:

* `delay` calls (`DelayPc`), whose task is identified with the call;
* native threads that run a cancellation callback (`CancelPc`); they take no lock and reach
  the scheduler through the cancellation inbox and the `queueChanged` event only;
* the scheduler coroutine (`SchedulerPc`) and the coroutines it dispatches (`CoroutinePc`);
* `stop` calls (`StopPc`).

Metrics, log lines, spans and baggage influence none of them and are left out.
-/

/-- The identity of a `DelayTask`: the index of its `delay` call. -/
abbrev TaskId := Nat

/-- `DelayPoolImpl::PoolState`. -/
inductive PoolState
  | created | running | stopping | stopped | failed
  deriving DecidableEq, Repr

/-- What `delay` and `stop` throw. -/
inductive DelayError
  /-- `PoolStoppedError`: "pool stopped". -/
  | stopped
  /-- `PoolNotStartedError`: "pool not started". -/
  | notStarted
  /-- `PoolCancelledError`: "request cancelled". -/
  | cancelled
  /-- `PoolSelfStopError`: "pool cannot be stopped from its own task". -/
  | selfStop
  /-- An allocation or the creation of a coroutine failed. -/
  | resource
  deriving DecidableEq, Repr

/-! ### Program counters -/

/-- `publishCancellation`, which takes no lock. -/
inductive PublishPc
  /-- About to exchange `cancellationPublished`. -/
  | exchanging
  /-- About to push the task onto the inbox. -/
  | pushing
  /-- About to `Send` `queueChanged`. -/
  | sending
  deriving DecidableEq, Repr

/-- `delay`. -/
inductive DelayPc
  | entered
  /-- Has read the clock; about to ask the context. -/
  | checking (now : Time)
  /-- The tokens still to be subscribed to. -/
  | registering (now : Time) (rest : List TokenId)
  /-- About to lock `mu`. -/
  | locking (now : Time)
  /-- The task is in the timer queue; about to store `admitted`.  From here to `signalling`
      the call holds `mu`. -/
  | admitting
  /-- About to read `cancelRequested` again. -/
  | rechecking
  | publishing (p : PublishPc)
  /-- About to `Send` if the task is first in the queue. -/
  | signalling
  /-- Has released `mu`. -/
  | leaving
  /-- Throwing; the task object and its cancellation callbacks are still there. -/
  | unwinding (e : DelayError)
  | returned
  | threw (e : DelayError)
  deriving DecidableEq, Repr

/-- A `delay` call and its `DelayTask`. -/
structure DelayCall where
  ctx : Context
  delayDuration : Time
  pc : DelayPc
  runAt : Time := 0
  claimed : Bool := false
  cancelRequested : Bool := false
  /-- Whether the task holds an iterator into the timer queue. -/
  queued : Bool := false
  admitted : Bool := false
  cancellationPublished : Bool := false
  deriving DecidableEq, Repr

/-- A thread that runs the cancellation callback of a task. -/
inductive CancelPc
  /-- About to exchange `cancelRequested`. -/
  | requesting
  /-- About to read `admitted`. -/
  | checkAdmitted
  | publishing (p : PublishPc)
  | finished
  deriving DecidableEq, Repr

structure Canceller where
  task : TaskId
  pc : CancelPc
  deriving DecidableEq, Repr

/-- `schedulerLoop`. -/
inductive SchedulerPc
  | absent
  | loopHead
  /-- `drainCancellations`: the tasks it took from the inbox and has yet to move. -/
  | draining (rest : List TaskId)
  | inspecting
  /-- In the main wait, until `next`. -/
  | waiting (next : Option Time)
  /-- Owns the extracted node of task `t`; about to dispatch it. -/
  | ready (t : TaskId)
  /-- The dispatch of `t` failed; about to put its node back. -/
  | retrying (t : TaskId)
  /-- The short wait after a failed dispatch. -/
  | retryWait
  | finalDrain
  | finalDraining (rest : List TaskId)
  | finished
  deriving DecidableEq, Repr

/-- A dispatched coroutine, up to its end. -/
inductive CoroutinePc
  /-- About to claim the task. -/
  | claiming
  /-- About to reset the cancellation callbacks. -/
  | resetting
  /-- About to invoke the callback. -/
  | invoking
  | running
  /-- Has counted the task as finished. -/
  | exiting
  | finished
  deriving DecidableEq, Repr

structure Coroutine where
  task : TaskId
  pc : CoroutinePc
  deriving DecidableEq, Repr

/-- `stop` and `finishStop`. -/
inductive StopPc
  | entered
  /-- Owns the stop; waits for `pending`, at most until its deadline. -/
  | waitPending
  /-- `finishStop`: waits for `pending` without a limit. -/
  | finishWait
  | stopScheduler
  | joinScheduler
  | cancelTasks
  | storeStopped
  /-- Another call owns the stop. -/
  | waitStopped
  | returned
  | threw (e : DelayError)
  deriving DecidableEq, Repr

structure StopCall where
  ctx : Context
  pc : StopPc
  deriving DecidableEq, Repr

/-! ### Shared state -/

/-- A delay pool.  The last three fields are history: the tasks accepted, those whose
    callback was invoked, and those that were counted as finished. -/
structure State where
  world : World
  poolState : PoolState
  pending : Int
  /-- The multimap of timers, in key order. -/
  timers : List (Time × TaskId)
  /-- The cancellation inbox, last published first. -/
  inbox : List TaskId
  queueChanged : Bool
  schedulerStopping : Bool
  /-- Whether `tasks` and `scheduler` exist. -/
  tasks : Bool
  scheduler : SchedulerPc
  /-- The `delay` call that holds `mu`, when one does across several steps. -/
  mu : Option TaskId
  calls : List DelayCall
  cancellers : List Canceller
  coroutines : List Coroutine
  stops : List StopCall
  /-- The registered `stop_callback`s that have not run. -/
  subs : List (TokenId × TaskId)
  accepted : List TaskId
  executions : List TaskId
  finished : List TaskId
  deriving DecidableEq, Repr

/-- A freshly constructed delay pool. -/
def State.init : State where
  world := ⟨0, []⟩
  poolState := .created
  pending := 0
  timers := []
  inbox := []
  queueChanged := false
  schedulerStopping := false
  tasks := false
  scheduler := .absent
  mu := none
  calls := []
  cancellers := []
  coroutines := []
  stops := []
  subs := []
  accepted := []
  executions := []
  finished := []

/-! ### What program counters stand for -/

/-- A `delay` call whose task was counted in `pending`. -/
def DelayPc.accepted : DelayPc → Bool
  | .admitting | .rechecking | .publishing _ | .signalling | .leaving | .returned => true
  | _ => false

/-- The task whose node the scheduler owns. -/
def SchedulerPc.held : SchedulerPc → List TaskId
  | .ready t | .retrying t => [t]
  | _ => []

/-- The task a coroutine has yet to finish. -/
def Coroutine.holds (c : Coroutine) : Option TaskId :=
  match c.pc with
  | .claiming | .resetting | .invoking | .running => some c.task
  | .exiting | .finished => none

/-- The task a coroutine has claimed and not finished. -/
def Coroutine.claims (c : Coroutine) : Option TaskId :=
  match c.pc with
  | .resetting | .invoking | .running => some c.task
  | _ => none

/-- The task whose callback a coroutine is running. -/
def Coroutine.runs (c : Coroutine) : Option TaskId :=
  match c.pc with
  | .running => some c.task
  | _ => none

/-- The tasks in the timer queue. -/
def State.queuedTasks (s : State) : List TaskId := s.timers.map Prod.snd

/-- The tasks that were handed to a coroutine and are not finished. -/
def State.dispatched (s : State) : List TaskId := s.coroutines.filterMap Coroutine.holds

/-- The tasks that are claimed and not finished. -/
def State.claimedTasks (s : State) : List TaskId := s.coroutines.filterMap Coroutine.claims

/-- The tasks whose callback is running. -/
def State.runningTasks (s : State) : List TaskId := s.coroutines.filterMap Coroutine.runs

end ServiceLib.DelayPool
