import ServiceLib.DelayPool.State
import ServiceLib.Lib.Transition

namespace ServiceLib.DelayPool

/-!
# Delay pool — steps

One step function for each kind of thread, and the transition system that interleaves them.
Whatever happens with `mu` held and is not visible without it belongs to one step; the end of
a timed `delay` is visible to cancellation callbacks, which take no lock, and is split at each
such access.  Waits on `cv` are guards: the predicate is evaluated with `mu` held, so a waiter
goes on only in a state in which it is true.
-/

/-! ### The timer queue -/

/-- `TimerQueue::emplace` and `TimerQueue::insert`: behind every entry whose key is not
    greater. -/
def insertTimer (key : Time) (t : TaskId) : List (Time × TaskId) → List (Time × TaskId)
  | [] => [(key, t)]
  | e :: rest => if e.1 ≤ key then e :: insertTimer key t rest else (key, t) :: e :: rest

/-- `TimerQueue::extract` of the entry the task's iterator points to. -/
def extractTimer (t : TaskId) : List (Time × TaskId) → List (Time × TaskId)
  | [] => []
  | e :: rest => if e.2 = t then rest else e :: extractTimer t rest

/-- When a `delay` call wants its task to run: after the delay, or at the deadline of its
    context if that comes first. -/
def runAtFor (now delayDuration : Time) (deadline : Option Time) : Time :=
  let runAt := saturatedAdd now delayDuration
  match deadline with
  | some d => if d < runAt then d else runAt
  | none => runAt

namespace State

def setCall (s : State) (i : TaskId) (c : DelayCall) : State :=
  { s with calls := s.calls.set i c }

/-- Store `queued` of task `t`. -/
def setQueued (s : State) (t : TaskId) (q : Bool) : State :=
  { s with calls := s.calls.modify t (fun c => { c with queued := q }) }

/-- Whether the node of task `i` is `timers.begin()`. -/
def isFirst (s : State) (i : TaskId) : Bool := s.timers.head?.any (·.2 = i)

/-! ### Publishing a cancellation -/

/-- One step of `publishCancellation` for task `i`: the pool, the task, and where it goes
    next. -/
def publishStep (s : State) (i : TaskId) (c : DelayCall) :
    PublishPc → State × DelayCall × Option PublishPc
  | .exchanging =>
    if c.cancellationPublished then (s, c, none)
    else (s, { c with cancellationPublished := true }, some .pushing)
  | .pushing => ({ s with inbox := i :: s.inbox }, c, some .sending)
  | .sending => ({ s with queueChanged := true }, c, none)

/-! ### The pool's own coroutines -/

/-- `ensureTaskStorageLocked`; the flag is whether it returned. -/
def ensureTaskStorage (s : State) (fails : Bool) : State × Bool :=
  if s.tasks then (s, true)
  else if fails then ({ s with poolState := .failed }, false)
  else ({ s with tasks := true, scheduler := .loopHead }, true)

/-- `dispatch`, when the coroutine could be created. -/
def dispatch (s : State) (t : TaskId) : State :=
  { s with coroutines := s.coroutines ++ [⟨t, .claiming⟩] }

/-- `start`. -/
def start (s : State) (fails : Bool) : Option State :=
  if s.mu ≠ none then none
  else match s.poolState with
    | .created =>
      let r := s.ensureTaskStorage fails
      some (if r.2 then { r.1 with poolState := .running } else r.1)
    | _ => some s

/-! ### delay -/

/-- The errors that the pool state alone decides. -/
def delayRejection : PoolState → Option DelayError
  | .stopping | .stopped => some .stopped
  | .failed => some .notStarted
  | .created | .running => none

/-- `++pending`, as it stands when the task is in the queue or dispatched. -/
def accept (s : State) (i : TaskId) : State :=
  { s with pending := s.pending + 1, accepted := s.accepted ++ [i] }

/-- The insertion of a timed task, at the front when its cancellation was requested. -/
def enqueue (s : State) (i : TaskId) (c : DelayCall) : State :=
  { s.setCall i { c with pc := .admitting, queued := true } with
    timers := insertTimer (if c.cancelRequested then timeMin else c.runAt) i s.timers
    mu := some i }

/-- The locked part of `delay`, up to where it starts to race with cancellation callbacks. -/
def admitDelay (s : State) (i : TaskId) (c : DelayCall) (now : Time)
    (storageFails nodeFails : Bool) : State :=
  match delayRejection s.poolState with
  | some e => s.setCall i { c with pc := .unwinding e }
  | none =>
    let r := s.ensureTaskStorage storageFails
    if !r.2 then r.1.setCall i { c with pc := .unwinding .resource }
    else if nodeFails then r.1.setCall i { c with pc := .unwinding .resource }
    else if c.runAt ≤ now then ((r.1.accept i).dispatch i).setCall i { c with pc := .leaving }
    else (r.1.accept i).enqueue i c

/-- A `delay` call; `fails` and `nodeFails` are whether its allocations throw. -/
def delayStep (s : State) (i : TaskId) (fails nodeFails : Bool) : Option State :=
  match s.calls[i]? with
  | none => none
  | some c =>
    match c.pc with
    | .entered => some (s.setCall i { c with pc := .checking s.world.now })
    | .checking now =>
      let runAt := runAtFor now c.delayDuration c.ctx.deadline
      if c.ctx.cancelled s.world then some (s.setCall i { c with pc := .threw .cancelled })
      else if runAt ≤ now ∧ c.ctx.deadline.any (· ≤ now) then
        some (s.setCall i { c with pc := .threw .cancelled })
      else if fails then some (s.setCall i { c with pc := .threw .resource })
      else if now < runAt then
        some (s.setCall i { c with runAt := runAt, pc := .registering now c.ctx.tokens })
      else some (s.setCall i { c with runAt := runAt, pc := .locking now })
    | .registering now (τ :: rest) =>
      if fails then some (s.setCall i { c with pc := .unwinding .resource })
      else if s.world.stopRequested τ then
        -- The callback runs at once; `admitted` is still false.
        some (s.setCall i { c with cancelRequested := true, pc := .registering now rest })
      else
        some { s.setCall i { c with pc := .registering now rest } with
          subs := s.subs ++ [(τ, i)] }
    | .registering now [] => some (s.setCall i { c with pc := .locking now })
    | .locking now =>
      if s.mu ≠ none then none else some (s.admitDelay i c now fails nodeFails)
    | .admitting => some (s.setCall i { c with admitted := true, pc := .rechecking })
    | .rechecking =>
      some (s.setCall i { c with
        pc := if c.cancelRequested then .publishing .exchanging else .signalling })
    | .publishing p =>
      let r := s.publishStep i c p
      some (r.1.setCall i { r.2.1 with
        pc := match r.2.2 with
          | some p => .publishing p
          | none => .signalling })
    | .signalling =>
      some { s.setCall i { c with pc := .leaving } with
        queueChanged := s.queueChanged || s.isFirst i
        mu := none }
    | .leaving => some (s.setCall i { c with pc := .returned })
    | .unwinding e =>
      some { s.setCall i { c with pc := .threw e } with subs := s.subs.filter (·.2 ≠ i) }
    | .returned | .threw _ => none

/-! ### Cancellation callbacks -/

/-- The owner of a fired stop source starts the `k`-th registered callback. -/
def runCallback (s : State) (k : Nat) : Option State :=
  match s.subs[k]? with
  | none => none
  | some (τ, t) =>
    if s.world.stopRequested τ then
      some { s with
        subs := s.subs.eraseIdx k
        cancellers := s.cancellers ++ [⟨t, .requesting⟩] }
    else none

def setCanceller (s : State) (k : Nat) (x : Canceller) (pc : CancelPc) : State :=
  { s with cancellers := s.cancellers.set k { x with pc := pc } }

/-- A thread in a cancellation callback. -/
def cancelStep (s : State) (k : Nat) : Option State :=
  match s.cancellers[k]? with
  | none => none
  | some x =>
    match s.calls[x.task]? with
    | none => none
    | some c =>
      match x.pc with
      | .requesting =>
        if c.cancelRequested then some (s.setCanceller k x .finished)
        else some ((s.setCall x.task { c with cancelRequested := true }).setCanceller k x
          .checkAdmitted)
      | .checkAdmitted =>
        some (s.setCanceller k x (if c.admitted then .publishing .exchanging else .finished))
      | .publishing p =>
        let r := s.publishStep x.task c p
        some ((r.1.setCall x.task r.2.1).setCanceller k x (match r.2.2 with
          | some p => .publishing p
          | none => .finished))
      | .finished => none

/-! ### The scheduler -/

/-- The body of the loop of `drainCancellations`: a task that is still queued moves to the
    front. -/
def expedite (s : State) (t : TaskId) : State :=
  match s.calls[t]? with
  | some c =>
    if c.queued then { s with timers := insertTimer timeMin t (extractTimer t s.timers) } else s
  | none => s

/-- The critical section of `schedulerLoop`. -/
def inspect (s : State) : State :=
  if s.schedulerStopping then { s with scheduler := .finalDrain }
  else match s.timers with
    | [] => { s with scheduler := .waiting none }
    | (key, t) :: rest =>
      if key ≤ s.world.now then
        { s.setQueued t false with timers := rest, scheduler := .ready t }
      else { s with scheduler := .waiting (some key) }

/-- The scheduler coroutine; `fails` is whether a coroutine cannot be created, `signalled`
    whether a wait ends because of the event. -/
def schedulerStep (s : State) (fails signalled : Bool) : Option State :=
  match s.scheduler with
  | .loopHead => some { s with scheduler := .draining s.inbox, inbox := [] }
  | .draining (t :: rest) =>
    if s.mu ≠ none then none else some { s.expedite t with scheduler := .draining rest }
  | .draining [] => some { s with scheduler := .inspecting }
  | .inspecting => if s.mu ≠ none then none else some s.inspect
  | .waiting next =>
    if signalled then
      if s.queueChanged then some { s with queueChanged := false, scheduler := .loopHead }
      else none
    else if next.any (· ≤ s.world.now) then some { s with scheduler := .loopHead }
    else none
  | .ready t =>
    if fails then some { s with scheduler := .retrying t }
    else some { s.dispatch t with scheduler := .loopHead }
  | .retrying t =>
    if s.mu ≠ none then none
    else some { s.setQueued t true with
      timers := insertTimer s.world.now t s.timers
      scheduler := .retryWait }
  | .retryWait =>
    if signalled then
      if s.queueChanged then some { s with queueChanged := false, scheduler := .loopHead }
      else none
    else some { s with scheduler := .loopHead }
  | .finalDrain => some { s with scheduler := .finalDraining s.inbox, inbox := [] }
  | .finalDraining (t :: rest) =>
    if s.mu ≠ none then none else some { s.expedite t with scheduler := .finalDraining rest }
  | .finalDraining [] => some { s with scheduler := .finished }
  | .absent | .finished => none

/-! ### Dispatched coroutines -/

def setCoroutine (s : State) (k : Nat) (x : Coroutine) (pc : CoroutinePc) : State :=
  { s with coroutines := s.coroutines.set k { x with pc := pc } }

/-- A dispatched coroutine: `execute`. -/
def coroutineStep (s : State) (k : Nat) : Option State :=
  match s.coroutines[k]? with
  | none => none
  | some x =>
    match x.pc with
    | .claiming =>
      match s.calls[x.task]? with
      | none => none
      | some c =>
        if c.claimed then some (s.setCoroutine k x .finished)
        else some ((s.setCall x.task { c with claimed := true }).setCoroutine k x .resetting)
    | .resetting =>
      -- Destroying a `stop_callback` waits for the thread that runs it.
      if s.cancellers.all (fun y => y.task ≠ x.task ∨ y.pc = .finished) then
        some { s.setCoroutine k x .invoking with subs := s.subs.filter (·.2 ≠ x.task) }
      else none
    | .invoking =>
      some { s.setCoroutine k x .running with executions := s.executions ++ [x.task] }
    | .running =>
      if s.mu ≠ none then none
      else some { s.setCoroutine k x .exiting with
        pending := s.pending - 1
        finished := s.finished ++ [x.task] }
    | .exiting => some (s.setCoroutine k x .finished)
    | .finished => none

/-! ### stop -/

def setStop (s : State) (k : Nat) (x : StopCall) (pc : StopPc) : State :=
  { s with stops := s.stops.set k { x with pc := pc } }

/-- A `stop` call. -/
def stopStep (s : State) (k : Nat) : Option State :=
  match s.stops[k]? with
  | none => none
  | some x =>
    match x.pc with
    | .entered =>
      if s.mu ≠ none then none
      else match s.poolState with
        | .stopped => some (s.setStop k x .returned)
        | .stopping => some (s.setStop k x .waitStopped)
        | _ => some { s.setStop k x .waitPending with poolState := .stopping }
    | .waitPending =>
      -- A timeout is only reported; the wait goes on in `finishStop`.
      if s.mu ≠ none then none
      else if s.pending = 0 ∨ x.ctx.expired s.world then some (s.setStop k x .finishWait)
      else none
    | .finishWait =>
      if s.mu ≠ none then none
      else if s.pending = 0 then
        some (s.setStop k x (if s.tasks then .stopScheduler else .storeStopped))
      else none
    | .stopScheduler =>
      if s.mu ≠ none then none
      else some { s.setStop k x .joinScheduler with
        schedulerStopping := true
        queueChanged := true }
    | .joinScheduler =>
      if s.scheduler = .finished then some (s.setStop k x .cancelTasks) else none
    | .cancelTasks =>
      if s.coroutines.all (·.pc = .finished) then some (s.setStop k x .storeStopped) else none
    | .storeStopped =>
      if s.mu ≠ none then none
      else some { s.setStop k x .returned with poolState := .stopped }
    | .waitStopped =>
      if s.mu ≠ none then none
      else if s.poolState = .stopped then some (s.setStop k x .returned)
      else none
    | .returned | .threw _ => none

end State

/-! ### The transition system -/

/-- Who moves next, and what the environment decides for that step. -/
inductive Action
  | tick (now : Time)
  | fire (τ : TokenId)
  | start (fails : Bool)
  | callDelay (ctx : Context) (delayDuration : Time)
  | delay (i : TaskId) (fails nodeFails : Bool)
  | callback (k : Nat)
  | cancel (k : Nat)
  | scheduler (fails signalled : Bool)
  | coroutine (k : Nat)
  /-- `self` is whether the call is made by one of the pool's own callbacks. -/
  | callStop (ctx : Context) ( self : Bool)
  | stop (k : Nat)
  deriving DecidableEq, Repr

/-- One step of the delay pool. -/
def step (s : State) : Action → Option State
  | .tick now => if s.world.now ≤ now then some { s with world.now := now } else none
  | .fire τ => some { s with world.fired := τ :: s.world.fired }
  | .start fails => s.start fails
  | .callDelay ctx delayDuration =>
    some { s with calls := s.calls ++ [{ ctx, delayDuration, pc := .entered }] }
  | .delay i fails nodeFails => s.delayStep i fails nodeFails
  | .callback k => s.runCallback k
  | .cancel k => s.cancelStep k
  | .scheduler fails signalled => s.schedulerStep fails signalled
  | .coroutine k => s.coroutineStep k
  | .callStop ctx self =>
    some { s with stops := s.stops ++ [⟨ctx, if self then .threw .selfStop else .entered⟩] }
  | .stop k => s.stopStep k

/-- The delay pool, from its construction on. -/
def system : System State Action where
  init := State.init
  step := step

end ServiceLib.DelayPool
