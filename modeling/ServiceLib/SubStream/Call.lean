import ServiceLib.Lib.Transition
import ServiceLib.Runtime.Context

namespace ServiceLib.SubStream

/-!
# SubStream calls — one call

`SubStreamCall` hands the results of one invocation to its collector.  `closed_` ends the call,
`callbackMutex_` is held while the collector runs, and `done_` wakes the caller.

* any number of coroutines are in `deliver`, `cancel`, `wait` and `close` at once, and each step
  is one access to what they share;
* `cancel` runs inside the other three: under the mutex in `deliver`, before it in `wait` and
  `close`;
* the collector is arbitrary: each of its runs ends as the environment likes.

`wait` is given the deadline of the caller.  Without one, `done_.Wait` throws when the engine
cancels the waiting task; with one, `done_.WaitUntil` only returns early.
-/

/-- How a run of the collector ends: `out` returns, or it throws `e`. -/
inductive Out (E : Type)
  | returned (completed : Bool)
  | threw (e : E)
  deriving DecidableEq, Repr

/-- The run is the last one. -/
def Out.final {E : Type} : Out E → Bool
  | .returned completed => completed
  | .threw _ => true

/-- How an operation on the call ends. -/
inductive Ending (E : Type)
  | returned
  /-- What the collector threw. -/
  | threw (e : E)
  /-- "SubStream invocation cancelled" -/
  | cancelled
  /-- The engine cancelled the task in `done_.Wait`. -/
  | interrupted
  deriving DecidableEq, Repr

/-- The operations.  `via` is history: the context with which the result came. -/
inductive Op (R : Type)
  | deliver (value : R) (via : Nat)
  | cancel
  | wait (deadline : Option Time)
  | close
  deriving DecidableEq, Repr

inductive Pc (E : Type)
  /-- The first look of `deliver` at `closed_`. -/
  | loading
  /-- In `done_.Wait` or `done_.WaitUntil`. -/
  | waiting
  /-- In `cancel`, before `closed_.exchange(true)`. -/
  | exchanging
  /-- In `cancel`, before `done_.Send()`. -/
  | sending
  /-- About to lock `callbackMutex_`. -/
  | locking
  /-- The second look of `deliver` at `closed_`. -/
  | checking
  /-- Before `context_->cancelled()`. -/
  | polling
  /-- In `collector_->out`. -/
  | calling
  /-- The end of `deliver`. -/
  | unlocking
  /-- `wait` looks at `error_` and `completed_`. -/
  | reading
  /-- `close` resets what the call holds. -/
  | resetting
  | ended (r : Ending E)
  deriving DecidableEq, Repr

/-- A coroutine in one of the operations. -/
structure Thread (R E : Type) where
  op : Op R
  pc : Pc E
  deriving DecidableEq, Repr

/-- `SubStreamCall`, and who is in it.  The last two fields are history: the results the collector
    was run with, and how its runs ended. -/
structure SubStreamCall (R E : Type) where
  closed : Bool
  callbackMutex : Bool
  /-- How often `done_` was sent. -/
  done : Nat
  context : Option Context
  /-- Whether `collector_` is set. -/
  collector : Bool
  error : Option E
  completed : Bool
  threads : List (Thread R E)
  invoked : List (R × Nat)
  outs : List (Out E)
  deriving DecidableEq, Repr

variable {R E : Type}

namespace Op

def isDeliver : Op R → Bool
  | .deliver _ _ => true
  | _ => false

/-- `wait` and `close` drain the call. -/
def drains : Op R → Bool
  | .wait _ | .close => true
  | _ => false

/-- Where an operation begins. -/
def first (E : Type) : Op R → Pc E
  | .deliver _ _ => .loading
  | .cancel => .exchanging
  | .wait _ => .waiting
  | .close => .exchanging

/-- Where it goes on after `cancel`. -/
def afterCancel (E : Type) : Op R → Pc E
  | .deliver _ _ => .unlocking
  | .cancel => .ended .returned
  | .wait _ => .locking
  | .close => .locking

/-- Where it goes on under the mutex; `cancel` does not take it. -/
def afterLock (E : Type) : Op R → Pc E
  | .deliver _ _ => .checking
  | .cancel => .ended .returned
  | .wait _ => .reading
  | .close => .resetting

end Op

/-- What the environment chooses in a step. -/
inductive Choice (E : Type)
  | go
  /-- The run of the collector ends. -/
  | out (r : Out E)
  /-- `done_.WaitUntil` reaches the deadline. -/
  | timeout
  /-- The engine cancels the waiting task. -/
  | interrupt
  deriving DecidableEq, Repr

namespace SubStreamCall

/-- The constructor. -/
def init (context : Context) : SubStreamCall R E where
  closed := false
  callbackMutex := false
  done := 0
  context := some context
  collector := true
  error := none
  completed := false
  threads := []
  invoked := []
  outs := []

/-- A coroutine enters an operation. -/
def begin (c : SubStreamCall R E) (op : Op R) : SubStreamCall R E :=
  { c with threads := c.threads ++ [⟨op, op.first E⟩] }

def goto (c : SubStreamCall R E) (t : Nat) (op : Op R) (pc : Pc E) : SubStreamCall R E :=
  { c with threads := c.threads.set t ⟨op, pc⟩ }

/-- The end of `done_.Wait()` or `done_.WaitUntil(deadline)`. -/
def waitStep (c : SubStreamCall R E) (w : World) (deadline : Option Time) :
    Choice E → Option (Pc E)
  | .go => if 0 < c.done then some .exchanging else none
  | .timeout => if deadline.any (fun d => decide (d ≤ w.now)) then some .exchanging else none
  | .interrupt => some (if deadline.isSome then .exchanging else .ended .interrupted)
  | .out _ => none

/-- `deliver` looks at the context and runs the collector.  There is no step where the source would
    use what `close` has reset. -/
def pollStep (c : SubStreamCall R E) (w : World) (t : Nat) (op : Op R) :
    Option (SubStreamCall R E) :=
  match op, c.context, c.collector with
  | .deliver value via, some context, true =>
    if context.cancelled w then some (c.goto t op .exchanging)
    else some ({ c with invoked := c.invoked ++ [(value, via)] }.goto t op .calling)
  | _, _, _ => none

/-- A run of the collector ends. -/
def outStep (c : SubStreamCall R E) (t : Nat) (op : Op R) (r : Out E) : SubStreamCall R E :=
  let c' := { c with outs := c.outs ++ [r] }
  match r with
  | .returned true => { c' with completed := true }.goto t op .exchanging
  | .returned false => c'.goto t op .unlocking
  | .threw e => { c' with error := some e }.goto t op .exchanging

/-- What `wait` returns or throws. -/
def result (c : SubStreamCall R E) : Ending E :=
  match c.error with
  | some e => .threw e
  | none => if c.completed then .returned else .cancelled

/-- A step of a coroutine that needs no choice. -/
def goStep (c : SubStreamCall R E) (w : World) (t : Nat) (op : Op R) :
    Pc E → Option (SubStreamCall R E)
  | .loading => some (c.goto t op (if c.closed then .ended .returned else .locking))
  | .exchanging =>
    some ({ c with closed := true }.goto t op (if c.closed then op.afterCancel E else .sending))
  | .sending => some ({ c with done := c.done + 1 }.goto t op (op.afterCancel E))
  | .locking =>
    if c.callbackMutex then none
    else some ({ c with callbackMutex := true }.goto t op (op.afterLock E))
  | .checking => some (c.goto t op (if c.closed then .unlocking else .polling))
  | .polling => c.pollStep w t op
  | .unlocking => some ({ c with callbackMutex := false }.goto t op (.ended .returned))
  | .reading => some ({ c with callbackMutex := false }.goto t op (.ended c.result))
  | .resetting =>
    some ({ c with callbackMutex := false, collector := false, context := none, error := none }.goto
      t op (.ended .returned))
  | .waiting | .calling | .ended _ => none

/-- One step of coroutine `t`. -/
def runStep (c : SubStreamCall R E) (w : World) (t : Nat) (o : Choice E) :
    Option (SubStreamCall R E) :=
  match c.threads[t]? with
  | none => none
  | some ⟨op, pc⟩ =>
    match pc, op, o with
    | .waiting, .wait deadline, o => (c.waitStep w deadline o).map (c.goto t op)
    | .calling, op, .out r => some (c.outStep t op r)
    | pc, op, .go => c.goStep w t op pc
    | _, _, _ => none

end SubStreamCall

end ServiceLib.SubStream
