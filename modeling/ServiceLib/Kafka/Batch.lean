import ServiceLib.Lib.Transition
import ServiceLib.Runtime.Context

namespace ServiceLib.Kafka

/-!
# Kafka batches — state and steps

`UserverConsumerClient::start` of `datasource/kafka/userver.hpp` gives the consumer a callback
for batches of polled messages.  It sorts the messages of a batch into partitions, starts one
task per partition (a *lane*), collects their results and may call `AsyncCommit`.

A lane that finds no room in `acquire` waits for `concurrencyCv_`.  Every wake-up only makes it
look again, and it may wake up without a reason, so it stays where it is and looks again.  Keys,
values, topics and headers are passed on and decide nothing here.
-/

/-- A partition number, after the cast to `std::uint32_t`. -/
abbrev Partition := Nat

/-- `QueuedMessage`. -/
structure Message where
  partition : Partition
  offset : Int
  deriving DecidableEq, Repr

/-! ### Partitions -/

/-- `partitions[partition].push_back(message)` on a `std::map`. -/
def push : List (Partition × List Message) → Message → List (Partition × List Message)
  | [], m => [(m.partition, [m])]
  | (p, ms) :: rest, m =>
    if m.partition < p then (m.partition, [m]) :: (p, ms) :: rest
    else if m.partition = p then (p, ms ++ [m]) :: rest
    else (p, ms) :: push rest m

/-- `partitions` after the first loop of the batch callback. -/
def partitionsOf (batch : List Message) : List (Partition × List Message) :=
  batch.foldl push []

/-! ### Threads -/

/-- A lane, in front of its next step. -/
inductive LanePc
  /-- The task has not started. -/
  | created
  /-- At the head of the loop over its messages. -/
  | next
  /-- The callback was called; about to enter `acquire`. -/
  | calling
  /-- In the loop of `acquire`. -/
  | admitting
  /-- Admitted; `process` is on its way to the end of `beginRequest`. -/
  | beginning
  /-- `beginRequest` returned; on its way to `consumeMessage`. -/
  | consuming
  /-- From `consumeMessage` to the end of `process`. -/
  | handling
  /-- About to call `release`; `throwing` when an exception leaves `process`. -/
  | releasing (throwing : Bool)
  /-- The callback returned; about to load `commitRequested`. -/
  | loading
  | finished
  | threw
  deriving DecidableEq, Repr

/-- A task of the batch callback.  The last two fields are history. -/
structure Lane where
  partition : Partition
  messages : List Message
  /-- The index of the message the loop is at. -/
  position : Nat
  pc : LanePc
  commit : Bool
  /-- Whether the task's cancellation was requested. -/
  cancelled : Bool
  /-- The messages whose `commitRequested` is set. -/
  requested : List Nat
  /-- The messages that `consumeMessage` received. -/
  handed : List Nat
  /-- The messages whose `commitRequested` was set when the lane looked. -/
  heard : List Nat
  deriving DecidableEq, Repr

/-- The task for the messages `x.2` of partition `x.1`. -/
def Lane.new (x : Partition × List Message) : Lane where
  partition := x.1
  messages := x.2
  position := 0
  pc := .created
  commit := false
  cancelled := false
  requested := []
  handed := []
  heard := []

/-- The batch callback. -/
inductive BatchPc
  /-- No batch was polled yet. -/
  | idle
  /-- Partitions for which a task is still to be started. -/
  | spawning (rest : List (Partition × List Message))
  /-- About to get the result of task `k`. -/
  | collecting (k : Nat) (commit : Bool)
  /-- Leaving with an exception: about to destroy task `k`, which cancels it and waits. -/
  | unwinding (k : Nat)
  | returned
  | threw
  deriving DecidableEq, Repr

/-- How far `stop` of the endpoint has come. -/
inductive EndpointPc
  | running
  /-- `stopped_` is set. -/
  | stopped
  /-- And `requestStopSource_` was triggered. -/
  | requestsStopped
  deriving DecidableEq, Repr

/-- What the environment decides in a step of a lane. -/
inductive Outcome
  | returns
  /-- The handler's call threw, and `process` deals with it. -/
  | fails
  /-- An exception that the callback does not deal with. -/
  | throws
  deriving DecidableEq, Repr

/-- A started endpoint and its consumer.  The last four fields are history; `delivered` and
    `committed` are about the current batch. -/
structure State where
  world : World
  endpoint : EndpointPc
  /-- `active_`. -/
  active : Nat
  batch : List Message
  pc : BatchPc
  lanes : List Lane
  /-- The messages the callback was called with, in the order of the calls. -/
  delivered : List Message
  /-- Whether `AsyncCommit` was called. -/
  committed : Bool
  /-- Every message polled so far, in any batch. -/
  polled : List Message
  /-- The messages that the calls of `AsyncCommit` have covered. -/
  covered : List Message
  deriving DecidableEq, Repr

def State.init : State where
  world := ⟨0, []⟩
  endpoint := .running
  active := 0
  batch := []
  pc := .idle
  lanes := []
  delivered := []
  committed := false
  polled := []
  covered := []

/-! ### What program counters stand for -/

/-- The message at the lane's position was handed to the callback. -/
def LanePc.called : LanePc → Bool
  | .calling | .admitting | .beginning | .consuming | .handling | .releasing _ | .loading => true
  | _ => false

def LanePc.ended : LanePc → Bool
  | .finished | .threw => true
  | _ => false

/-- Whether the consumer may call the batch callback. -/
def BatchPc.free : BatchPc → Bool
  | .idle | .returned | .threw => true
  | _ => false

namespace State

def setLane (s : State) (l : Nat) (x : Lane) : State := { s with lanes := s.lanes.set l x }

/-- `context.cancelled()` of a message: its context comes from the one the endpoint was started
    with, to which `start` added the token of `requestStopSource_`. -/
def cancelled (s : State) (owner : Context) : Bool :=
  owner.cancelled s.world || s.endpoint == .requestsStopped

/-! ### Lanes -/

/-- One look at the endpoint in `acquire`.  `limit` is what `concurrency` returns. -/
def acquire (s : State) (owner : Context) (l : Nat) (x : Lane) (limit : Int)
    (outcome : Outcome) : State :=
  if s.endpoint ≠ .running ∨ s.cancelled owner then s.setLane l { x with pc := .loading }
  else if outcome = .throws then s.setLane l { x with pc := .threw }
  else if limit ≤ 0 ∨ s.active < limit.toNat then
    { s.setLane l { x with pc := .beginning } with active := s.active + 1 }
  else s

/-- One step of lane `l`. -/
def laneStep (s : State) (owner : Context) (l : Nat) (limit : Int) (outcome : Outcome) :
    Option State :=
  match s.lanes[l]? with
  | none => none
  | some x =>
    match x.pc with
    -- A task that is cancelled before it starts does not run.
    | .created => some (s.setLane l { x with pc := if x.cancelled then .threw else .next })
    | .next =>
      match x.messages[x.position]? with
      | none => some (s.setLane l { x with pc := .finished })
      | some m =>
        some { s.setLane l { x with pc := .calling } with delivered := s.delivered ++ [m] }
    | .calling =>
      some (s.setLane l { x with pc := if outcome = .throws then .threw else .admitting })
    | .admitting => some (s.acquire owner l x limit outcome)
    | .beginning =>
      some (s.setLane l { x with
        pc := match outcome with
          | .returns => .consuming
          | .fails => .releasing false
          | .throws => .releasing true })
    | .consuming =>
      some (s.setLane l (match outcome with
        | .returns => { x with pc := .handling, handed := x.handed ++ [x.position] }
        | .fails => { x with pc := .releasing false }
        | .throws => { x with pc := .releasing true }))
    | .handling => some (s.setLane l { x with pc := .releasing (outcome == .throws) })
    | .releasing throwing =>
      some { s.setLane l { x with pc := if throwing then .threw else .loading } with
        active := s.active - 1 }
    | .loading =>
      some (s.setLane l { x with
        pc := .next
        position := x.position + 1
        commit := x.commit || x.requested.contains x.position
        heard := if x.requested.contains x.position then x.heard ++ [x.position] else x.heard })
    | .finished | .threw => none

/-- Somebody calls `commit()` of message `i` of lane `l`, or of a copy of it: the handler has it
    from `consumeMessage` on. -/
def request (s : State) (l i : Nat) : Option State :=
  match s.lanes[l]? with
  | none => none
  | some x =>
    if x.handed.contains i then some (s.setLane l { x with requested := i :: x.requested })
    else none

/-! ### The batch callback -/

/-- The consumer calls the batch callback; `fails` when the copy of the messages cannot be
    allocated. -/
def poll (s : State) (batch : List Message) (fails : Bool) : Option State :=
  if s.pc.free then
    some { s with
      batch := batch
      pc := if fails then .threw else .spawning (partitionsOf batch)
      lanes := []
      delivered := []
      committed := false
      polled := s.polled ++ batch }
  else none

/-- `AsyncCommit`, which commits the positions of everything polled so far. -/
def asyncCommit (s : State) : State := { s with committed := true, covered := s.polled }

/-- One step of the batch callback; `fails` when a task cannot be started, or when the callback
    is itself cancelled while it waits. -/
def batchStep (s : State) (fails : Bool) : Option State :=
  match s.pc with
  | .spawning [] => some { s with pc := .collecting 0 false }
  | .spawning (x :: rest) =>
    if fails then some { s with pc := .unwinding 0 }
    else some { s with lanes := s.lanes ++ [.new x], pc := .spawning rest }
  | .collecting k commit =>
    match s.lanes[k]? with
    | none =>
      some (if commit then { s with pc := .returned }.asyncCommit else { s with pc := .returned })
    | some x =>
      if fails then some { s with pc := .unwinding 0 }
      else
        match x.pc with
        | .finished => some { s with pc := .collecting (k + 1) (x.commit || commit) }
        | .threw => some { s with pc := .unwinding 0 }
        | _ => none
  | .unwinding k =>
    match s.lanes[k]? with
    | none => some { s with pc := .threw }
    | some x =>
      if x.pc.ended then some { s with pc := .unwinding (k + 1) }
      else if x.cancelled then none
      else some (s.setLane k { x with cancelled := true })
  | .idle | .returned | .threw => none

/-- `stop` of the endpoint. -/
def stopStep (s : State) : Option State :=
  match s.endpoint with
  | .running => some { s with endpoint := .stopped }
  | .stopped => some { s with endpoint := .requestsStopped }
  | .requestsStopped => none

end State

/-! ### The transition system -/

/-- Who moves next, and what the environment decides for that step. -/
inductive Action
  | tick (now : Time)
  | fire (τ : TokenId)
  | stop
  | poll (batch : List Message) (fails : Bool)
  | batch (fails : Bool)
  | lane (l : Nat) (limit : Int) (outcome : Outcome)
  | request (l i : Nat)
  deriving DecidableEq, Repr

/-- One step of the consumer. -/
def step (owner : Context) (s : State) : Action → Option State
  | .tick now => if s.world.now ≤ now then some { s with world.now := now } else none
  | .fire τ => some { s with world.fired := τ :: s.world.fired }
  | .stop => s.stopStep
  | .poll batch fails => s.poll batch fails
  | .batch fails => s.batchStep fails
  | .lane l limit outcome => s.laneStep owner l limit outcome
  | .request l i => s.request l i

/-- The consumer of an endpoint that was started with the context `owner`. -/
def system (owner : Context) : System State Action where
  init := .init
  step := step owner

end ServiceLib.Kafka
