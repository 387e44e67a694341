import ServiceLib.Lib.Transition
import ServiceLib.Source.Request
import ServiceLib.Store.RotatingMap

namespace ServiceLib.Source

/-!
# Source endpoints — state and steps

An endpoint with its requests, the results that arrive for them and the writes through their
senders.

The endpoint is started and not yet stopped.  The mutex of `pending_` and `callbacksMutex` are
held within single steps.
-/

/-! ### Deliveries -/

/-- Program points of `consumeResult`. -/
inductive DeliveryPc
  /-- About to look for its stream id. -/
  | looking
  /-- Found request `i`; about to lock its `lifetimeMutex`. -/
  | locking (i : RequestId)
  /-- Holds it shared; about to look again. -/
  | rechecking (i : RequestId)
  /-- About to call `getMessageId` and to look for the callback. -/
  | finding (i : RequestId)
  | calling (i : RequestId) (m : MessageId) (registration : Registration)
  /-- The callback returned true: about to erase message id `m`. -/
  | erasing (i : RequestId) (m : MessageId) (registration : Registration)
  /-- An endpoint without a result stream drops the result. -/
  | ignored
  /-- `metrics_.missingStreamId`. -/
  | missing
  /-- `metrics_.lateResult`. -/
  | late
  /-- `metrics_.unknownMessageId`. -/
  | unknown (i : RequestId)
  /-- `metrics_.duplicateMessageId`. -/
  | duplicate (i : RequestId)
  | delivered (i : RequestId)
  /-- The handler or the callback threw. -/
  | threw (i : RequestId)
  deriving DecidableEq, Repr

/-- The request that a delivery is concerned with. -/
def DeliveryPc.request : DeliveryPc → Option RequestId
  | .locking i | .rechecking i | .finding i | .calling i _ _ | .erasing i _ _ => some i
  | _ => none

/-- A call of `consumeResult`, with the stream id of its context. -/
structure Delivery where
  streamId : Option StreamId
  pc : DeliveryPc
  deriving DecidableEq, Repr

/-- What the handler does in a step of a delivery. -/
inductive Answer
  /-- `getMessageId` returns `m`. -/
  | message (m : MessageId)
  /-- The callback returns whether it is to be removed. -/
  | remove (b : Bool)
  | throws
  deriving DecidableEq, Repr

/-! ### Sends -/

/-- Program points of `Sender::send`. -/
inductive SendPc
  /-- About to lock `mu_`. -/
  | locking
  /-- Holds it; in `send_`. -/
  | writing
  /-- Holds it; about to try `doneSent` for a client-streaming call. -/
  | completing
  /-- Holds it; about to send `done`. -/
  | waking
  | returned
  | threw
  deriving DecidableEq, Repr

/-- A call of `send` on the sender of a request. -/
structure SendCall where
  request : RequestId
  pc : SendPc
  deriving DecidableEq, Repr

/-! ### The endpoint -/

structure State where
  world : World
  /-- Whether `requestStopSource_` was triggered. -/
  stopRequested : Bool
  pending : Rotating.RotatingMap StreamId RequestId
  /-- The gauge of pending requests. -/
  pendingRequests : Int
  requests : List Request
  deliveries : List Delivery
  sends : List SendCall
  /-- How many callbacks have been registered; names the next registration. -/
  registrations : Nat

/-- An endpoint that has just been started. -/
def State.init (P : Endpoint) : State where
  world := ⟨0, []⟩
  stopRequested := false
  pending := .empty P.hash P.minCapacity
  pendingRequests := 0
  requests := []
  deliveries := []
  sends := []
  registrations := 0

namespace State

def setRequest (s : State) (i : RequestId) (r : Request) : State :=
  { s with requests := s.requests.set i r }

def setDelivery (s : State) (d : Nat) (x : Delivery) (pc : DeliveryPc) : State :=
  { s with deliveries := s.deliveries.set d { x with pc := pc } }

def setSend (s : State) (k : Nat) (x : SendCall) (pc : SendPc) : State :=
  { s with sends := s.sends.set k { x with pc := pc } }

/-! ### Steps of a request -/

def beginStep (P : Endpoint) (s : State) (i : RequestId) (begun : Option (Context × StreamId)) :
    Option State :=
  match s.requests[i]? with
  | none => none
  | some r => if r.pc = .beginning then some (s.setRequest i (r.begin P begun)) else none

/-- One step of a request after `beginRequest`.  There is none once an exception has left it. -/
def requestStep (P : Endpoint) (s : State) (i : RequestId) (choice : Choice) : Option State :=
  match s.requests[i]? with
  | none => none
  | some r =>
    if r.escaped then none else
    match r.pc, choice with
    | .registering, .fail => some (s.setRequest i (r.throwing P .registration))
    | .registering, .go =>
      match s.pending.set r.streamId i with
      -- `DuplicateKeyError`
      | none => some (s.setRequest i (r.throwing P .registration))
      | some pending =>
        some { s.setRequest i { r with pc := .adding, pendingInserted := true } with
          pending := pending }
    | .adding, .go =>
      some { s.setRequest i { r with pc := .consuming, counted := true, exposed := P.exposes } with
        pendingRequests := s.pendingRequests + 1 }
    | .popping, .go =>
      some { s.setRequest i { r.goto (r.nextFinal P) with pendingInserted := false } with
        pending := (s.pending.pop r.streamId).2 }
    | .removing, .go =>
      some { s.setRequest i { r.goto (r.nextFinal P) with counted := false } with
        pendingRequests := s.pendingRequests - 1 }
    | _, _ => (r.advance P s.world s.stopRequested choice).map (s.setRequest i)

/-! ### Completing a request -/

/-- The stop callback of token `τ` is invoked. -/
def notifyStep (s : State) (i : RequestId) (τ : TokenId) : Option State :=
  match s.requests[i]? with
  | none => none
  | some r =>
    if τ ∈ r.subscriptions ∧ s.world.stopRequested τ then
      some (s.setRequest i { r with
        subscriptions := r.subscriptions.erase τ, result := r.result.tryWake })
    else none

/-- The stop callback of `requestStopSource_` is invoked. -/
def notifyStopStep (s : State) (i : RequestId) : Option State :=
  match s.requests[i]? with
  | none => none
  | some r =>
    if r.endpointSubscribed ∧ s.stopRequested then
      some (s.setRequest i { r with endpointSubscribed := false, result := r.result.tryWake })
    else none

/-- `done()` on a `ResultContext` of request `i`: its first atomic access, which in HTTP and gRPC
    is the compare-exchange. -/
def completeStep (P : Endpoint) (s : State) (i : RequestId) : Option State :=
  match s.requests[i]? with
  | none => none
  | some r =>
    if r.exposed then
      some (s.setRequest i { r with
        result := if P.kind.guardsPop then r.result.tryWake
          else { r.result with completed := true, signalling := r.result.signalling + 1 } })
    else none

/-- The compare-exchange of `done()` in a local or Kafka source. -/
def signalStep (s : State) (i : RequestId) : Option State :=
  match s.requests[i]? with
  | none => none
  | some r =>
    if 0 < r.result.signalling then
      some (s.setRequest i { r with
        result := { r.result with signalling := r.result.signalling - 1 }.tryWake })
    else none

/-- `done.Send()`, of `done()` or of a stop callback. -/
def wakeStep (s : State) (i : RequestId) : Option State :=
  match s.requests[i]? with
  | none => none
  | some r =>
    if 0 < r.result.sending then some (s.setRequest i { r with result := r.result.wake })
    else none

/-- `setResultCallback` on a `ResultContext` of request `i`. -/
def setResultCallback (s : State) (i : RequestId) (m : MessageId) (callable : Bool) :
    Option State :=
  match s.requests[i]? with
  | none => none
  | some r =>
    if r.exposed then
      some { s.setRequest i { r with result := r.result.register m ⟨s.registrations, callable⟩ }
        with registrations := s.registrations + 1 }
    else none

/-! ### Steps of a delivery -/

/-- A delivery to request `i` ends, and its shared lock is released. -/
def endDelivery (s : State) (d : Nat) (x : Delivery) (i : RequestId) (r : Request)
    (pc : DeliveryPc) : State :=
  (s.setRequest i { r with
    result := { r.result with readers := r.result.readers - 1 } }).setDelivery
    d x pc

/-- The part of `consumeResult` that concerns one request. -/
def deliverTo (s : State) (d : Nat) (x : Delivery) (i : RequestId) (r : Request)
    (answer : Answer) : Option State :=
  match x.pc, answer with
  | .locking _, _ =>
    if r.result.writer then none
    else some ((s.setRequest i { r with
      result := { r.result with readers := r.result.readers + 1 } }).setDelivery
        d x (.rechecking i))
  | .rechecking _, _ =>
    if x.streamId.bind s.pending.get = some i then some (s.setDelivery d x (.finding i))
    else some (s.endDelivery d x i r .late)
  | .finding _, .message m =>
    match r.result.callbacks.lookup m with
    | none => some (s.endDelivery d x i r (.unknown i))
    | some registration =>
      if registration.callable then some (s.setDelivery d x (.calling i m registration))
      else some (s.endDelivery d x i r (.unknown i))
  | .calling _ m registration, .remove true =>
    some (s.setDelivery d x (.erasing i m registration))
  | .calling _ _ _, .remove false => some (s.endDelivery d x i r (.delivered i))
  | .erasing _ m _, _ =>
    some (s.endDelivery d x i { r with result := r.result.remove m }
      (if m ∈ r.result.callbacks then .delivered i else .duplicate i))
  | .finding _, .throws | .calling _ _ _, .throws => some (s.endDelivery d x i r (.threw i))
  | _, _ => none

/-- One step of a delivery. -/
def deliveryStep (P : Endpoint) (s : State) (d : Nat) (answer : Answer) : Option State :=
  match s.deliveries[d]? with
  | none => none
  | some x =>
    match x.pc.request with
    | some i =>
      match s.requests[i]? with
      | none => none
      | some r => s.deliverTo d x i r answer
    | none =>
      if x.pc = .looking then
        -- Only local and Kafka sources look at `hasResult_`.
        if P.kind.guardsPop = false ∧ P.hasResult = false then some (s.setDelivery d x .ignored)
        else
          match x.streamId with
          | none => some (s.setDelivery d x .missing)
          | some streamId =>
            match s.pending.get streamId with
            | none => some (s.setDelivery d x .late)
            | some i => some (s.setDelivery d x (.locking i))
      else none

/-! ### Steps of a send -/

/-- A send on the sender of request `i` ends, and `mu_` is released. -/
def endSend (s : State) (k : Nat) (x : SendCall) (r : Request) (pc : SendPc) : State :=
  (s.setRequest x.request { r with sender := { r.sender with locked := false } }).setSend k x pc

/-- One step of a send; `fails` is whether a write to the stream throws. -/
def sendStep (P : Endpoint) (s : State) (k : Nat) (fails : Bool) : Option State :=
  match s.sends[k]? with
  | none => none
  | some x =>
    match s.requests[x.request]? with
    | none => none
    | some r =>
      match x.pc with
      | .locking =>
        if r.sender.locked then none
        else if r.sender.active then
          some ((s.setRequest x.request { r with
            sender := { r.sender with locked := true } }).setSend k x .writing)
        -- "gRPC stream is closed"
        else some (s.setSend k x .threw)
      | .writing =>
        match P.kind with
        | .grpc .noStreaming =>
          -- "unary response sent twice"
          if r.sender.response then some (s.endSend k x r .threw)
          else some (s.endSend k x { r with
            sender := { r.sender with response := true, responseReady := true } } .returned)
        | .grpc .clientStreaming =>
          some ((s.setRequest x.request { r with
            sender := { r.sender with response := true } }).setSend k x .completing)
        | _ => some (s.endSend k x r (if fails then .threw else .returned))
      | .completing =>
        if r.result.doneSent then some (s.endSend k x r .returned)
        else some ((s.setRequest x.request { r with
          result := r.result.tryWake }).setSend k x .waking)
      | .waking => some (s.endSend k x { r with result := r.result.wake } .returned)
      | .returned | .threw => none

/-- A handler or a callback calls `send`. -/
def callSend (P : Endpoint) (s : State) (i : RequestId) : Option State :=
  match s.requests[i]? with
  | none => none
  | some r =>
    -- `consumeMessage` is given the sender, with or without a result stream.
    if P.kind.isGrpc ∧ (if P.hasResult then r.exposed else r.begun) then
      some { s with sends := s.sends ++ [⟨i, .locking⟩] }
    else none

end State

/-! ### The transition system -/

inductive Action
  | tick (now : Time)
  | fire (τ : TokenId)
  /-- `requestStopSource_.request_stop()`. -/
  | requestStop
  /-- A message or call is let in. -/
  | receive (ctx : Context)
  | begin (i : RequestId) (begun : Option (Context × StreamId))
  | request (i : RequestId) (choice : Choice)
  | notify (i : RequestId) (τ : TokenId)
  | notifyStop (i : RequestId)
  | complete (i : RequestId)
  | signal (i : RequestId)
  | wake (i : RequestId)
  | setResultCallback (i : RequestId) (m : MessageId) (callable : Bool)
  /-- A result arrives. -/
  | consumeResult (streamId : Option StreamId)
  | delivery (d : Nat) (answer : Answer)
  | callSend (i : RequestId)
  | send (k : Nat) (fails : Bool)
  /-- `pending_` rotates one of its shards. -/
  | rotate (shard : Fin Rotating.shardCount)
  deriving DecidableEq, Repr

/-- One step of an endpoint. -/
def step (P : Endpoint) (s : State) : Action → Option State
  | .tick now => if s.world.now ≤ now then some { s with world.now := now } else none
  | .fire τ => some { s with world.fired := τ :: s.world.fired }
  | .requestStop => some { s with stopRequested := true }
  | .receive ctx => some { s with requests := s.requests ++ [.new ctx] }
  | .begin i begun => s.beginStep P i begun
  | .request i choice => s.requestStep P i choice
  | .notify i τ => s.notifyStep i τ
  | .notifyStop i => s.notifyStopStep i
  | .complete i => s.completeStep P i
  | .signal i => s.signalStep i
  | .wake i => s.wakeStep i
  | .setResultCallback i m callable => s.setResultCallback i m callable
  | .consumeResult streamId =>
    some { s with deliveries := s.deliveries ++ [⟨streamId, .looking⟩] }
  | .delivery d answer => s.deliveryStep P d answer
  | .callSend i => s.callSend P i
  | .send k fails => s.sendStep P k fails
  | .rotate shard => some { s with pending := s.pending.rotateShard shard }

/-- A source endpoint, from a start on. -/
def system (P : Endpoint) : System State Action where
  init := .init P
  step := step P

end ServiceLib.Source
