import ServiceLib.Runtime.Context
import Mathlib.Data.List.AList

namespace ServiceLib.Source

/-!
# Source endpoints — a request on its own

A source endpoint turns each message or call into a request: it calls `beginRequest`, registers
the request under its stream id in `pending_`, hands the message to `consumeMessage`, waits for
the result and finalizes the request with `endRequest`.

A request starts here once the endpoint has let it in.  Spans, log lines and the metrics other
than the gauge of pending requests are left out, as is `request_stop` of the cancellation that a
gRPC or an HTTP request passes on to its downstream contexts.  What recording a span, copying a
string or allocating can throw is kept: within the `try` block it is a failure like any other,
outside of it the exception leaves `handle` or `process`, and the request is never finalized
(`Request.mayEscape`).
-/

abbrev StreamId := Nat
abbrev MessageId := Nat
abbrev RequestId := Nat

/-- `api::GrpcMethodType`. -/
inductive Method
  | noStreaming
  | clientStreaming
  | serverStreaming
  | bidirectionalStreaming
  deriving DecidableEq, Repr

inductive Kind
  | localSource
  | kafka
  | http
  | grpc (method : Method)
  deriving DecidableEq, Repr

/-- What an endpoint is constructed with. -/
structure Endpoint where
  kind : Kind
  hasResult : Bool
  /-- The hash of `pending_` and its minimum capacity. -/
  hash : StreamId → Nat
  minCapacity : Nat

namespace Kind

def isGrpc : Kind → Bool
  | .grpc _ => true
  | _ => false

/-- Whether the client may send more than one message. -/
def readsMany : Kind → Bool
  | .grpc .clientStreaming | .grpc .bidirectionalStreaming => true
  | _ => false

/-- Whether finalization looks at `pendingInserted` before it removes the pending entry. -/
def guardsPop : Kind → Bool
  | .localSource | .kafka => false
  | .http | .grpc _ => true

/-- The tokens whose stop callbacks wake a waiting request.  HTTP has none, and those of gRPC
    are part of `waitForResult`. -/
def listens (kind : Kind) (ctx : Context) : List TokenId :=
  match kind with
  | .localSource => ctx.stopToken.toList
  | .kafka => ctx.stopToken.toList ++ ctx.externalStopTokens
  | .http | .grpc _ => []

end Kind

/-- Whether finalization runs under `lifetimeMutex`. -/
def Endpoint.locks (P : Endpoint) : Bool :=
  match P.kind with
  | .http => P.hasResult
  | _ => true

/-- Whether a request's `consumeMessage` is given a `ResultContext` that refers to it. -/
def Endpoint.exposes (P : Endpoint) : Bool :=
  match P.kind with
  | .grpc _ => P.hasResult
  | _ => true

/-! ### What a request shares -/

/-- A `shared_ptr<Callback>`: which one it is, and whether its `std::function` is not empty. -/
structure Registration where
  id : Nat
  callable : Bool
  deriving DecidableEq, Repr

/-- `PendingResult`, and the part of the gRPC `RequestState` that corresponds to it. -/
structure PendingResult where
  done : Bool
  /-- `doneSent`, or `wakeSent` of a local or Kafka source: whoever sets it sends `done`. -/
  doneSent : Bool
  /-- Of a local or Kafka source: `done()` was called. -/
  completed : Bool
  /-- Threads in `done()` that are about to try `wakeSent`. -/
  signalling : Nat
  /-- Threads that set `doneSent` and are about to send `done`. -/
  sending : Nat
  /-- Shared and exclusive holders of `lifetimeMutex`. -/
  readers : Nat
  writer : Bool
  callbacks : AList (fun _ : MessageId => Registration)
  /-- How many callbacks have been registered under a message id that had none, and how many
      deliveries have removed: history. -/
  registered : Nat
  removed : Nat
  /-- Only the gRPC registry is ever closed. -/
  callbacksClosed : Bool

namespace PendingResult

def new : PendingResult where
  done := false
  doneSent := false
  completed := false
  signalling := 0
  sending := 0
  readers := 0
  writer := false
  callbacks := ∅
  registered := 0
  removed := 0
  callbacksClosed := false

/-- `doneSent.compare_exchange_strong`; the winner is about to send `done`. -/
def tryWake (p : PendingResult) : PendingResult :=
  if p.doneSent then p else { p with doneSent := true, sending := p.sending + 1 }

/-- `done.Send()` of one of the threads that are about to. -/
def wake (p : PendingResult) : PendingResult := { p with sending := p.sending - 1, done := true }

/-- `setResultCallback`, under `callbacksMutex`. -/
def register (p : PendingResult) (m : MessageId) (registration : Registration) : PendingResult :=
  if p.callbacksClosed then p
  else { p with
    callbacks := p.callbacks.insert m registration
    registered := if m ∈ p.callbacks then p.registered else p.registered + 1 }

/-- A delivery erases message id `m`, under `callbacksMutex`. -/
def remove (p : PendingResult) (m : MessageId) : PendingResult :=
  { p with
    callbacks := p.callbacks.erase m
    removed := if m ∈ p.callbacks then p.removed + 1 else p.removed }

end PendingResult

/-- The `Sender` of a gRPC request, with the `response` and `responseReady` of a unary one. -/
structure Sender where
  /-- Whether `mu_` is locked. -/
  locked : Bool
  active : Bool
  response : Bool
  responseReady : Bool
  deriving DecidableEq, Repr

/-! ### Requests -/

/-- Program points of a request. -/
inductive RequestPc
  /-- About to call `beginRequest`. -/
  | beginning
  /-- About to call `pending_.set`. -/
  | registering
  /-- About to call `metrics_.pendingAdd`. -/
  | adding
  /-- In `consumeMessage`, or between two messages. -/
  | consuming
  /-- About to construct the stop callbacks. -/
  | subscribing
  /-- Waiting for the result. -/
  | waiting
  /-- A local or Kafka source received `done`. -/
  | checking
  /-- The deadline came first, or a cancellation: about to try `wakeSent`. -/
  | expiring
  /-- Someone else set `wakeSent`: waits for its `Send`. -/
  | draining
  /-- About to lock `lifetimeMutex`. -/
  | locking
  /-- About to decide whether the result came in spite of the failed wait. -/
  | settling
  /-- About to call `pending_.pop`. -/
  | popping
  /-- About to call `metrics_.pendingRemove`. -/
  | removing
  /-- About to close the sender. -/
  | closing
  /-- About to clear the callbacks. -/
  | clearing
  /-- About to check `done.IsReady()`. -/
  | verifying
  /-- In `endRequest`. -/
  | ending
  | finished
  deriving DecidableEq, Repr

/-- Between `consumeMessage` and finalization. -/
def RequestPc.waits : RequestPc → Bool
  | .subscribing | .waiting | .checking | .expiring | .draining => true
  | _ => false

/-- The `error` that finalization passes to `endRequest`. -/
inductive RequestError
  /-- `pending_.set` threw. -/
  | registration
  /-- Reading or handling a message threw. -/
  | handler
  | resultWait
  /-- `HttpRequestCancelledError`. -/
  | cancelled
  /-- `endRequest` threw. -/
  | endRequest
  deriving DecidableEq, Repr

/-- A request.  The last four fields are history. -/
structure Request where
  ctx : Context
  streamId : StreamId
  pc : RequestPc
  result : PendingResult
  sender : Sender
  /-- Whether a `ResultContext` was handed out. -/
  exposed : Bool
  /-- Whether the request was inserted into `pending_` and has not removed its entry:
      `pendingInserted` of HTTP and gRPC, which the other kinds do not record. -/
  pendingInserted : Bool
  /-- The tokens of the stop callbacks that have not been invoked. -/
  subscriptions : List TokenId
  /-- The same for `requestStopSource_`. -/
  endpointSubscribed : Bool
  resultWaitFailed : Bool
  error : Option RequestError
  /-- Whether an exception has left `handle` or `process`, at `pc`. -/
  escaped : Bool
  /-- Whether `beginRequest` returned. -/
  begun : Bool
  /-- Whether the gauge counts the request. -/
  counted : Bool
  /-- Whether a `done()` had set `doneSent` when finalization took `lifetimeMutex`. -/
  doneBefore : Bool
  /-- Calls of `endRequest`. -/
  endings : Nat

/-- A message or call was let in. -/
def Request.new (ctx : Context) : Request where
  ctx := ctx
  streamId := 0
  pc := .beginning
  result := .new
  sender := ⟨false, true, false, false⟩
  exposed := false
  pendingInserted := false
  subscriptions := []
  endpointSubscribed := false
  resultWaitFailed := false
  error := none
  escaped := false
  begun := false
  counted := false
  doneBefore := false
  endings := 0

/-- How a request takes its next step. -/
inductive Choice
  | go
  /-- An allocation fails, the handler throws, or a wait ends at its deadline. -/
  | fail
  /-- The coroutine is cancelled while it waits. -/
  | interrupt
  /-- Another message is read. -/
  | again
  /-- An exception leaves the request without `endRequest`. -/
  | escape
  deriving DecidableEq, Repr

namespace Request

/-- Whether the event that the request waits for is ready. -/
def ready (P : Endpoint) (r : Request) : Bool :=
  match P.kind with
  | .grpc .noStreaming => r.sender.responseReady
  | _ => r.result.done

/-- Whether finalization may drop the error of a failed wait. -/
def completionReady (P : Endpoint) (r : Request) : Bool :=
  match P.kind with
  | .localSource | .kafka => r.result.completed
  | .grpc .noStreaming => r.sender.responseReady
  | .http | .grpc _ => r.result.doneSent

/-- The request goes to `pc`, counting a call of `endRequest`. -/
def goto (r : Request) (pc : RequestPc) : Request :=
  { r with pc := pc, endings := if pc = .ending then r.endings + 1 else r.endings }

/-- Leaves the `try` block: HTTP finalizes without the lock if it has no result stream. -/
def finalize (P : Endpoint) (r : Request) : Request :=
  r.goto (if P.locks then .locking else .ending)

/-- An exception before the wait for the result. -/
def throwing (P : Endpoint) (r : Request) (e : RequestError) : Request :=
  { r with error := some e }.finalize P

/-- The wait for the result is over; its stop callbacks are destroyed. -/
def endWait (r : Request) : Request :=
  { r with pc := .locking, subscriptions := [], endpointSubscribed := false }

/-- An exception of that wait. -/
def waitFailed (r : Request) : Request :=
  { r.endWait with error := some .resultWait, resultWaitFailed := true }

/-- The order in which the endpoints finalize: what comes after the step at `r.pc`. -/
def nextFinal (P : Endpoint) (r : Request) : RequestPc :=
  match P.kind, r.pc with
  | .localSource, .settling | .kafka, .settling => if P.hasResult then .popping else .ending
  | .localSource, .removing | .kafka, .removing => .ending
  | .http, .locking => if r.pendingInserted then .popping else .clearing
  | .http, .removing => .clearing
  | .http, .clearing => .settling
  | .http, .settling => .verifying
  | .grpc _, .settling => if r.pendingInserted then .popping else .closing
  | .grpc _, .removing => .closing
  | .grpc _, .closing => .clearing
  | _, .locking => .settling
  | _, .popping => .removing
  | _, _ => .ending

/-- `beginRequest` returns a context and a stream id, or throws.  An empty stream id has been
    replaced by a generated one.  From its return on an exception can leave the request. -/
def begin (P : Endpoint) (r : Request) : Option (Context × StreamId) → Request
  | none => { r with pc := .finished }
  | some (ctx, streamId) =>
    { r with
      ctx := ctx, streamId := streamId, begun := true
      pc := if P.hasResult then .registering else .consuming
      exposed := P.exposes && !P.hasResult }

/-- The wait of a local or Kafka source. -/
def awaitDone (P : Endpoint) (w : World) (stopRequested : Bool) (r : Request) (choice : Choice) :
    Option Request :=
  match r.pc, choice with
  | .subscribing, .go =>
    some { r with
      pc := .waiting, subscriptions := P.kind.listens r.ctx, endpointSubscribed := true }
  -- The Kafka endpoint allocates here.
  | .subscribing, .fail => if P.kind = .kafka then some r.waitFailed else none
  | .waiting, .go => if r.result.done then some { r with pc := .checking } else none
  | .waiting, .fail =>
    if r.ctx.expired w ∧ r.result.done = false then some { r with pc := .expiring } else none
  -- `WaitUntil` returns when it is cancelled, `Wait` throws.
  | .waiting, .interrupt =>
    if r.result.done then none
    else if r.ctx.deadline.isSome then some { r with pc := .expiring }
    else some r.waitFailed
  | .checking, .go =>
    if r.ctx.cancelled w || stopRequested then some r.waitFailed else some r.endWait
  | .expiring, .go =>
    if r.result.doneSent then some { r with pc := .draining }
    else some { r.waitFailed with result := { r.result with doneSent := true } }
  | .draining, .go => if r.result.done then some r.waitFailed else none
  | _, _ => none

/-- `waitForResult` of gRPC, and `done.Wait()` of HTTP.  A cancellation of the call, which may
    come at any time, ends either; so do the deadline and the tokens of the context that
    `waitForResult` listens to. -/
def awaitReady (P : Endpoint) (r : Request) (choice : Choice) : Option Request :=
  match r.pc, choice with
  | .waiting, .go => if r.ready P then some r.endWait else none
  | .waiting, .interrupt => if r.ready P then none else some r.waitFailed
  | _, _ => none

/-- Where an exception can leave the request: outside the `try` block, before `endRequest`. -/
def mayEscape (P : Endpoint) (r : Request) : Bool :=
  match r.pc with
  -- Between the return of `beginRequest` and the `try` block (`addEvent`, the stream id,
  -- `make_shared`), or in its `catch`, which records the failure in the span.
  | .registering | .consuming => true
  -- `addEvent`, and the message of the error.
  | .settling =>
    r.resultWaitFailed && match P.kind with
      | .localSource | .kafka => true
      | .http => !r.completionReady P
      | .grpc _ => r.completionReady P
  -- `finish` of gRPC copies the stream id for either call; its caller catches what it throws.
  | .popping | .removing => P.kind.isGrpc
  -- `addEvent("done_received")`
  | .verifying => r.error = none
  | _ => false

/-- The exception releases `lifetimeMutex`. -/
def escape (r : Request) : Request :=
  { r with escaped := true, result := { r.result with writer := false } }

/-- Whether `handle` or `process` has returned or thrown. -/
def isOver (r : Request) : Bool := r.pc = .finished || r.escaped

/-- The steps of a request that touch the request alone. -/
def advance (P : Endpoint) (w : World) (stopRequested : Bool) (r : Request) (choice : Choice) :
    Option Request :=
  match r.pc, choice with
  | _, .escape => if r.mayEscape P then some r.escape else none
  | .consuming, .fail => some (r.throwing P .handler)
  | .consuming, .again => if P.kind.readsMany then some r else none
  | .consuming, .go =>
    if P.hasResult then
      some { r with pc := if P.kind.guardsPop then .waiting else .subscribing }
    else some (r.finalize P)
  | .locking, .go =>
    if r.result.readers = 0 ∧ r.result.writer = false then
      some { r.goto (r.nextFinal P) with
        result := { r.result with writer := true }, doneBefore := r.result.doneSent }
    else none
  | .settling, .go =>
    some ({ r with
      error := if r.resultWaitFailed && r.completionReady P then none else r.error }.goto
        (r.nextFinal P))
  -- `close` takes the sender's mutex.
  | .closing, .go =>
    if r.sender.locked then none
    else some { r.goto (r.nextFinal P) with sender := { r.sender with active := false } }
  | .clearing, .go =>
    some { r.goto (r.nextFinal P) with
      result := { r.result with callbacks := ∅, callbacksClosed := P.kind.isGrpc } }
  | .verifying, .go =>
    some ({ r with
      error := if r.error = none ∧ r.result.done = false then some .cancelled else r.error }.goto
        (r.nextFinal P))
  | .ending, .go =>
    some { r with pc := .finished, result := { r.result with writer := false } }
  -- Only gRPC rethrows an exception of `endRequest`.
  | .ending, .fail =>
    some { r with
      pc := .finished, result := { r.result with writer := false }
      error := if P.kind.isGrpc then r.error.or (some .endRequest) else r.error }
  | pc, choice =>
    if pc.waits then
      if P.kind.guardsPop then r.awaitReady P choice
      else r.awaitDone P w stopRequested choice
    else none

end Request

end ServiceLib.Source
