import ServiceLib.Source.Request

namespace ServiceLib.Source

/-!
# Source endpoints — what can happen to a request

`Move` is everything that can happen to a request, in whichever thread: the list that the
invariants of requests go through.
-/

open PendingResult

variable {P : Endpoint} {r r' : Request}

/-! ### Moves of a request -/

/-- What a request does by itself, and what wakes it: neither its registration nor its locks
    are touched. -/
@[grind intro] inductive OwnMove (P : Endpoint) (r : Request) : Request → Prop
  | begun (b : Option (Context × StreamId)) : r.pc = .beginning → OwnMove P r (r.begin P b)
  | consumeFailed : r.pc = .consuming → OwnMove P r (r.throwing P .handler)
  | consumedAgain : r.pc = .consuming → OwnMove P r r
  | consumed : r.pc = .consuming → P.hasResult →
      OwnMove P r { r with pc := if P.kind.guardsPop then .waiting else .subscribing }
  | consumedLast : r.pc = .consuming → P.hasResult = false → OwnMove P r (r.finalize P)
  | subscribed (tokens : List TokenId) : r.pc = .subscribing →
      OwnMove P r { r with pc := .waiting, subscriptions := tokens, endpointSubscribed := true }
  | waited (pc : RequestPc) : r.pc.waits → pc.waits → P.kind.guardsPop = false →
      OwnMove P r { r with pc := pc }
  | waitEnded : r.pc.waits → OwnMove P r r.endWait
  | waitFailed : r.pc.waits → OwnMove P r r.waitFailed
  /-- The request itself sets `wakeSent`, and nobody will send `done`. -/
  | waitExpired : r.pc = .expiring → P.kind.guardsPop = false →
      OwnMove P r { r.waitFailed with result := { r.result with doneSent := true } }
  | locked : r.pc = .locking → r.result.readers = 0 → r.result.writer = false →
      OwnMove P r { r.goto (r.nextFinal P) with
        result := { r.result with writer := true }, doneBefore := r.result.doneSent }
  | settled : r.pc = .settling →
      OwnMove P r ({ r with
        error := if r.resultWaitFailed && r.completionReady P then none else r.error }.goto
          (r.nextFinal P))
  | closed : r.pc = .closing → r.sender.locked = false →
      OwnMove P r { r.goto (r.nextFinal P) with sender := { r.sender with active := false } }
  | cleared : r.pc = .clearing →
      OwnMove P r { r.goto (r.nextFinal P) with
        result := { r.result with callbacks := ∅, callbacksClosed := P.kind.isGrpc } }
  | verified : r.pc = .verifying →
      OwnMove P r ({ r with
        error := if r.error = none ∧ r.result.done = false then some .cancelled else r.error }.goto
          (r.nextFinal P))
  | ended (error : Option RequestError) : r.pc = .ending →
      OwnMove P r { r with
        pc := .finished, result := { r.result with writer := false }, error := error }
  | escaped : r.mayEscape P → OwnMove P r r.escape
  | woken (tokens : List TokenId) (subscribed : Bool) :
      OwnMove P r { r with
        subscriptions := tokens, endpointSubscribed := subscribed, result := r.result.tryWake }
  | completed : P.kind.guardsPop = false →
      OwnMove P r { r with
        result := { r.result with completed := true, signalling := r.result.signalling + 1 } }
  | signalled :
      OwnMove P r { r with
        result := { r.result with signalling := r.result.signalling - 1 }.tryWake }
  | sent : OwnMove P r { r with result := r.result.wake }

/-- What can happen to request `r`. -/
@[grind intro] inductive Move (P : Endpoint) (r : Request) : Request → Prop
  | own (r' : Request) : OwnMove P r r' → Move P r r'
  | refused : r.pc = .registering → Move P r (r.throwing P .registration)
  | inserted : r.pc = .registering → Move P r { r with pc := .adding, pendingInserted := true }
  | added : r.pc = .adding →
      Move P r { r with pc := .consuming, counted := true, exposed := P.exposes }
  | popped : r.pc = .popping →
      Move P r { r.goto (r.nextFinal P) with pendingInserted := false }
  | removed : r.pc = .removing → Move P r { r.goto (r.nextFinal P) with counted := false }
  | registered (m : MessageId) (registration : Registration) : r.exposed →
      Move P r { r with result := r.result.register m registration }
  | entered : r.result.writer = false →
      Move P r { r with result := { r.result with readers := r.result.readers + 1 } }
  | left : Move P r { r with result := { r.result with readers := r.result.readers - 1 } }
  | erased (m : MessageId) :
      Move P r { r with
        result := { r.result.remove m with readers := r.result.readers - 1 } }
  | wrote (sender : Sender) : sender.active = r.sender.active →
      Move P r { r with sender := sender }
  | won : Move P r { r with result := r.result.tryWake }
  /-- A client-streaming send wakes the request before it releases the sender. -/
  | woke : Move P r { r with
      result := r.result.wake, sender := { r.sender with locked := false } }

section

variable (p : PendingResult)
include p

namespace PendingResult

theorem tryWake_readers : p.tryWake.readers = p.readers := by
  unfold tryWake
  split <;> rfl

theorem tryWake_callbacks : p.tryWake.callbacks = p.callbacks := by
  unfold tryWake
  split <;> rfl

theorem tryWake_writer : p.tryWake.writer = p.writer := by
  unfold tryWake
  split <;> rfl

theorem tryWake_callbacksClosed : p.tryWake.callbacksClosed = p.callbacksClosed := by
  unfold tryWake
  split <;> rfl

theorem register_readers (m : MessageId) (registration : Registration) :
    (p.register m registration).readers = p.readers := by
  unfold register
  split <;> rfl

theorem register_writer (m : MessageId) (registration : Registration) :
    (p.register m registration).writer = p.writer := by
  unfold register
  split <;> rfl

theorem register_callbacksClosed (m : MessageId) (registration : Registration) :
    (p.register m registration).callbacksClosed = p.callbacksClosed := by
  unfold register
  split <;> rfl

/-- A registration is inserted, unless the callbacks are closed. -/
theorem register_callbacks (m : MessageId) (registration : Registration) :
    (p.register m registration).callbacks = p.callbacks ∨
      (p.register m registration).callbacks = p.callbacks.insert m registration := by
  unfold register
  split
  · exact .inl rfl
  · exact .inr rfl

end PendingResult

end

/-- What a request's own moves leave alone. -/
structure Framed (r r' : Request) : Prop where
  pendingInserted : r'.pendingInserted = r.pendingInserted
  counted : r'.counted = r.counted
  streamId : r.pc = .beginning ∨ r'.streamId = r.streamId
  readers : r'.result.readers = r.result.readers
  senderLocked : r'.sender.locked = r.sender.locked
  callbacks : r'.result.callbacks = r.result.callbacks ∨ r'.result.callbacks = ∅

/-- What no step of a request touches. -/
theorem OwnMove.framed (h : OwnMove P r r') : Framed r r' := by
  cases h with
  | begun b hpc =>
    cases b with
    | none | some b => exact ⟨rfl, rfl, .inl hpc, rfl, rfl, .inl rfl⟩
  | cleared => exact ⟨rfl, rfl, .inr rfl, rfl, rfl, .inr rfl⟩
  | woken =>
    exact ⟨rfl, rfl, .inr rfl, r.result.tryWake_readers, rfl, .inl r.result.tryWake_callbacks⟩
  | signalled =>
    exact ⟨rfl, rfl, .inr rfl, tryWake_readers _, rfl, .inl (tryWake_callbacks _)⟩
  | _ => exact ⟨rfl, rfl, .inr rfl, rfl, rfl, .inl rfl⟩

namespace Request

variable {choice : Choice} {w : World} {b : Bool}

/-- The wait of the local and the Kafka source. -/
theorem awaitDone_move (hk : P.kind.guardsPop = false)
    (h : r.awaitDone P w b choice = some r') : OwnMove P r r' := by
  unfold awaitDone at h
  split at h <;> grind [RequestPc.waits]

/-- The wait of HTTP and gRPC. -/
theorem awaitReady_move (h : r.awaitReady P choice = some r') : OwnMove P r r' := by
  unfold awaitReady at h
  split at h <;> grind [RequestPc.waits]

/-- A step of a request is one of its moves. -/
theorem advance_move (h : r.advance P w b choice = some r') :
    OwnMove P r r' := by
  unfold advance at h
  split at h
  case h_5 hpc =>
    split at h <;> cases h
    exact .locked hpc (And.left ‹_›) (And.right ‹_›)
  case h_7 hpc =>
    split at h <;> cases h
    exact .closed hpc (Bool.not_eq_true _ ▸ ‹_›)
  case h_8 hpc => cases h; exact .cleared hpc
  case h_12 =>
    split at h
    · split at h
      · exact awaitReady_move h
      next hk => exact awaitDone_move (Bool.not_eq_true _ ▸ hk) h
    · cases h
  all_goals grind

end Request

end ServiceLib.Source
