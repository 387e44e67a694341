import ServiceLib.Lib.ThreadList
import ServiceLib.Source.Endpoint
import ServiceLib.Source.Moves

namespace ServiceLib.Source

/-!
# Source endpoints — what one step can do

Every step of an endpoint is of one of a few shapes.
-/

open State

variable {P : Endpoint} {s s' : State} {r r' : Request}

/-! ### Deliveries -/

/-- The request whose `lifetimeMutex` a delivery holds shared. -/
def DeliveryPc.inside : DeliveryPc → Option RequestId
  | .rechecking i | .finding i | .calling i _ _ | .erasing i _ _ => some i
  | _ => none

/-- What a step of delivery `x`, at index `d`, does. -/
@[grind intro] inductive DeliveryMove (s : State) (d : Nat) (x : Delivery) (answer : Answer) :
    State → Prop
  | looked (pc : DeliveryPc) : x.pc = .looking → pc.request = none →
      DeliveryMove s d x answer (s.setDelivery d x pc)
  | found (streamId : StreamId) (i : RequestId) : x.pc = .looking →
      s.pending.get streamId = some i →
      DeliveryMove s d x answer (s.setDelivery d x (.locking i))
  | entered (i : RequestId) (r : Request) : x.pc = .locking i → s.requests[i]? = some r →
      r.result.writer = false →
      DeliveryMove s d x answer ((s.setRequest i { r with
        result := { r.result with readers := r.result.readers + 1 } }).setDelivery d x
          (.rechecking i))
  | confirmed (i : RequestId) : x.pc = .rechecking i →
      x.streamId.bind s.pending.get = some i →
      DeliveryMove s d x answer (s.setDelivery d x (.finding i))
  | called (i : RequestId) (r : Request) (m : MessageId) (registration : Registration) :
      x.pc = .finding i → s.requests[i]? = some r →
      r.result.callbacks.lookup m = some registration →
      DeliveryMove s d x answer (s.setDelivery d x (.calling i m registration))
  | returned (i : RequestId) (m : MessageId) (registration : Registration) :
      x.pc = .calling i m registration → answer = .remove true →
      DeliveryMove s d x answer (s.setDelivery d x (.erasing i m registration))
  | left (i : RequestId) (r : Request) (pc : DeliveryPc) : x.pc.inside = some i →
      s.requests[i]? = some r → pc.request = none →
      DeliveryMove s d x answer (s.endDelivery d x i r pc)
  | erased (i : RequestId) (r : Request) (m : MessageId) (registration : Registration)
      (pc : DeliveryPc) : x.pc = .erasing i m registration → s.requests[i]? = some r →
      pc.request = none →
      DeliveryMove s d x answer (s.endDelivery d x i { r with result := r.result.remove m } pc)

variable {i : RequestId} {answer : Answer} {a : Action} {d : Nat}

theorem deliverTo_moved {x : Delivery} (hi : x.pc.request = some i)
    (hr : s.requests[i]? = some r) (hs : s.deliverTo d x i r answer = some s') :
    DeliveryMove s d x answer s' := by
  unfold deliverTo at hs
  split at hs
  case h_6 hpc =>
    rw [hpc] at hi
    cases hi
    cases hs
    exact .erased i r _ _ _ hpc hr (by split <;> rfl)
  all_goals grind [DeliveryPc.request, DeliveryPc.inside]

theorem deliveryStep_moved (hs : s.deliveryStep P d answer = some s') :
    ∃ x, s.deliveries[d]? = some x ∧ DeliveryMove s d x answer s' := by
  unfold deliveryStep at hs
  split at hs
  case h_1 => cases hs
  case h_2 x hx =>
    refine ⟨x, hx, ?_⟩
    split at hs
    case h_1 i hi =>
      split at hs
      · cases hs
      next r hr => exact deliverTo_moved hi hr hs
    case h_2 => grind [DeliveryPc.request]

/-! ### Sends -/

/-- Whether a send holds the sender's mutex. -/
def SendPc.holds : SendPc → Bool
  | .writing | .completing | .waking => true
  | _ => false

/-- What a step of send `x`, at index `k`, on the sender of request `r` does. -/
@[grind intro] inductive SendMove (s : State) (k : Nat) (x : SendCall) (r : Request) : State → Prop
  | refused : x.pc = .locking → SendMove s k x r (s.setSend k x .threw)
  | started : x.pc = .locking → r.sender.locked = false → r.sender.active →
      SendMove s k x r ((s.setRequest x.request { r with
        sender := { r.sender with locked := true } }).setSend k x .writing)
  | responded : x.pc = .writing →
      SendMove s k x r ((s.setRequest x.request { r with
        sender := { r.sender with response := true } }).setSend k x .completing)
  | won : x.pc = .completing →
      SendMove s k x r ((s.setRequest x.request { r with
        result := r.result.tryWake }).setSend k x .waking)
  | ended (sender : Sender) (pc : SendPc) : x.pc.holds → pc.holds = false →
      sender.active = r.sender.active →
      SendMove s k x r (s.endSend k x { r with sender := sender } pc)
  | woke : x.pc = .waking →
      SendMove s k x r (s.endSend k x { r with result := r.result.wake } .returned)

theorem sendStep_moved {k : Nat} {fails : Bool} (hs : s.sendStep P k fails = some s') :
    ∃ x r, s.sends[k]? = some x ∧ s.requests[x.request]? = some r ∧ SendMove s k x r s' := by
  unfold sendStep at hs
  split at hs
  · cases hs
  next x hx =>
    split at hs
    · cases hs
    next r hr =>
      refine ⟨x, r, hx, hr, ?_⟩
      have hended : ∀ pc : SendPc, x.pc.holds → pc.holds = false →
          SendMove s k x r (s.endSend k x r pc) := fun pc hx hpc => .ended r.sender pc hx hpc rfl
      split at hs <;> grind [SendPc.holds]

/-! ### Steps of the endpoint -/

/-- What a step of the endpoint does. -/
@[grind intro] inductive StepMove (P : Endpoint) (s : State) : Action → State → Prop
  /-- Time, tokens and rotation. -/
  | quiet (a : Action) (w : World) (b : Bool) (pending : Rotating.RotatingMap StreamId RequestId) :
      (∀ k, pending.get k = s.pending.get k) →
      StepMove P s a { s with world := w, stopRequested := b, pending := pending }
  | received (ctx : Context) :
      StepMove P s (.receive ctx) { s with requests := s.requests ++ [.new ctx] }
  | moved (a : Action) (i : RequestId) (r r' : Request) : s.requests[i]? = some r →
      OwnMove P r r' →
      (r.pc = r'.pc ∨ r.pc = .beginning ∨ ∃ choice, a = .request i choice) →
      StepMove P s a (s.setRequest i r')
  | refused (i : RequestId) (choice : Choice) (r : Request) : s.requests[i]? = some r →
      r.pc = .registering → choice = .fail ∨ s.pending.get r.streamId ≠ none →
      StepMove P s (.request i choice) (s.setRequest i (r.throwing P .registration))
  | inserted (i : RequestId) (r : Request) (pending : Rotating.RotatingMap StreamId RequestId) :
      s.requests[i]? = some r → r.pc = .registering →
      s.pending.set r.streamId i = some pending →
      StepMove P s (.request i .go)
        { s.setRequest i { r with pc := .adding, pendingInserted := true } with
          pending := pending }
  | added (i : RequestId) (r : Request) : s.requests[i]? = some r → r.pc = .adding →
      StepMove P s (.request i .go)
        { s.setRequest i { r with pc := .consuming, counted := true, exposed := P.exposes } with
          pendingRequests := s.pendingRequests + 1 }
  | popped (i : RequestId) (r : Request) : s.requests[i]? = some r → r.pc = .popping →
      r.escaped = false →
      StepMove P s (.request i .go)
        { s.setRequest i { r.goto (r.nextFinal P) with pendingInserted := false } with
          pending := (s.pending.pop r.streamId).2 }
  | removed (i : RequestId) (r : Request) : s.requests[i]? = some r → r.pc = .removing →
      StepMove P s (.request i .go)
        { s.setRequest i { r.goto (r.nextFinal P) with counted := false } with
          pendingRequests := s.pendingRequests - 1 }
  | registered (i : RequestId) (m : MessageId) (callable : Bool) (r : Request) :
      s.requests[i]? = some r → r.exposed →
      StepMove P s (.setResultCallback i m callable)
        { s.setRequest i { r with result := r.result.register m ⟨s.registrations, callable⟩ }
          with registrations := s.registrations + 1 }
  | arrived (streamId : Option StreamId) :
      StepMove P s (.consumeResult streamId)
        { s with deliveries := s.deliveries ++ [⟨streamId, .looking⟩] }
  | delivered (d : Nat) (answer : Answer) (x : Delivery) (s' : State) :
      s.deliveries[d]? = some x → DeliveryMove s d x answer s' →
        StepMove P s (.delivery d answer) s'
  | called (i : RequestId) (r : Request) : s.requests[i]? = some r →
      StepMove P s (.callSend i) { s with sends := s.sends ++ [⟨i, .locking⟩] }
  | sent (k : Nat) (fails : Bool) (x : SendCall) (r : Request) (s' : State) :
      s.sends[k]? = some x → s.requests[x.request]? = some r → SendMove s k x r s' →
      StepMove P s (.send k fails) s'

theorem requestStep_moved {choice : Choice} (hs : s.requestStep P i choice = some s') :
    StepMove P s (.request i choice) s' := by
  unfold requestStep at hs
  split at hs
  · cases hs
  next r hr =>
    split at hs
    · cases hs
    next hescaped =>
    split at hs
    case h_3 hpc => cases hs; exact .added i r hr hpc
    case h_4 hpc => cases hs; exact .popped i r hr hpc (Bool.not_eq_true _ ▸ hescaped)
    case h_5 hpc => cases hs; exact .removed i r hr hpc
    case h_6 =>
      obtain ⟨r', hr', rfl⟩ := Option.map_eq_some_iff.mp hs
      exact .moved _ i r r' hr (Request.advance_move hr') (.inr (.inr ⟨_, rfl⟩))
    all_goals grind [Rotating.RotatingMap.set_eq_none]

/-- Every step is of one of these shapes. -/
theorem step_moved (hs : step P s a = some s') : StepMove P s a s' := by
  have hown : ∀ {i : RequestId} {r r' : Request}, s.requests[i]? = some r → OwnMove P r r' →
      r.pc = r'.pc → StepMove P s a (s.setRequest i r') :=
    fun hr hm hpc => .moved a _ _ _ hr hm (.inl hpc)
  cases a with
  | tick now =>
    simp only [step] at hs
    split at hs <;> cases hs
    exact .quiet _ { s.world with now := now } _ _ (fun _ => rfl)
  | fire τ =>
    cases hs
    exact .quiet _ { s.world with fired := τ :: s.world.fired } _ _ (fun _ => rfl)
  | requestStop => cases hs; exact .quiet _ _ true _ (fun _ => rfl)
  | request i choice => exact requestStep_moved hs
  | delivery d answer =>
    obtain ⟨x, hx, hmove⟩ := deliveryStep_moved hs
    exact .delivered d answer x s' hx hmove
  | send k fails =>
    obtain ⟨x, r, hx, hr, hmove⟩ := sendStep_moved hs
    exact .sent k fails x r s' hx hr hmove
  | rotate shard =>
    cases hs
    exact .quiet _ _ _ _ (fun k => Rotating.RotatingMap.get_rotateShard s.pending shard k)
  | receive ctx => cases hs; exact .received ctx
  | consumeResult streamId => cases hs; exact .arrived streamId
  | callSend i =>
    simp only [step, callSend] at hs
    split at hs
    · cases hs
    next r hr =>
      obtain ⟨-, hs⟩ := Option.ite_none_right_eq_some.mp hs
      cases hs
      exact .called i r hr
  | begin | notify | notifyStop | complete | signal | wake | setResultCallback =>
    -- The rest look up one request and check one guard.
    simp only [step, beginStep, notifyStep, notifyStopStep, completeStep,
      signalStep, wakeStep, setResultCallback] at hs
    split at hs
    · cases hs
    next r hr =>
      split at hs <;> cases hs
      try split
      all_goals first
        | exact hown hr (.woken _ _) rfl
        | exact hown hr .signalled rfl
        | exact hown hr .sent rfl
        | exact hown hr (.completed (Bool.not_eq_true _ ▸ ‹_›)) rfl
        | exact .moved _ _ r _ hr (.begun _ ‹_›) (.inr (.inl ‹_›))
        | exact .registered _ _ _ r hr ‹_›

/-- Which actions move request `r`, at index `i`, from one program point to another, and which
    ones register a callback. -/
structure Caused (a : Action) (i : RequestId) (r r' : Request) : Prop where
  pc : r.pc = r'.pc ∨ r.pc = .beginning ∨ ∃ choice, a = .request i choice
  callbacks : r'.result.callbacks = r.result.callbacks ∨ r'.result.callbacks = ∅ ∨
    (∃ m, r'.result.callbacks = r.result.callbacks.erase m) ∨
    ∃ m callable registration, a = .setResultCallback i m callable ∧
      r'.result.callbacks = r.result.callbacks.insert m registration

/-- A request that a step leaves behind is new, or comes from one by a move. -/
theorem StepMove.request (h : StepMove P s a s') (hr : s'.requests[i]? = some r') :
    (∃ ctx, r' = .new ctx) ∨
      ∃ r, s.requests[i]? = some r ∧ (r' = r ∨ Move P r r' ∧ Caused a i r r') := by
  have hset : ∀ {j : RequestId} {r₀ r₁ : Request}, s.requests[j]? = some r₀ → Move P r₀ r₁ →
      Caused a j r₀ r₁ → (s.requests.set j r₁)[i]? = some r' →
      ∃ r, s.requests[i]? = some r ∧ (r' = r ∨ Move P r r' ∧ Caused a i r r') := by
    intro j r₀ r₁ hj hm hc hi
    rcases getElem?_set_cases hi with ⟨rfl, rfl⟩ | ⟨-, hi⟩
    · exact ⟨r₀, hj, .inr ⟨hm, hc⟩⟩
    · exact ⟨r', hi, .inl rfl⟩
  cases h with
  | quiet | arrived | called => exact .inr ⟨r', hr, .inl rfl⟩
  | received ctx =>
    rcases getElem?_append_singleton_cases hr with hr | ⟨-, rfl⟩
    · exact .inr ⟨r', hr, .inl rfl⟩
    · exact .inl ⟨ctx, rfl⟩
  | moved _ _ _ _ hj hm hpc =>
    have hcallbacks := hm.framed.callbacks
    exact .inr (hset hj (.own _ hm) ⟨hpc, hcallbacks.imp_right .inl⟩ hr)
  | refused _ _ _ hj hpc =>
    exact .inr (hset hj (.refused hpc) ⟨.inr (.inr ⟨_, rfl⟩), .inl rfl⟩ hr)
  | inserted _ _ _ hj hpc =>
    exact .inr (hset hj (.inserted hpc) ⟨.inr (.inr ⟨_, rfl⟩), .inl rfl⟩ hr)
  | added _ _ hj hpc =>
    exact .inr (hset hj (.added hpc) ⟨.inr (.inr ⟨_, rfl⟩), .inl rfl⟩ hr)
  | popped _ _ hj hpc =>
    exact .inr (hset hj (.popped hpc) ⟨.inr (.inr ⟨_, rfl⟩), .inl rfl⟩ hr)
  | removed _ _ hj hpc =>
    exact .inr (hset hj (.removed hpc) ⟨.inr (.inr ⟨_, rfl⟩), .inl rfl⟩ hr)
  | registered _ m callable r hj hexposed =>
    refine .inr (hset hj (.registered m _ hexposed) ⟨.inl rfl, ?_⟩ hr)
    rcases r.result.register_callbacks m ⟨s.registrations, callable⟩ with hsame | hinsert
    · exact .inl hsame
    · exact .inr (.inr (.inr ⟨m, callable, _, rfl, hinsert⟩))
  | delivered _ _ _ _ _ hm =>
    cases hm with
    | entered _ _ _ hj hw => exact .inr (hset hj (.entered hw) ⟨.inl rfl, .inl rfl⟩ hr)
    | left _ _ _ _ hj => exact .inr (hset hj .left ⟨.inl rfl, .inl rfl⟩ hr)
    | erased _ _ m _ _ _ hj =>
      exact .inr (hset hj (.erased m) ⟨.inl rfl, .inr (.inr (.inl ⟨m, rfl⟩))⟩ hr)
    | _ => exact .inr ⟨r', hr, .inl rfl⟩
  | sent _ _ x r _ _ hj hm =>
    cases hm with
    | refused => exact .inr ⟨r', hr, .inl rfl⟩
    | started =>
      exact .inr (hset hj (.wrote { r.sender with locked := true } rfl) ⟨.inl rfl, .inl rfl⟩ hr)
    | responded =>
      exact .inr (hset hj (.wrote { r.sender with response := true } rfl) ⟨.inl rfl, .inl rfl⟩ hr)
    | won =>
      exact .inr (hset hj .won ⟨.inl rfl, .inl r.result.tryWake_callbacks⟩ hr)
    | ended sender _ _ _ hactive =>
      exact .inr (hset hj (.wrote { sender with locked := false } hactive) ⟨.inl rfl, .inl rfl⟩ hr)
    | woke => exact .inr (hset hj .woke ⟨.inl rfl, .inl rfl⟩ hr)

/-- **Rule for requests.**  What new requests satisfy and permitted moves preserve holds of every
    request of the endpoint. -/
theorem forall_requests {ok : State → Action → Prop} {I : Request → Prop}
    (hnew : ∀ ctx, I (.new ctx))
    (hmove : ∀ s a (i : RequestId) r r', (system P).ReachableIf ok s → ok s a →
      s.requests[i]? = some r → I r → Move P r r' → Caused a i r r' → I r')
    (hs : (system P).ReachableIf ok s) (hr : s.requests[i]? = some r) : I r := by
  have hall : ∀ (i : RequestId) r, s.requests[i]? = some r → I r := by
    refine hs.invariant (I := fun s => ∀ (i : RequestId) r, s.requests[i]? = some r → I r) ?_ ?_
    · intro i r hr
      cases hr
    · intro s a s' hreach ih hok hstep i r' hr'
      rcases (step_moved hstep).request hr' with ⟨ctx, rfl⟩ | ⟨r, hr, rfl | ⟨hm, hc⟩⟩
      · exact hnew ctx
      · exact ih i r' hr
      · exact hmove s a i r r' hreach hok hr (ih i r hr) hm hc
  exact hall i r hr

end ServiceLib.Source
