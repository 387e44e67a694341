import ServiceLib.Source.Callbacks
import ServiceLib.Source.Flow

namespace ServiceLib.Source

/-!
# Source endpoints — the callbacks of a request that has ended

A callback may capture a `ResultContext` of its request, which owns the request's state and with
it the callback.  The cycle is broken only if the registry is empty once the request has ended.

* gRPC clears the registry in `finish` and closes it in the same critical section;
* HTTP clears it in `handle` but leaves it open, and does not clear it without a result stream;
* local and Kafka sources never clear it.

`callbacks_left` has a run for each of the three that leaves a callback behind.
`registersInTime` says what the handlers must do instead, and `callbacks_empty_of_finished` that
no callback is then left.  A request that an exception has left does not come to its end, and may
keep its callbacks in every kind of endpoint.
-/

open Request PendingResult Endpoint List AList

variable {P : Endpoint} {s s' : State} {r r' : Request} {p : PendingResult}

/-! ### When the registry is cleared -/

/-- Whether no step of a request that is at a program point will clear its registry any more. -/
def Endpoint.sealedAt (P : Endpoint) : RequestPc → Bool
  | .ending | .finished => true
  | .settling | .verifying => !P.kind.isGrpc
  | .popping | .removing => !P.kind.guardsPop
  | _ => false

/-- Whether the request is about to finalize without clearing its registry. -/
def Request.leavesCallbacks (P : Endpoint) (r : Request) : Bool :=
  match P.kind with
  | .localSource | .kafka => r.pc = .locking
  | .http => !P.hasResult && r.pc = .consuming
  | .grpc _ => false

/-- Outside gRPC no callback is registered once the registry is not cleared any more, and where
    it never is, deliveries have removed every callback before its request finalizes. -/
def registersInTime (P : Endpoint) (s : State) : Action → Prop
  | .setResultCallback i _ _ =>
    P.kind.isGrpc ∨ (s.requests[i]?).all (fun r => !P.sealedAt r.pc)
  | .request i _ =>
    (s.requests[i]?).all
      (fun r => !r.leavesCallbacks P || r.result.registered ≤ r.result.removed)
  | _ => True

instance (P : Endpoint) (s : State) : (a : Action) → Decidable (registersInTime P s a)
  | .setResultCallback _ _ _ => inferInstanceAs (Decidable (_ ∨ _ = true))
  | .request _ _ => inferInstanceAs (Decidable (_ = true))
  | .tick _ | .fire _ | .requestStop | .receive _ | .begin _ _ | .notify _ _ | .notifyStop _
  | .complete _ | .signal _ | .wake _ | .consumeResult _ | .delivery _ _ | .callSend _
  | .send _ _ | .rotate _ => inferInstanceAs (Decidable True)

/-! ### Callbacks that deliveries remove -/

/-- As many callbacks are registered as were and have not been removed by a delivery. -/
def PendingResult.balanced (p : PendingResult) : Prop :=
  p.callbacks.keys.length + p.removed = p.registered

theorem PendingResult.balanced.tryWake (h : p.balanced) :
    p.tryWake.balanced := by
  unfold PendingResult.tryWake
  split <;> exact h

/-- A callback that replaces another one does not count. -/
theorem PendingResult.balanced.register (h : p.balanced) (m : MessageId)
    (g : Registration) : (p.register m g).balanced := by
  unfold balanced at h ⊢
  unfold PendingResult.register
  split
  · exact h
  · by_cases hm : m ∈ p.callbacks
    · have hpos := length_pos_of_mem (mem_keys.mp hm)
      simp only [keys_insert, length_cons, if_pos hm,
        length_erase_of_mem (mem_keys.mp hm)]
      omega
    · simp only [keys_insert, length_cons, if_neg hm,
        erase_of_not_mem (fun hk => hm (mem_keys.mpr hk))]
      omega

theorem PendingResult.balanced.remove (h : p.balanced) (m : MessageId) :
    (p.remove m).balanced := by
  unfold balanced at h ⊢
  unfold PendingResult.remove
  by_cases hm : m ∈ p.callbacks
  · have hpos := length_pos_of_mem (mem_keys.mp hm)
    simp only [keys_erase, if_pos hm, length_erase_of_mem (mem_keys.mp hm)]
    omega
  · simp only [keys_erase, if_neg hm,
      erase_of_not_mem (fun hk => hm (mem_keys.mpr hk))]
    exact h

/-- **Step lemma.**  Only clearing the registry upsets the balance. -/
theorem balanced_move (hclears : P.visits .clearing = false) (hflow : Flow P r)
    (h : r.result.balanced) (hm : Move P r r') : r'.result.balanced := by
  cases hm with
  | own _ hm =>
    cases hm with
    | begun b => cases b <;> exact h
    | cleared hpc => exact absurd (hclears.symm.trans (hpc ▸ hflow.visits)) Bool.false_ne_true
    | woken => exact h.tryWake
    | signalled =>
      have h' : { r.result with signalling := r.result.signalling - 1 }.balanced := h
      exact h'.tryWake
    | _ => exact h
  | registered m g => exact h.register m g
  | erased m => exact h.remove m
  | won => exact h.tryWake
  | _ => exact h

/-- Where the registry is never cleared, it is empty once deliveries have removed all there was. -/
theorem callbacks_empty_of_removed (h : P.visits .clearing = false → r.result.balanced)
    (hl : r.leavesCallbacks P) (hall : r.result.registered ≤ r.result.removed) :
    r.result.callbacks = ∅ := by
  have hclears : P.visits .clearing = false := by
    obtain ⟨kind, hasResult, hash, minCapacity⟩ := P
    cases kind with
    | localSource | kafka => rfl
    | http => simp_all [leavesCallbacks, visits, locks, Kind.guardsPop]
    | grpc method => cases hl
  have hbalanced := h hclears
  unfold balanced at hbalanced
  have hkeys : r.result.callbacks.keys = [] := length_eq_zero_iff.mp (by omega)
  exact ext (map_eq_nil_iff.mp hkeys)

/-! ### The invariant -/

/-- What the registry of a request contains. -/
structure Registry (P : Endpoint) (r : Request) : Prop where
  unexposed : r.exposed = false → r.result.callbacks = ∅
  sealed : P.sealedAt r.pc → r.result.callbacks = ∅
  closed : P.kind.isGrpc → P.sealedAt r.pc → r.exposed →
    r.result.callbacksClosed

theorem Registry.new (ctx : Context) : Registry P (.new ctx) where
  unexposed _ := rfl
  sealed _ := rfl
  closed _ _ h := by cases h

/-- A move that registers nothing and does not seal the registry. -/
theorem Registry.mono (h : Registry P r) (hexposed : r'.exposed = r.exposed)
    (hclosed : r'.result.callbacksClosed = r.result.callbacksClosed)
    (hcallbacks : r.result.callbacks = ∅ → r'.result.callbacks = ∅)
    (hsealed : P.sealedAt r'.pc → P.sealedAt r.pc) : Registry P r' where
  unexposed h' := hcallbacks (h.unexposed (hexposed ▸ h'))
  sealed h' := hcallbacks (h.sealed (hsealed h'))
  closed hk h' hexp := hclosed.trans (h.closed hk (hsealed h') (hexposed ▸ hexp))

/-- A step that seals an empty registry which is closed already, or need not be. -/
theorem Registry.empty (hcallbacks : r'.result.callbacks = ∅)
    (hclosed : P.kind.isGrpc → P.sealedAt r'.pc → r'.exposed →
      r'.result.callbacksClosed) : Registry P r' where
  unexposed _ := hcallbacks
  sealed _ := hcallbacks
  closed := hclosed

/-- After the lock, only clearing seals the registry. -/
theorem sealedAt_nextFinal (hpc : r.pc.finalStep) (hvisits : P.visits r.pc)
    (hlocking : r.pc ≠ .locking) (hclearing : r.pc ≠ .clearing)
    (h : P.sealedAt (r.nextFinal P)) : P.sealedAt r.pc := by
  obtain ⟨kind, hasResult, hash, minCapacity⟩ := P
  cases kind <;> cases hr : r.pc <;> simp only [nextFinal, hr] at h <;>
    rw [hr] at hpc hvisits <;>
    first
    | rfl
    | (cases hpc; done)
    | (cases hvisits; done)
    | (cases h; done)
    | exact absurd hr hlocking
    | exact absurd hr hclearing
    | (split at h <;> cases h)

theorem callbacks_erase_empty (m : MessageId) :
    (∅ : AList (fun _ : MessageId => Registration)).erase m = ∅ := by
  refine ext ?_
  rfl

theorem leavesCallbacks_of_locks_false (hpc : r.pc = .consuming) (hl : P.locks = false) :
    r.leavesCallbacks P := by
  obtain ⟨kind, hasResult, hash, minCapacity⟩ := P
  cases kind with
  | http =>
    have hres : hasResult = false := hl
    simp [leavesCallbacks, hres, hpc]
  | _ => cases hl

theorem consuming_ne_finalize (r : Request) : RequestPc.consuming ≠ (r.finalize P).pc := by
  cases hl : P.locks <;> simp [finalize, goto, hl]

/-- Leaving the `try` block. -/
theorem Registry.finalize (h : Registry P r) (hempty : P.locks = false → r.result.callbacks = ∅) :
    Registry P (r.finalize P) := by
  cases hl : P.locks with
  | true =>
    refine h.mono rfl rfl id (fun hsealed => ?_)
    simp [Request.finalize, goto, hl, sealedAt] at hsealed
  | false =>
    refine .empty (hempty hl) (fun hk => ?_)
    simp [(hasResult_of_locks_false hl).2] at hk

/-- Taking the lock. -/
theorem Registry.locked (h : Registry P r) (hpc : r.pc = .locking)
    (hempty : r.leavesCallbacks P → r.result.callbacks = ∅) :
    Registry P { r.goto (r.nextFinal P) with
      result := { r.result with writer := true }, doneBefore := r.result.doneSent } := by
  cases hsealed : P.sealedAt (r.nextFinal P) with
  | false =>
    refine h.mono rfl rfl id (fun hs => ?_)
    exact absurd (hsealed.symm.trans hs) Bool.false_ne_true
  | true =>
    obtain ⟨kind, hasResult, hash, minCapacity⟩ := P
    cases kind with
    | localSource | kafka => exact .empty (hempty (by simp [leavesCallbacks, hpc])) nofun
    | http =>
      simp only [nextFinal, hpc] at hsealed
      split at hsealed <;> cases hsealed
    | grpc method =>
      simp only [nextFinal, hpc] at hsealed
      cases hsealed

/-- A move that leaves the callbacks alone and does not seal the registry. -/
theorem Registry.same (h : Registry P r) (hexposed : r'.exposed = r.exposed)
    (hclosed : r'.result.callbacksClosed = r.result.callbacksClosed)
    (hcallbacks : r'.result.callbacks = r.result.callbacks)
    (hsealed : P.sealedAt r'.pc → P.sealedAt r.pc) : Registry P r' :=
  h.mono hexposed hclosed (fun hempty => hcallbacks.trans hempty) hsealed

/-- The next step of finalization, except after the lock and after clearing. -/
theorem Registry.next (h : Registry P r) (hflow : Flow P r) (hstep : r.pc.finalStep)
    (hpc : r.pc ≠ .locking ∧ r.pc ≠ .clearing) (hpc' : r'.pc = r.nextFinal P)
    (hexposed : r'.exposed = r.exposed)
    (hclosed : r'.result.callbacksClosed = r.result.callbacksClosed)
    (hcallbacks : r'.result.callbacks = r.result.callbacks) : Registry P r' := by
  refine h.same hexposed hclosed hcallbacks (fun hsealed => ?_)
  rw [hpc'] at hsealed
  exact sealedAt_nextFinal hstep hflow.visits hpc.1 hpc.2 hsealed

/-- `beginRequest`. -/
theorem Registry.begin (h : Registry P r) (hflow : Flow P r) (hpc : r.pc = .beginning)
    (b : Option (Context × StreamId)) : Registry P (r.begin P b) := by
  have hexposed := hflow.exposed (.inl hpc)
  cases b with
  | none =>
    refine .empty (h.unexposed hexposed) (fun _ _ h' => ?_)
    exact absurd (hexposed.symm.trans h') Bool.false_ne_true
  | some b =>
    refine .empty (h.unexposed hexposed) (fun _ hsealed => ?_)
    cases hres : P.hasResult <;> simp [Request.begin, hres, sealedAt] at hsealed

/-- A request's own move; where it leaves its callbacks behind, there are none. -/
theorem Registry.own (h : Registry P r) (hflow : Flow P r) (hm : OwnMove P r r')
    (hleaves : r.pc ≠ r'.pc → r.leavesCallbacks P → r.result.callbacks = ∅) : Registry P r' := by
  -- Without the lock there is no result stream, and nothing is cleared.
  have hunlocked : r.pc = .consuming → r.pc ≠ r'.pc → P.locks = false →
      r.result.callbacks = ∅ :=
    fun hpc hne hl => hleaves hne (leavesCallbacks_of_locks_false hpc hl)
  cases hm with
  | begun b hpc => exact h.begin hflow hpc b
  | consumeFailed hpc =>
    have h' : Registry P { r with error := some .handler } := { h with }
    exact h'.finalize (hunlocked hpc (hpc ▸ consuming_ne_finalize _))
  | consumedAgain => exact h
  | consumed hpc =>
    refine h.same rfl rfl rfl (fun hsealed => ?_)
    cases hk : P.kind.guardsPop <;> simp [hk, sealedAt] at hsealed
  | consumedLast hpc => exact h.finalize (hunlocked hpc (hpc ▸ consuming_ne_finalize _))
  | subscribed | waitEnded | waitFailed | waitExpired => exact h.same rfl rfl rfl (by rintro ⟨⟩)
  | waited pc _ hpc =>
    refine h.same rfl rfl rfl (fun hsealed => ?_)
    cases pc <;> first | (cases hsealed; done) | cases hpc
  | locked hpc =>
    have hne : r.pc ≠ r.nextFinal P := by
      intro hfinal
      have hf := nextFinal_finalizing P r
      rw [← hfinal, hpc] at hf
      cases hf
    exact h.locked hpc (hleaves hne)
  | settled hpc | closed hpc | verified hpc =>
    exact h.next hflow (by rw [hpc]; rfl) (by simp [hpc]) rfl rfl rfl rfl
  | cleared hpc => exact .empty rfl (fun hk _ _ => hk)
  | escaped | completed | sent => exact { h with }
  | ended error hpc => exact h.same rfl rfl rfl (fun _ => by rw [hpc]; rfl)
  | woken => exact h.same rfl r.result.tryWake_callbacksClosed r.result.tryWake_callbacks id
  | signalled => exact h.same rfl (tryWake_callbacksClosed _) (tryWake_callbacks _) id

/-- A registration.  The gRPC registry, once it is cleared, refuses it. -/
theorem Registry.register {m : MessageId} {g : Registration} (h : Registry P r)
    (hexposed : r.exposed)
    (hkept : P.kind.isGrpc = false → P.sealedAt r.pc → r.result.callbacks = ∅ →
      (r.result.register m g).callbacks = ∅) :
    Registry P { r with result := r.result.register m g } where
  unexposed h' := absurd (h'.symm.trans hexposed) Bool.false_ne_true
  sealed hsealed := by
    have hempty := h.sealed hsealed
    cases hk : P.kind.isGrpc with
    | true =>
      simp only [PendingResult.register, h.closed hk hsealed hexposed, if_true]
      exact hempty
    | false => exact hkept hk hsealed hempty
  closed hk hsealed _ :=
    (r.result.register_callbacksClosed m g).trans (h.closed hk hsealed hexposed)

/-- **Step lemma.**  A permitted move keeps a sealed registry empty. -/
theorem Registry.move {a : Action} {i : RequestId} (h : Registry P r) (hflow : Flow P r)
    (hbalanced : P.visits .clearing = false → r.result.balanced) (hok : registersInTime P s a)
    (hr : s.requests[i]? = some r) (hm : Move P r r') (hcause : Caused a i r r') :
    Registry P r' := by
  -- Finalization begins with an empty registry where it does not clear it.
  have hleaves : r.pc ≠ r'.pc → r.leavesCallbacks P → r.result.callbacks = ∅ := by
    intro hne hl
    rcases hcause.pc with hpc | hpc | ⟨choice, rfl⟩
    · exact absurd hpc hne
    · exact h.unexposed (hflow.exposed (.inl hpc))
    · simp only [registersInTime, hr, Option.all_some, hl, Bool.not_true, Bool.false_or,
        decide_eq_true_eq] at hok
      exact callbacks_empty_of_removed hbalanced hl hok
  cases hm with
  | own _ hm => exact h.own hflow hm hleaves
  | refused hpc =>
    have h' : Registry P { r with error := some .registration } := { h with }
    exact h'.finalize (fun _ => h.unexposed (hflow.exposed (.inr (.inl hpc))))
  | inserted => exact h.same rfl rfl rfl (by rintro ⟨⟩)
  | added hpc =>
    have hexposed := hflow.exposed (.inr (.inr (.inl hpc)))
    exact .empty (h.unexposed hexposed) (by rintro - ⟨⟩)
  | popped hpc | removed hpc =>
    exact h.next hflow (by rw [hpc]; rfl) (by simp [hpc]) rfl rfl rfl rfl
  | registered m g hexposed =>
    refine h.register hexposed (fun hk hsealed hempty => ?_)
    rcases hcause.callbacks with hcb | hcb | ⟨m', hcb⟩ | ⟨m', callable, g', rfl, -⟩
    · exact hcb.trans hempty
    · exact hcb
    · exact hcb.trans (by rw [hempty, callbacks_erase_empty])
    · simp only [registersInTime, hk, hr, Option.all_some, hsealed] at hok
      simp at hok
  | entered | left | wrote | woke => exact { h with }
  | erased m =>
    refine h.mono rfl rfl (fun hempty => ?_) id
    show r.result.callbacks.erase m = ∅
    rw [hempty, callbacks_erase_empty]
  | won => exact h.same rfl r.result.tryWake_callbacksClosed r.result.tryWake_callbacks id

/-- **No callback is left.**  In every kind of endpoint, if callbacks are registered in time,
    the registry of a request is empty from the end of the request on. -/
theorem callbacks_empty_of_finished (P : Endpoint) {s : State}
    (hs : (system P).ReachableIf (registersInTime P) s) {i : RequestId} {r : Request}
    (hr : s.requests[i]? = some r) (hpc : r.pc = .finished) : r.result.callbacks = ∅ := by
  have hbalanced : ∀ {s : State} {i : RequestId} {r : Request},
      (system P).ReachableIf (registersInTime P) s → s.requests[i]? = some r →
      P.visits .clearing = false → r.result.balanced := by
    intro s i r hs hr hclears
    refine forall_requests (I := fun r => r.result.balanced) (fun _ => rfl) ?_ hs hr
    intro s a i r r' hreach _ hr h hm _
    exact balanced_move hclears (flow_of_reachable hreach hr) h hm
  have hregistry : Registry P r := by
    refine forall_requests Registry.new ?_ hs hr
    intro s a i r r' hreach hok hr h hm hcause
    exact h.move (flow_of_reachable hreach hr) (hbalanced hreach hr) hok hr hm hcause
  exact hregistry.sealed (by rw [hpc]; rfl)

/-! ### Runs -/

/-- A delivery removes the callback of a Kafka request, and the request ends. -/
def removedInTime : List Action :=
  [oneRequest, [.setResultCallback 0 7 true], oneResult,
   [.delivery 0 (.remove true), .delivery 0 .throws, .request 0 .go, .request 0 .go, .complete 0,
    .signal 0, .wake 0], replicate 7 (.request 0 .go)].flatten

/-- HTTP clears the callback of a request that is cancelled; Kafka leaves none behind if a delivery
    has removed it. -/
theorem callbacks_empty_of_finished_cancelled :
    (∃ s r, (system (withResult .http)).ReachableIf (registersInTime (withResult .http)) s ∧
      s.requests[0]? = some r ∧ r.pc = .finished ∧ r.error ≠ none ∧ r.result.callbacks = ∅) ∧
    ∃ s r, (system (withResult .kafka)).ReachableIf (registersInTime (withResult .kafka)) s ∧
      s.requests[0]? = some r ∧ r.pc = .finished ∧ r.result.removed = 1 ∧
      r.result.callbacks = ∅ := by
  constructor
  · obtain ⟨s, hs, r, hr, hpc, herror⟩ := System.exists_reachableIf_of_run
      (system (withResult .http)) (registersInTime (withResult .http))
      ([oneRequest, [.setResultCallback 0 7 true, .request 0 .go, .request 0 .interrupt],
        replicate 7 (.request 0 .go)].flatten)
      (fun s => ∃ r, s.requests[0]? = some r ∧ r.pc = .finished ∧ r.error ≠ none)
      (by decide +kernel)
    exact ⟨s, r, hs, hr, hpc, herror, callbacks_empty_of_finished _ hs hr hpc⟩
  · obtain ⟨s, hs, r, hr, hpc, hremoved⟩ := System.exists_reachableIf_of_run
      (system (withResult .kafka)) (registersInTime (withResult .kafka)) removedInTime
      (fun s => ∃ r, s.requests[0]? = some r ∧ r.pc = .finished ∧ r.result.removed = 1)
      (by decide +kernel)
    exact ⟨s, r, hs, hr, hpc, hremoved, callbacks_empty_of_finished _ hs hr hpc⟩

/-- In an endpoint, a request ends and a callback stays registered. -/
def LeavesCallback (P : Endpoint) : Prop :=
  ∃ s r, (system P).Reachable s ∧ s.requests[0]? = some r ∧ r.pc = .finished ∧
    r.begun ∧ r.result.callbacks ≠ ∅

theorem leavesCallback_of_run {l : List Action} (h : ((system P).run l).any (fun s =>
      ∃ r, s.requests[0]? = some r ∧ r.pc = .finished ∧ r.begun ∧
        r.result.callbacks.entries ≠ [])) : LeavesCallback P := by
  obtain ⟨s, hs, r, hr, hpc, hbegun, hleft⟩ := System.exists_reachable_of_run _ _ _ h
  exact ⟨s, r, hs, hr, hpc, hbegun, fun hempty => hleft (by rw [hempty]; rfl)⟩

/-- The wait of a local or Kafka request with a callback is interrupted. -/
def interruptedLocal : List Action :=
  [oneRequest, [.setResultCallback 0 7 true, .request 0 .go, .request 0 .go,
   .request 0 .interrupt], replicate 5 (.request 0 .go)].flatten

/-- A handler keeps the `ResultContext` of an HTTP request and uses it after the end. -/
def registeredLate : List Action :=
  [oneRequest, [.request 0 .go, .request 0 .interrupt], replicate 7 (.request 0 .go),
   [.setResultCallback 0 7 true]].flatten

theorem callbacks_left :
    LeavesCallback (withResult .localSource) ∧ LeavesCallback (withResult .kafka) ∧
      LeavesCallback (withResult .http) ∧
      LeavesCallback { withResult .http with hasResult := false } := by
  refine ⟨?_, ?_, ?_, ?_⟩
  · exact leavesCallback_of_run (l := interruptedLocal) (by decide +kernel)
  · exact leavesCallback_of_run (l := interruptedLocal) (by decide +kernel)
  · exact leavesCallback_of_run (l := registeredLate) (by decide +kernel)
  · exact leavesCallback_of_run (l := [.receive background, .begin 0 (some (background, 5)),
      .setResultCallback 0 7 true, .request 0 .go, .request 0 .go]) (by decide +kernel)

end ServiceLib.Source
