import ServiceLib.Source.Lifetime
import ServiceLib.Source.Registry
import ServiceLib.Source.Senders

namespace ServiceLib.Source

/-!
# HTTP and gRPC source endpoints — finalization

What callers of an HTTP or a gRPC source may rely on around `endRequest`: no callback runs any
more, `endRequest` is called once, results reach the request that is registered under their
stream id, and writes through a sender do not overlap and stop when it is closed.

HTTP drops the error of an interrupted wait if `done()` was called before.  It reads `doneSent`
for that, and afterwards asks the event itself:

    if (!result->done.IsReady() && !error) error = HttpRequestCancelledError{}

Between the compare-exchange of `doneSent` and `done.Send()` the first says that the request is
done and the second that it is not, so that a request for which `done()` was called, and may have
returned in another thread, ends with an error; `sendsSettled` excludes this.  And an exception
that arises after `beginRequest` but outside the `try` block, or in `finish` before it comes to
`endRequest`, leaves the request without one; such a request is `escaped`.
`request_cancelled_or_left` has a run for each of the two.
-/

open PendingResult Request

variable {P : Endpoint} {s s' : State} {r r' : Request} {i : RequestId}

/-- When HTTP asks whether `done` is ready, no thread is between setting `doneSent` and sending
    `done`. -/
def sendsSettled (P : Endpoint) (s : State) : Action → Prop
  | .request i _ =>
    P.kind = .http →
      (s.requests[i]?).all (fun r => r.pc ≠ .verifying || r.result.sending = 0)
  | _ => True

instance (P : Endpoint) (s : State) : (a : Action) → Decidable (sendsSettled P s a)
  | .request _ _ => inferInstanceAs (Decidable (_ → _))
  | .tick _ | .fire _ | .requestStop | .receive _ | .begin _ _ | .notify _ _ | .notifyStop _
  | .complete _ | .signal _ | .wake _ | .setResultCallback _ _ _ | .consumeResult _
  | .delivery _ _ | .callSend _ | .send _ _ | .rotate _ => inferInstanceAs (Decidable True)

/-! ### The error that HTTP passes on -/

/-- What `done()` leaves in a request. -/
structure Completion (P : Endpoint) (r : Request) : Prop where
  sent : P.kind.guardsPop → r.result.doneSent →
    r.result.done ∨ 0 < r.result.sending
  before : r.doneBefore → r.result.doneSent
  unlocked : r.pc.finalizing = false → r.pc ≠ .finished → r.doneBefore = false
  settled : P.kind = .http → r.pc = .verifying ∨ r.pc = .ending → r.resultWaitFailed →
    r.doneBefore → r.error = none

theorem Completion.new (ctx : Context) : Completion P (.new ctx) where
  sent _ h := by cases h
  before h := by cases h
  unlocked _ _ := rfl
  settled _ _ h := by cases h

/-- Outside finalization, and for as long as nobody calls `done()`. -/
theorem Completion.early (h : Completion P r) (hbefore : r'.doneBefore = false)
    (hsent : r'.result.doneSent = r.result.doneSent) (hdone : r'.result.done = r.result.done)
    (hsending : r'.result.sending = r.result.sending) : Completion P r' where
  sent hk hs := by
    rw [hdone, hsending]
    exact h.sent hk (hsent ▸ hs)
  before hb := by
    simp [hbefore] at hb
  unlocked _ _ := hbefore
  settled _ _ _ hb := by
    simp [hbefore] at hb

/-- The request stays where it is, and what was done stays done. -/
theorem Completion.setResult (h : Completion P r) {result : PendingResult}
    (hmono : r.result.doneSent → result.doneSent)
    (hsent : P.kind.guardsPop → result.doneSent →
      result.done ∨ 0 < result.sending) : Completion P { r with result } :=
  { h with sent := hsent, before := fun hb => hmono (h.before hb) }

/-- A step of finalization that does not lead to the end of HTTP. -/
theorem Completion.advance (h : Completion P r) (hpc : r'.pc = r.nextFinal P)
    (hbefore : r'.doneBefore → r.result.doneSent)
    (hsent : r'.result.doneSent = r.result.doneSent) (hdone : r'.result.done = r.result.done)
    (hsending : r'.result.sending = r.result.sending)
    (hhttp : P.kind = .http → r'.pc ≠ .verifying ∧ r'.pc ≠ .ending) : Completion P r' where
  sent hk hs := by
    rw [hdone, hsending]
    exact h.sent hk (hsent ▸ hs)
  before hb := hsent.trans (hbefore hb)
  unlocked hf := by
    simp [hpc, nextFinal_finalizing] at hf
  settled hk hend := by
    rcases hend with hend | hend
    · exact absurd hend (hhttp hk).1
    · exact absurd hend (hhttp hk).2

theorem PendingResult.tryWake_sent (p : PendingResult) (h : p.doneSent → p.done ∨ 0 < p.sending) :
    p.tryWake.doneSent → p.tryWake.done ∨ 0 < p.tryWake.sending := by
  unfold tryWake
  split
  · exact h
  · exact fun _ => .inr (Nat.succ_pos _)

theorem PendingResult.tryWake_doneSent (p : PendingResult) : p.tryWake.doneSent := by
  unfold tryWake
  split
  · assumption
  · rfl

theorem PendingResult.register_event (p : PendingResult) (m : MessageId) (g : Registration) :
    (p.register m g).doneSent = p.doneSent ∧ (p.register m g).done = p.done ∧
      (p.register m g).sending = p.sending := by
  unfold register
  split <;> exact ⟨rfl, rfl, rfl⟩

theorem nextFinal_http (hk : P.kind = .http)
    (hpc : r.pc = .locking ∨ r.pc = .popping ∨ r.pc = .removing ∨ r.pc = .clearing) :
    r.nextFinal P ≠ .verifying ∧ r.nextFinal P ≠ .ending := by
  rcases hpc with hpc | hpc | hpc | hpc <;> simp only [nextFinal, hk, hpc]
  · split <;> exact ⟨(by simp), (by simp)⟩
  · exact ⟨(by simp), (by simp)⟩
  · exact ⟨(by simp), (by simp)⟩
  · exact ⟨(by simp), (by simp)⟩

/-- Whether the wait failed in spite of a `done()` is decided by `doneSent`. -/
theorem Completion.settle (h : Completion P r) :
    Completion P ({ r with
      error := if r.resultWaitFailed && r.completionReady P then none else r.error }.goto
        (r.nextFinal P)) where
  sent := h.sent
  before := h.before
  unlocked hf _ := absurd (hf.symm.trans (nextFinal_finalizing P r)) Bool.false_ne_true
  settled hk _ hfailed hb := by
    have hready : r.completionReady P := by
      unfold completionReady
      rw [hk]
      exact h.before hb
    have hfailed' : r.resultWaitFailed := hfailed
    show (if r.resultWaitFailed && r.completionReady P then none else r.error) = none
    rw [hready, hfailed']
    rfl

/-- `IsReady` agrees, if nobody is about to send `done`. -/
theorem Completion.verify (h : Completion P r) (hpc : r.pc = .verifying)
    (hsettled : P.kind = .http → r.result.sending = 0) :
    Completion P ({ r with
      error := if r.error = none ∧ r.result.done = false then some .cancelled else r.error }.goto
        (r.nextFinal P)) where
  sent := h.sent
  before := h.before
  unlocked hf _ := absurd (hf.symm.trans (nextFinal_finalizing P r)) Bool.false_ne_true
  settled hk _ hfailed hb := by
    have hguards : P.kind.guardsPop := by rw [hk]; rfl
    have hdone : r.result.done := by
      rcases h.sent hguards (h.before hb) with hdone | hsending
      · exact hdone
      · rw [hsettled hk] at hsending
        exact absurd hsending (Nat.lt_irrefl 0)
    show (if r.error = none ∧ r.result.done = false then some .cancelled else r.error) = none
    rw [if_neg]
    · exact h.settled hk (.inl hpc) hfailed hb
    · rintro ⟨-, hnot⟩
      simp [hdone] at hnot

/-- **Step lemma.** -/
theorem Completion.move (h : Completion P r) (hflow : Flow P r) (hm : Move P r r')
    (hsettled : P.kind = .http → r.pc = .verifying → r'.pc ≠ .verifying →
      r.result.sending = 0) : Completion P r' := by
  have hearly : r.pc.finalizing = false → r.pc ≠ .finished → r.doneBefore = false := h.unlocked
  have hwaits : r.pc.waits → r.doneBefore = false := by
    intro hpc
    refine hearly ?_ ?_
    · cases hr : r.pc <;> rw [hr] at hpc <;> first | rfl | cases hpc
    · intro hr
      rw [hr] at hpc
      cases hpc
  cases hm with
  | own _ hm =>
    cases hm with
    | begun b hpc =>
      have hb := hearly (by rw [hpc]; rfl) (by simp [hpc])
      cases b <;> exact h.early hb rfl rfl rfl
    | consumedAgain => exact h
    | consumeFailed hpc | consumed hpc | consumedLast hpc =>
      exact h.early (hearly (by rw [hpc]; rfl) (by simp [hpc])) rfl rfl rfl
    | subscribed _ hpc => exact h.early (hwaits (by rw [hpc]; rfl)) rfl rfl rfl
    | waited _ hpc | waitEnded hpc | waitFailed hpc => exact h.early (hwaits hpc) rfl rfl rfl
    | waitExpired hpc hk =>
      -- Not a step of HTTP or gRPC.
      have hb := hwaits (by rw [hpc]; rfl)
      refine ⟨fun hk' => absurd (hk.symm.trans hk') Bool.false_ne_true, fun _ => rfl,
        fun _ _ => hb, fun _ _ _ hb' => ?_⟩
      exact absurd (hb.symm.trans hb') Bool.false_ne_true
    | locked hpc =>
      exact h.advance rfl id rfl rfl rfl (fun hk => nextFinal_http hk (.inl hpc))
    | settled hpc => exact h.settle
    | closed hpc =>
      refine h.advance rfl h.before rfl rfl rfl (fun hk => ?_)
      have hgrpc := hflow.visits
      rw [hpc, Endpoint.visits, hk] at hgrpc
      cases hgrpc
    | cleared hpc =>
      exact h.advance rfl h.before rfl rfl rfl
        (fun hk => nextFinal_http hk (.inr (.inr (.inr hpc))))
    | verified hpc =>
      -- Here `doneSent` and the event can disagree.
      refine h.verify hpc (fun hk => hsettled hk hpc ?_)
      simp [goto, nextFinal, hpc]
    | ended error hpc =>
      refine ⟨h.sent, h.before, fun _ hne => absurd rfl hne, fun _ hend => ?_⟩
      rcases hend with hend | hend <;> cases hend
    | woken =>
      exact { h.setResult (fun _ => r.result.tryWake_doneSent)
        (fun hk => r.result.tryWake_sent (h.sent hk)) with }
    | completed | escaped => exact { h with }
    | signalled =>
      exact h.setResult (fun _ => tryWake_doneSent _)
        (fun hk => tryWake_sent _ (h.sent hk))
    | sent => exact { h with sent := fun _ _ => .inl rfl }
  | refused hpc | inserted hpc | added hpc =>
    exact h.early (hearly (by rw [hpc]; rfl) (by simp [hpc])) rfl rfl rfl
  | popped hpc =>
    exact h.advance rfl h.before rfl rfl rfl (fun hk => nextFinal_http hk (.inr (.inl hpc)))
  | removed hpc =>
    exact h.advance rfl h.before rfl rfl rfl
      (fun hk => nextFinal_http hk (.inr (.inr (.inl hpc))))
  | registered m g =>
    obtain ⟨hsent, hdone, hsending⟩ := r.result.register_event m g
    refine h.setResult (fun hs => hsent.trans hs) ?_
    rw [hsent, hdone, hsending]
    exact h.sent
  | entered | left | erased | wrote => exact { h with }
  | won =>
    exact h.setResult (fun _ => r.result.tryWake_doneSent)
      (fun hk => r.result.tryWake_sent (h.sent hk))
  | woke => exact { h with sent := fun _ _ => .inl rfl }

/-- What is known of `done()`, in every run. -/
theorem completion_of_reachable (hs : (system P).ReachableIf (sendsSettled P) s)
    (hr : s.requests[i]? = some r) : Completion P r := by
  refine forall_requests Completion.new ?_ hs hr
  intro s a i r r' hreach hok hr h hm hcause
  refine h.move (flow_of_reachable hreach hr) hm (fun hk hpc hne => ?_)
  rcases hcause.pc with hsame | hbegin | ⟨choice, rfl⟩
  · exact absurd (hsame.symm.trans hpc) hne
  · simp [hpc] at hbegin
  · have hzero := hok hk
    simpa [hr, hpc] using hzero

/-! ### Finalization -/

/-- In an endpoint whose finalization looks at `pendingInserted`, no registration is to be
    avoided. -/
theorem registersAlone_of_guardsPop (hk : P.kind.guardsPop) (s : State) (a : Action) :
    registersAlone P s a := by
  cases a <;> first | exact .inl hk | trivial

/-- `endRequest` is called when finalization comes to it. -/
theorem endings_eq_of_reachable (hs : (system P).Reachable s)
    (hr : s.requests[i]? = some r) :
    r.endings = if r.begun ∧ (r.pc = .ending ∨ r.pc = .finished) then 1 else 0 := by
  have hflow := flow_of_reachable hs hr
  rw [hflow.endings]
  refine if_congr ⟨?_, ?_⟩ rfl rfl
  · rintro (hend | ⟨hend, hb⟩)
    · exact ⟨hflow.begun_of_pc (by rw [hend]; nofun) (by rw [hend]; nofun), .inl hend⟩
    · exact ⟨hb, .inr hend⟩
  · rintro ⟨hb, hend | hend⟩
    · exact .inl hend
    · exact .inr ⟨hend, hb⟩

/-- **Finalization of HTTP and gRPC requests.** -/
theorem requestFinalization (P : Endpoint) (hk : P.kind.guardsPop = true) {s : State}
    (hs : (system P).Reachable s) :
    -- No callback runs once `endRequest` has been called.
    (∀ (d : Nat) x i m g r, s.deliveries[d]? = some x → x.pc = .calling i m g →
      s.requests[i]? = some r → r.endings = 0) ∧
    -- `endRequest` is called when finalization comes to it, and if no exception has left the
    -- request by its end, it has been called once, or not at all if `beginRequest` threw.
    (∀ (i : RequestId) r, s.requests[i]? = some r →
      r.endings = (if r.begun = true ∧ (r.pc = .ending ∨ r.pc = .finished) then 1 else 0) ∧
      (r.isOver = true → r.escaped = false → r.endings = if r.begun then 1 else 0)) ∧
    -- A callback runs for the request that is registered under the stream id of the result.
    (∀ (d : Nat) x i m g, s.deliveries[d]? = some x → x.pc = .calling i m g →
      ∃ streamId r, x.streamId = some streamId ∧ s.pending.get streamId = some i ∧
        s.requests[i]? = some r ∧ r.streamId = streamId) ∧
    -- A `done()` before finalization makes up for an interrupted wait.
    ((system P).ReachableIf (sendsSettled P) s → P.kind = .http → ∀ (i : RequestId) r,
      s.requests[i]? = some r → r.pc = .ending → r.resultWaitFailed = true →
      r.doneBefore = true → r.error = none) ∧
    -- Writes do not overlap, and there are none once finalization has closed the sender.
    (∀ (i : RequestId) r, s.requests[i]? = some r → s.writes i ≤ 1 ∧
      (r.sender.active = false → s.writes i = 0) ∧
      (P.kind.isGrpc = true → r.begun = true →
        r.pc = .clearing ∨ r.pc = .ending ∨ r.pc = .finished → r.sender.active = false)) := by
  have halone : (system P).ReachableIf (registersAlone P) s :=
    hs.mono (fun s a _ => registersAlone_of_guardsPop hk s a)
  refine ⟨?_, ?_, ?_, ?_, ?_⟩
  · intro d x i m g r hx hpc hr
    exact endings_eq_zero_of_confirmed halone hx (by rw [hpc]; rfl) hr
  · intro i r hr
    have hendings := endings_eq_of_reachable hs hr
    refine ⟨hendings, fun hover hescaped => ?_⟩
    have hpc : r.pc = .finished := by simpa [isOver, hescaped] using hover
    simpa [hpc] using hendings
  · intro d x i m g hx hpc
    obtain ⟨streamId, r, hstream, hget, hr, hsid, -⟩ :=
      registered_of_confirmed halone hx (by rw [hpc]; rfl)
    exact ⟨streamId, r, hstream, hget, hr, hsid⟩
  · intro hsettled hhttp i r hr hpc
    exact (completion_of_reachable hsettled hr).settled hhttp (.inr hpc)
  · intro i r hr
    exact ⟨writes_le_one hs hr, writes_eq_zero_of_closed hs hr, (flow_of_reachable hs hr).closed⟩

/-! ### Runs -/

/-- The request is in `endRequest` after a failed wait, although `done()` was called before. -/
def Request.endsAfterDone (r : Request) : Prop :=
  r.pc = .ending ∧ r.resultWaitFailed ∧ r.doneBefore

instance (r : Request) : Decidable r.endsAfterDone := inferInstanceAs (Decidable (_ ∧ _ ∧ _))

/-- `done()` wins over the interruption of the wait and sends `done` before finalization; another
    request fails and is finalized. -/
def doneInTime : List Action :=
  [oneRequest, [.request 0 .go, .complete 0, .request 0 .interrupt, .wake 0],
   List.replicate 6 (.request 0 .go),
   [.receive background, .begin 1 (some (background, 6)), .request 1 .go, .request 1 .go,
    .request 1 .fail], List.replicate 7 (.request 1 .go)].flatten

theorem requestFinalization_doneInTime :
    ∃ s r r', (system (withResult .http)).ReachableIf (sendsSettled (withResult .http)) s ∧
      s.requests[0]? = some r ∧ r.pc = .ending ∧ r.resultWaitFailed = true ∧
      r.doneBefore = true ∧ r.error = none ∧ s.requests[1]? = some r' ∧ r'.isOver = true ∧
      r'.endings = 1 := by
  obtain ⟨s, hs, ⟨r, hr, hpc, hfailed, hbefore⟩, r', hr', hover, hescaped, hbegun⟩ :=
    (system (withResult .http)).exists_reachableIf_of_run (sendsSettled (withResult .http))
    doneInTime (fun s => (∃ r, s.requests[0]? = some r ∧ r.endsAfterDone) ∧
      ∃ r, s.requests[1]? = some r ∧ r.isOver = true ∧ r.escaped = false ∧ r.begun = true)
    (by decide +kernel)
  obtain ⟨-, hendings, -, herror, -⟩ :=
    requestFinalization (withResult .http) rfl (hs.mono (fun _ _ _ => trivial))
  refine ⟨s, r, r', hs, hr, hpc, hfailed, hbefore, herror hs rfl 0 r hr hpc hfailed hbefore, hr',
    hover, ?_⟩
  rw [(hendings 1 r' hr').2 hover hescaped, if_pos hbegun]

/-- One thread is between setting `doneSent` and sending `done`, another one has returned from
    `done()`; the wait is interrupted and the request finalized. -/
def doneBetween : List Action :=
  [oneRequest, [.request 0 .go, .complete 0, .complete 0, .request 0 .interrupt],
   List.replicate 6 (.request 0 .go)].flatten

/-- In an endpoint of kind `kind`, an exception leaves a request at `pc`, after `beginRequest` has
    returned: `endRequest` has not been called, and the request takes no further step. -/
def LeftAt (kind : Kind) (pc : RequestPc) : Prop :=
  ∃ s r, (system (withResult kind)).Reachable s ∧ s.requests[0]? = some r ∧ r.begun ∧
    r.isOver ∧ r.pc = pc ∧ r.endings = 0 ∧
    ∀ choice, step (withResult kind) s (.request 0 choice) = none

theorem leftAt_of_run {kind : Kind} {pc : RequestPc} (as : List Action)
    (h : ((system (withResult kind)).run as).any (fun s => ∃ r, s.requests[0]? = some r ∧
      r.begun ∧ r.pc = pc ∧ r.endings = 0 ∧ r.escaped)) : LeftAt kind pc := by
  obtain ⟨s, hs, r, hr, hbegun, hpc, hendings, hescaped⟩ :=
    System.exists_reachable_of_run _ _ _ h
  refine ⟨s, r, hs, hr, hbegun, by simp [isOver, hescaped], hpc, hendings, fun choice => ?_⟩
  simp [step, State.requestStep, hr, hescaped]

/-- Right after `beginRequest`. -/
def leftEarly : List Action :=
  [.receive background, .begin 0 (some (background, 5)), .request 0 .escape]

/-- In `finish`, when it is about to remove the entry: the wait is interrupted. -/
def leftInFinish : List Action :=
  oneRequest ++ [.request 0 .go, .request 0 .interrupt, .request 0 .go, .request 0 .go,
    .request 0 .escape]

/-- HTTP passes an error on although `done()` was called; HTTP and every method of gRPC leave a
    request without `endRequest`. -/
theorem request_cancelled_or_left :
    (∃ s r, (system (withResult .http)).Reachable s ∧ s.requests[0]? = some r ∧ r.pc = .ending ∧
      r.resultWaitFailed = true ∧ r.doneBefore = true ∧ r.error = some .cancelled) ∧
    LeftAt .http .registering ∧
    ∀ method, LeftAt (.grpc method) .registering ∧ LeftAt (.grpc method) .popping := by
  refine ⟨?_, leftAt_of_run leftEarly (by decide +kernel), fun method => ?_⟩
  · obtain ⟨s, hs, r, hr, ⟨hpc, hfailed, hbefore⟩, herror⟩ := System.exists_reachable_of_run
      (system (withResult .http)) doneBetween
      (fun s => ∃ r, s.requests[0]? = some r ∧ r.endsAfterDone ∧ r.error = some .cancelled)
      (by decide +kernel)
    exact ⟨s, r, hs, hr, hpc, hfailed, hbefore, herror⟩
  · cases method <;> exact ⟨leftAt_of_run leftEarly (by decide +kernel),
      leftAt_of_run leftInFinish (by decide +kernel)⟩

end ServiceLib.Source
