import ServiceLib.Source.Callbacks
import ServiceLib.Source.Lifetime

namespace ServiceLib.Source

/-!
# Local and Kafka source endpoints — a stream id that is already active

`pending_.set` throws for a stream id that is active, and `process` then goes to its common
finalization, which calls `pending_.pop(streamId)` and `pendingRemove` whether or not the request
was inserted.  The entry that it removes is that of the active request, whose results are late
from then on (`activeRequest_removed`); HTTP and gRPC look at `pendingInserted` first, and no
request of theirs loses its entry.

If every registration succeeds (`registersAlone`), a request keeps its entry until it removes it
itself, and the gauge counts the requests between `pendingAdd` and `pendingRemove`
(`activeRequest_kept`).
-/

open List Option Request

variable {P : Endpoint} {s s' : State} {r r' : Request} {i : RequestId}

/-- The requests that the gauge should count. -/
def State.countedRequests (s : State) : Nat := s.requests.countP (fun r => r.counted)

/-- Between `pendingAdd` and `pendingRemove`. -/
def RequestPc.counts : RequestPc → Bool
  | .consuming | .subscribing | .waiting | .checking | .expiring | .draining | .locking | .settling
  | .popping | .removing => true
  | _ => false

/-- The gauge of a local or Kafka source. -/
structure Gauge (P : Endpoint) (s : State) : Prop where
  counted : ∀ (i : RequestId) r, s.requests[i]? = some r →
    r.counted = (P.hasResult && r.pc.counts)
  gauge : s.pendingRequests = s.countedRequests

theorem Gauge.init (P : Endpoint) : Gauge P (.init P) where
  counted i r h := by cases h
  gauge := rfl

/-! ### Steps -/

/-- A request moves and is counted as before. -/
theorem Gauge.set (h : Gauge P s) (hr : s.requests[i]? = some r)
    (hcounted : r'.counted = r.counted) (hpc : P.hasResult → r'.pc.counts = r.pc.counts) :
    Gauge P (s.setRequest i r') where
  counted := by
    refine forall_getElem?_set h.counted ?_
    rw [hcounted, h.counted i r hr]
    cases hres : P.hasResult with
    | true => rw [hpc hres]
    | false => rfl
  gauge := by
    show s.pendingRequests = ((s.requests.set i r').countP _ : Nat)
    rw [countP_set_same hr hcounted]
    exact h.gauge

theorem RequestPc.counts_of_waits {pc : RequestPc} (h : pc.waits) : pc.counts := by
  cases pc <;> first | rfl | cases h

/-- The steps before and after `pendingAdd` and `pendingRemove`. -/
theorem OwnMove.counts (hm : OwnMove P r r') (hflow : Flow P r)
    (hk : P.kind.guardsPop = false) (hres : P.hasResult) : r'.pc.counts = r.pc.counts := by
  have hlocks := Endpoint.locks_of_hasResult hres
  have hfinal : r.pc = .locking ∨ r.pc = .settling → (r.nextFinal P).counts := by
    obtain ⟨kind, _⟩ := P
    rintro (hpc | hpc) <;> cases kind <;> simp only [nextFinal, hpc] <;>
      first | rfl | (rw [if_pos hres]; rfl) | cases hk
  have hvisits := hflow.visits
  cases hm with
  | begun b hpc =>
    cases b with
    | none => rw [hpc]; rfl
    | some b =>
      rw [hpc, show (r.begin P (some b)).pc = .registering by simp [begin, hres]]
      rfl
  | consumeFailed hpc =>
    rw [hpc]
    simp [throwing, finalize, goto, hlocks]
    rfl
  | consumed hpc => rw [hpc]; simp [hk]; rfl
  | consumedLast hpc hnot => simp [hres] at hnot
  | subscribed _ hpc | waitExpired hpc | ended _ hpc => rw [hpc]; rfl
  | waited _ hpc hpc' =>
    rw [RequestPc.counts_of_waits hpc]
    exact RequestPc.counts_of_waits hpc'
  | waitEnded hpc | waitFailed hpc => rw [RequestPc.counts_of_waits hpc]; rfl
  | locked hpc =>
    rw [hpc]
    exact hfinal (.inl hpc)
  | settled hpc =>
    rw [hpc]
    exact hfinal (.inr hpc)
  | closed hpc =>
    rw [hpc] at hvisits
    exact absurd (hk.symm.trans (Kind.guardsPop_of_isGrpc hvisits)) Bool.false_ne_true
  | cleared hpc | verified hpc =>
    simp [hpc, Endpoint.visits, hk] at hvisits
  | _ => rfl

/-- **Step lemma.** -/
theorem Gauge.step {a : Action} (h : Gauge P s) (hk : P.kind.guardsPop = false)
    (hflow : ∀ (i : RequestId) r, s.requests[i]? = some r → Flow P r)
    (hok : registersAlone P s a) (hs : step P s a = some s') : Gauge P s' := by
  cases step_moved hs with
  | quiet | arrived | called => exact { h with }
  | received ctx =>
    refine ⟨forall_getElem?_concat h.counted (Bool.and_false _).symm, ?_⟩
    rw [State.countedRequests, countP_append]
    exact h.gauge
  | moved _ i r r' hr hm =>
    exact h.set hr hm.framed.counted (hm.counts (hflow i r hr) hk)
  | refused i choice r hr hpc hfailed =>
    exact absurd hfailed (not_refused_of_registersAlone hok hk hr hpc)
  | inserted i r pending hr hpc => exact { h.set hr (by rfl) (fun _ => by rw [hpc]; rfl) with }
  | added i r hr hpc =>
    -- The gauge and the flag of the request change in one step.
    have hres := (hflow i r hr).visits
    have hnot := h.counted i r hr
    rw [hpc] at hres hnot
    rw [show RequestPc.adding.counts = false from rfl, Bool.and_false] at hnot
    refine ⟨forall_getElem?_set h.counted ?_, ?_⟩
    · rw [show P.hasResult = true from hres]
      rfl
    · have hcount := countP_set_enter (p := fun r : Request => r.counted) hr (b := { r with
        pc := .consuming, counted := true, exposed := P.exposes }) hnot rfl
      have hgauge := h.gauge
      show s.pendingRequests + 1 = ((s.requests.set i _).countP _ : Nat)
      rw [hcount, hgauge]
      rfl
  | popped i r hr hpc =>
    refine { h.set hr (by rfl) (fun _ => ?_) with }
    rw [hpc]
    simp [goto, nextFinal, hpc]
    rfl
  | removed i r hr hpc =>
    have hres := (hflow i r hr).visits
    have hcounted := h.counted i r hr
    rw [hpc] at hres hcounted
    rw [show P.hasResult = true from hres] at hcounted
    have hnext : r.nextFinal P = .ending := by
      obtain ⟨kind, _⟩ := P
      cases kind <;> simp only [nextFinal, hpc] <;> cases hk
    refine ⟨forall_getElem?_set h.counted ?_, ?_⟩
    · simp only [goto, hnext]
      exact (Bool.and_false _).symm
    · have hcount := countP_set_leave (p := fun r : Request => r.counted) hr (b := {
        r.goto (r.nextFinal P) with counted := false }) hcounted rfl
      have hgauge := h.gauge
      show s.pendingRequests - 1 = ((s.requests.set i _).countP _ : Nat)
      rw [hgauge, State.countedRequests]
      omega
  | registered i m callable r hr => exact { h.set hr (by rfl) (fun _ => by rfl) with }
  | delivered d answer x _ _ hm =>
    cases hm with
    | entered i r _ hr | left i r _ _ hr | erased i r _ _ _ _ hr =>
      exact { h.set hr (by rfl) (fun _ => by rfl) with }
    | _ => exact { h with }
  | sent k fails x r _ _ hr hm =>
    cases hm with
    | refused => exact { h with }
    | _ => exact { h.set hr (by rfl) (fun _ => by rfl) with }

/-! ### Runs -/

theorem gauge_of_reachable (hk : P.kind.guardsPop = false)
    (hs : (system P).ReachableIf (registersAlone P) s) : Gauge P s := by
  refine hs.invariant (I := Gauge P) (.init P) ?_
  intro s a s' hreach ih hok hstep
  exact ih.step hk (fun i r hr => flow_of_reachable hreach hr) hok hstep

/-- Both looks of a delivery find the request that is registered under its stream id. -/
theorem deliveryStep_of_entry {d : Nat} {x : Delivery} {k : StreamId}
    {answer : Answer} (hres : P.hasResult) (hx : s.deliveries[d]? = some x)
    (hstream : x.streamId = some k) (hget : s.pending.get k = some i)
    (hstep : step P s (.delivery d answer) = some s') :
    (x.pc = .looking → s' = s.setDelivery d x (.locking i)) ∧
      (x.pc = .rechecking i → s' = s.setDelivery d x (.finding i)) := by
  have hs' : s.deliveryStep P d answer = some s' := hstep
  unfold State.deliveryStep at hs'
  simp only [hx] at hs'
  constructor
  · intro hpc
    simp only [hpc, DeliveryPc.request, hstream, hget, hres, Bool.true_eq_false, and_false,
      if_true, if_false, some.injEq] at hs'
    exact hs'.symm
  · intro hpc
    simp only [hpc, DeliveryPc.request] at hs'
    split at hs'
    · cases hs'
    · simp only [State.deliverTo, hpc, hstream, bind_some, hget, if_true, some.injEq] at hs'
      exact hs'.symm

/-- **An active stream id is left alone.**  In a local or Kafka source whose registrations
    succeed, a request keeps its entry from its registration to its own finalization; results
    for its stream id find it, at both looks; and the gauge counts the requests between
    `pendingAdd` and `pendingRemove`. -/
theorem activeRequest_kept (P : Endpoint) (hk : P.kind = .localSource ∨ P.kind = .kafka)
    {s : State} (hs : (system P).ReachableIf (registersAlone P) s) :
    (∀ (i : RequestId) r, s.requests[i]? = some r → P.hasResult = true →
      P.registeredAt r.pc = true →
      s.pending.get r.streamId = some i ∧
      ∀ (d : Nat) x answer s', s.deliveries[d]? = some x → x.streamId = some r.streamId →
        step P s (.delivery d answer) = some s' →
        (x.pc = .looking → s' = s.setDelivery d x (.locking i)) ∧
        (x.pc = .rechecking i → s' = s.setDelivery d x (.finding i))) ∧
    (∀ (i : RequestId) r, s.requests[i]? = some r →
      r.counted = (P.hasResult && r.pc.counts)) ∧
    s.pendingRequests = s.countedRequests := by
  have hguards : P.kind.guardsPop = false := by
    rcases hk with hk | hk <;> rw [hk] <;> rfl
  have howned := owned_of_reachable hs
  have hgauge := gauge_of_reachable hguards hs
  refine ⟨?_, hgauge.counted, hgauge.gauge⟩
  · intro i r hr hres hat
    have hget := howned.inserted i r hr (howned.owner i r hr hguards hres hat)
    refine ⟨hget, fun d x answer s' hx hstream hstep => ?_⟩
    exact deliveryStep_of_entry hres hx hstream hget hstep

/-- Two requests under different stream ids wait for their results. -/
def twoRequests : List Action :=
  [[.receive background, .begin 0 (some (background, 5))], replicate 4 (.request 0 .go),
   [.receive background, .begin 1 (some (background, 6))],
   replicate 4 (.request 1 .go)].flatten

theorem activeRequest_kept_two :
    ∃ s r, (system (withResult .kafka)).ReachableIf (registersAlone (withResult .kafka)) s ∧
      s.requests[0]? = some r ∧ r.pc = .waiting ∧ s.pending.get r.streamId = some 0 ∧
      s.pendingRequests = s.countedRequests := by
  obtain ⟨s, hs, r, hr, hpc⟩ := (system (withResult .kafka)).exists_reachableIf_of_run
    (registersAlone (withResult .kafka)) twoRequests
    (fun s => ∃ r, s.requests[0]? = some r ∧ r.pc = .waiting) (by decide +kernel)
  obtain ⟨hentry, -, hgauge⟩ := activeRequest_kept (withResult .kafka) (.inr rfl) hs
  exact ⟨s, r, hs, hr, hpc, (hentry 0 r hr rfl (by rw [hpc]; rfl)).1, hgauge⟩

/-- In a source of kind `kind`, a request that waits for its result has lost its entry and its
    share of the gauge to a request under the same stream id, and its result is late. -/
def RemovesActive (kind : Kind) : Prop :=
  ∃ s r r' x, (system (withResult kind)).Reachable s ∧
    s.requests[0]? = some r ∧ r.pc = .waiting ∧ r.pendingInserted ∧
    s.requests[1]? = some r' ∧ r'.error = some .registration ∧ r'.streamId = r.streamId ∧
    s.pending.get r.streamId = none ∧ s.pendingRequests = 0 ∧
    s.deliveries[0]? = some x ∧ x.streamId = some r.streamId ∧ x.pc = .late

/-- The second request finds its stream id active and finalizes; a result arrives. -/
def duplicateRequest : List Action :=
  [[.receive background, .begin 0 (some (background, 5))], replicate 4 (.request 0 .go),
   [.receive background, .begin 1 (some (background, 5))], replicate 5 (.request 1 .go),
   [.consumeResult (some 5), .delivery 0 .throws]].flatten

theorem removesActive_of_run {kind : Kind}
    (h : ((system (withResult kind)).run duplicateRequest).any (fun s =>
      ∃ r, s.requests[0]? = some r ∧ r.pc = .waiting ∧ r.pendingInserted ∧
        s.pending.get r.streamId = none ∧ s.pendingRequests = 0 ∧
        (∃ r', s.requests[1]? = some r' ∧ r'.error = some .registration ∧
          r'.streamId = r.streamId) ∧
        ∃ x, s.deliveries[0]? = some x ∧ x.streamId = some r.streamId ∧ x.pc = .late)) :
    RemovesActive kind := by
  obtain ⟨s, hs, r, hr, hpc, hins, hget, hgauge, ⟨r', hr', herror, hsid⟩, x, hx, hlate⟩ :=
    System.exists_reachable_of_run _ _ _ h
  exact ⟨s, r, r', x, hs, hr, hpc, hins, hr', herror, hsid, hget, hgauge, hx, hlate⟩

theorem activeRequest_removed : RemovesActive .localSource ∧ RemovesActive .kafka :=
  ⟨removesActive_of_run (by decide +kernel), removesActive_of_run (by decide +kernel)⟩

/-! ### Endpoints that look at `pendingInserted` -/

/-- **Whoever else comes.**  In HTTP and gRPC sources the entries are exactly those of the requests
    that were inserted and have not removed theirs, whatever other requests do under the same
    stream id, and results for such a request find it, at both looks. -/
theorem pendingEntries_exact (hk : P.kind.guardsPop = true) (hs : (system P).Reachable s) :
    (∀ k i, s.pending.get k = some i ↔
      ∃ r, s.requests[i]? = some r ∧ r.pendingInserted = true ∧ r.streamId = k) ∧
    ∀ (i : RequestId) r, s.requests[i]? = some r → r.pendingInserted = true →
      ∀ (d : Nat) x answer s', s.deliveries[d]? = some x → x.streamId = some r.streamId →
        step P s (.delivery d answer) = some s' →
        (x.pc = .looking → s' = s.setDelivery d x (.locking i)) ∧
        (x.pc = .rechecking i → s' = s.setDelivery d x (.finding i)) := by
  -- Every action is allowed here, since finalization looks first.
  have halone : (system P).ReachableIf (registersAlone P) s := by
    refine hs.mono (fun _ a _ => ?_)
    cases a <;> first | exact .inl hk | trivial
  have howned := owned_of_reachable halone
  refine ⟨fun k i => ⟨howned.entry k i, ?_⟩, ?_⟩
  · rintro ⟨r, hr, hins, rfl⟩
    exact howned.inserted i r hr hins
  · intro i r hr hins d x answer s' hx hstream hstep
    have hres := ((flow_of_reachable halone hr).inserted hins).1
    exact deliveryStep_of_entry hres hx hstream (howned.inserted i r hr hins) hstep

/-- A second request under an active stream id has come to its end. -/
theorem pendingEntries_exact_duplicate :
    ∃ s r r', (system (withResult .http)).Reachable s ∧ s.requests[0]? = some r ∧
      s.requests[1]? = some r' ∧ r'.pc = .finished ∧ r'.streamId = r.streamId ∧
      s.pending.get r.streamId = some 0 := by
  obtain ⟨s, hs, r, hr, hins, r', hr', hpc, hsid⟩ := System.exists_reachable_of_run
    (system (withResult .http)) (oneRequest ++
      [.receive background, .begin 1 (some (background, 5))] ++ replicate 6 (.request 1 .go))
    (fun s => ∃ r, s.requests[0]? = some r ∧ r.pendingInserted = true ∧
      ∃ r', s.requests[1]? = some r' ∧ r'.pc = .finished ∧ r'.streamId = r.streamId)
    (by decide +kernel)
  have hentry := ((pendingEntries_exact rfl hs).1 r.streamId 0).mpr ⟨r, hr, hins, rfl⟩
  exact ⟨s, r, r', hs, hr, hr', hpc, hsid, hentry⟩

end ServiceLib.Source
