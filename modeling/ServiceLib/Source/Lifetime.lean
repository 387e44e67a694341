import ServiceLib.Source.Ownership

namespace ServiceLib.Source

/-!
# Source endpoints — results and the lifetime of their request

`lifetimeMutex` of a request is held shared by the deliveries that found the request, and
exclusively by its finalization, which removes the entry of the request before it ends.  A
delivery looks at the entry again once it has the lock.
-/

open List Option DeliveryPc Rotating.RotatingMap

variable {P : Endpoint} {s s' : State} {r r' : Request}

/-- The request whose entry a delivery has seen under the lock. -/
def DeliveryPc.confirmed : DeliveryPc → Option RequestId
  | .finding i | .calling i _ _ | .erasing i _ _ => some i
  | _ => none

variable {pc : DeliveryPc} {i : RequestId} {d : Nat} {x : Delivery}

theorem DeliveryPc.inside_of_confirmed (h : pc.confirmed = some i) : pc.inside = some i := by
  cases pc <;> first | exact h | cases h

theorem DeliveryPc.request_of_inside (h : pc.inside = some i) : pc.request = some i := by
  cases pc <;> first | exact h | cases h

theorem DeliveryPc.inside_of_request_none (h : pc.request = none) :
    pc.inside = none ∧ pc.confirmed = none := by
  cases pc <;> first | exact ⟨rfl, rfl⟩ | cases h

/-- The deliveries that hold the lock of request `i` shared. -/
def State.insiders (s : State) (i : RequestId) : Nat :=
  s.deliveries.countP (fun x => x.pc.inside = some i)

/-- What `lifetimeMutex` protects. -/
structure Lifetime (s : State) : Prop where
  known : ∀ (d : Nat) x i, s.deliveries[d]? = some x → x.pc.request = some i →
    ∃ r, s.requests[i]? = some r
  readers : ∀ (i : RequestId) r, s.requests[i]? = some r → r.result.readers = s.insiders i
  exclusive : ∀ (i : RequestId) r, s.requests[i]? = some r → r.result.writer →
    r.result.readers = 0
  confirmed : ∀ (d : Nat) x i, s.deliveries[d]? = some x → x.pc.confirmed = some i →
    x.streamId.bind s.pending.get = some i

theorem Lifetime.init (P : Endpoint) : Lifetime (.init P) where
  known d x i h := by cases h
  readers i r h := by cases h
  exclusive i r h := by cases h
  confirmed d x i h := by cases h

section

variable (h : Lifetime s)
include h

namespace Lifetime

/-- A delivery inside keeps the lock from being taken exclusively. -/
theorem not_writer (hx : s.deliveries[d]? = some x) (hinside : x.pc.inside = some i)
    (hr : s.requests[i]? = some r) : 0 < r.result.readers ∧ r.result.writer = false := by
  have hpos : 0 < r.result.readers := by
    rw [h.readers i r hr]
    exact countP_pos_iff.mpr ⟨x, mem_of_getElem? hx, by simpa using hinside⟩
  refine ⟨hpos, ?_⟩
  by_contra hw
  have hzero := h.exclusive i r hr (Bool.not_eq_false _ ▸ hw)
  omega

/-! ### Steps that no delivery takes -/

/-- One request moves. -/
theorem set (hr : s.requests[i]? = some r) (hreaders : r'.result.readers = r.result.readers)
    (hwriter : r'.result.writer → r.result.writer ∨ r.result.readers = 0) :
    Lifetime (s.setRequest i r') where
  known d x j hx hj := by
    obtain ⟨r₁, hr₁⟩ := h.known d x j hx hj
    exact exists_getElem?_set i r' hr₁
  readers := forall_getElem?_set h.readers (hreaders.trans (h.readers i r hr))
  exclusive := by
    refine forall_getElem?_set h.exclusive (fun hw => ?_)
    rw [hreaders]
    exact (hwriter hw).elim (h.exclusive i r hr) id
  confirmed := h.confirmed

/-- The entries that confirmed deliveries have seen are kept. -/
theorem setPending (pending : Rotating.RotatingMap StreamId RequestId) (hget : ∀ x ∈
    s.deliveries, ∀ i, x.pc.confirmed = some i → x.streamId.bind s.pending.get = some i →
    x.streamId.bind pending.get = some i) : Lifetime { s with pending } :=
  { h with
    confirmed := fun d x i hx hi =>
      hget x (mem_of_getElem? hx) i hi (h.confirmed d x i hx hi) }

/-- Nothing refers to a new request. -/
theorem receive (ctx : Context) : Lifetime { s with requests := s.requests ++ [.new ctx] } where
  known d x i hx hi := by
    obtain ⟨r, hr⟩ := h.known d x i hx hi
    exact ⟨r, getElem?_concat hr _⟩
  readers := by
    refine forall_getElem?_concat h.readers ?_
    symm
    refine countP_eq_zero.mpr (fun x hx hinside => ?_)
    obtain ⟨d, hd⟩ := getElem?_of_mem hx
    obtain ⟨r, hr⟩ := h.known d x _ hd (request_of_inside (of_decide_eq_true hinside))
    simp at hr
  exclusive := forall_getElem?_concat h.exclusive (fun _ => rfl)
  confirmed := h.confirmed

/-- A result arrives. -/
theorem arrive (streamId : Option StreamId) :
    Lifetime { s with deliveries := s.deliveries ++ [⟨streamId, .looking⟩] } where
  known d x i hx hi := by
    rcases getElem?_append_singleton_cases hx with hx | ⟨-, rfl⟩
    · exact h.known d x i hx hi
    · cases hi
  readers i r hr := by
    have hold := h.readers i r hr
    unfold State.insiders at hold ⊢
    rw [countP_append, hold]
    rfl
  exclusive := h.exclusive
  confirmed d x i hx hi := by
    rcases getElem?_append_singleton_cases hx with hx | ⟨-, rfl⟩
    · exact h.confirmed d x i hx hi
    · cases hi

/-! ### Steps of a delivery -/

section

variable (hx : s.deliveries[d]? = some x)
include hx

/-- A delivery goes from `x.pc` to `pc`, and the readers of each request change accordingly. -/
theorem deliver (hdeliveries : s'.deliveries = s.deliveries.set d { x with pc := pc })
    (hpending : s'.pending = s.pending)
    (hkeep : ∀ (i : RequestId) r, s.requests[i]? = some r → ∃ r', s'.requests[i]? = some r')
    (hknown : ∀ i, pc.request = some i → ∃ r, s.requests[i]? = some r) (hback : ∀ (i : RequestId)
    r', s'.requests[i]? = some r' → ∃ r, s.requests[i]? = some r ∧ r'.result.readers + (if
    x.pc.inside = some i then 1 else 0) = r.result.readers + (if pc.inside = some i then 1 else 0) ∧
    (r'.result.writer → r'.result.readers = 0))
    (hconfirmed : ∀ i, pc.confirmed = some i → x.streamId.bind s.pending.get = some i) :
    Lifetime s' where
  known e y i hy hi := by
    have hold : ∃ r, s.requests[i]? = some r := by
      rw [hdeliveries] at hy
      rcases getElem?_set_cases hy with ⟨-, rfl⟩ | ⟨-, hy⟩
      · exact hknown i hi
      · exact h.known e y i hy hi
    obtain ⟨r, hr⟩ := hold
    exact hkeep i r hr
  readers i r' hr' := by
    obtain ⟨r, hr, hreaders, -⟩ := hback i r' hr'
    have hold := h.readers i r hr
    have hcount := countP_set (fun y : Delivery => decide (y.pc.inside = some i)) hx
      { x with pc := pc }
    simp only [decide_eq_true_eq] at hcount
    unfold State.insiders at hold ⊢
    rw [hdeliveries]
    omega
  exclusive i r' hr' hw := by
    obtain ⟨r, hr, -, hzero⟩ := hback i r' hr'
    exact hzero hw
  confirmed e y i hy hi := by
    rw [hdeliveries] at hy
    rw [hpending]
    rcases getElem?_set_cases hy with ⟨-, rfl⟩ | ⟨-, hy⟩
    · exact hconfirmed i hi
    · exact h.confirmed e y i hy hi

/-- It does so without touching a request. -/
theorem deliver_alone (hinside : pc.inside = x.pc.inside)
    (hknown : ∀ i, pc.request = some i → ∃ r, s.requests[i]? = some r)
    (hconfirmed : ∀ i, pc.confirmed = some i → x.streamId.bind s.pending.get = some i) :
    Lifetime (s.setDelivery d x pc) := by
  refine h.deliver hx rfl rfl (fun _ r hr => ⟨r, hr⟩) hknown ?_ hconfirmed
  intro i r hr
  exact ⟨r, hr, by rw [hinside], h.exclusive i r hr⟩

/-- It does so with one request whose readers change. -/
theorem deliver_with (hr : s.requests[i]? = some r)
    (hreaders : r'.result.readers + (if x.pc.inside = some i then 1 else 0) = r.result.readers + (if
    pc.inside = some i then 1 else 0))
    (hother : ∀ j, j ≠ i → (x.pc.inside = some j ↔ pc.inside = some j))
    (hwriter : r'.result.writer → r'.result.readers = 0) (hknown : ∀ j, pc.request = some j → j = i)
    (hconfirmed : ∀ j, pc.confirmed = some j → x.streamId.bind s.pending.get = some j) :
    Lifetime ((s.setRequest i r').setDelivery d x pc) := by
  refine h.deliver hx rfl rfl ?_ ?_ ?_ hconfirmed
  · exact fun j r₁ hj => exists_getElem?_set i r' hj
  · intro j hj
    exact ⟨r, hknown j hj ▸ hr⟩
  · intro j r₁ hj
    rcases getElem?_set_cases hj with ⟨rfl, rfl⟩ | ⟨hne, hj⟩
    · exact ⟨r, hr, hreaders, hwriter⟩
    · refine ⟨r₁, hj, ?_, h.exclusive j r₁ hj⟩
      simp only [hother j hne]

end

/-- A step of a delivery. -/
theorem delivery {answer : Answer} (howned : Owned P s) (hx : s.deliveries[d]? = some x)
    (hm : DeliveryMove s d x answer s') : Lifetime s' := by
  -- The end of a delivery that was inside request `i`.
  have hleave : ∀ {i : RequestId} {r r' : Request} {pc : DeliveryPc}, x.pc.inside = some i →
      s.requests[i]? = some r → pc.request = none →
      r'.result.readers = r.result.readers - 1 → r'.result.writer = r.result.writer →
      Lifetime ((s.setRequest i r').setDelivery d x pc) := by
    intro i r r' pc hinside hr hend hreaders hwriter
    obtain ⟨hpos, hfree⟩ := h.not_writer hx hinside hr
    obtain ⟨hout, hnot⟩ := inside_of_request_none hend
    refine h.deliver_with hx hr ?_ ?_ ?_ ?_ ?_
    · rw [if_pos hinside, hout, if_neg nofun]
      omega
    · intro j hne
      rw [hinside, hout]
      constructor
      · intro heq
        cases heq
        exact absurd rfl hne
      · nofun
    · intro hw
      simp [hwriter, hfree] at hw
    · intro j hj
      simp [hend] at hj
    · intro j hj
      simp [hnot] at hj
  cases hm with
  | looked pc hpc hend =>
    obtain ⟨hout, hnot⟩ := inside_of_request_none hend
    refine h.deliver_alone hx (by rw [hout, hpc]; rfl) ?_ ?_
    · intro i hi
      simp [hend] at hi
    · intro i hi
      simp [hnot] at hi
  | found streamId i hpc hget =>
    refine h.deliver_alone hx (by rw [hpc]; rfl) ?_ nofun
    intro j hj
    cases hj
    obtain ⟨r, hr, -⟩ := howned.entry streamId i hget
    exact ⟨r, hr⟩
  | entered i r hpc hr hfree =>
    refine h.deliver_with hx hr ?_ ?_ ?_ ?_ nofun
    · rw [hpc, if_neg nofun, if_pos (show (rechecking i).inside = some i from rfl)]
    · intro j hne
      rw [hpc]
      constructor
      · nofun
      · intro heq
        cases heq
        exact absurd rfl hne
    · intro hw
      simp [hfree] at hw
    · intro j hj
      cases hj
      rfl
  | confirmed i hpc hget =>
    refine h.deliver_alone hx (by rw [hpc]; rfl) ?_ ?_
    · intro j hj
      cases hj
      exact h.known d x i hx (by rw [hpc]; rfl)
    · intro j hj
      cases hj
      exact hget
  | called i r m g hpc | returned i m g hpc =>
    refine h.deliver_alone hx (by rw [hpc]; rfl) ?_ ?_
    · intro j hj
      cases hj
      exact h.known d x i hx (by rw [hpc]; rfl)
    · intro j hj
      cases hj
      exact h.confirmed d x i hx (by rw [hpc]; rfl)
  | left i r pc hinside hr hend => exact hleave hinside hr hend rfl rfl
  | erased i r m g pc hpc hr hend =>
    exact hleave (by rw [hpc]; rfl) hr hend rfl rfl

end Lifetime

end

/-! ### Runs -/

/-- Only finalization's own step takes the lock exclusively. -/
theorem OwnMove.writer (hm : OwnMove P r r') :
    r'.result.writer → r.result.writer ∨ r.result.readers = 0 := by
  cases hm with
  | begun b => cases b <;> exact .inl
  | locked _ hreaders => exact fun _ => .inr hreaders
  | ended | escaped => rintro ⟨⟩
  | woken =>
    intro h
    exact .inl (r.result.tryWake_writer ▸ h)
  | signalled =>
    intro h
    rw [PendingResult.tryWake_writer] at h
    exact .inl h
  | _ => exact .inl

/-- **Step lemma.** -/
theorem Lifetime.step {a : Action} (h : Lifetime s) (howned : Owned P s)
    (hflow : ∀ (i : RequestId) r, s.requests[i]? = some r → Flow P r)
    (hs : step P s a = some s') : Lifetime s' := by
  cases step_moved hs with
  | quiet _ w b pending hget =>
    have hsame : pending.get = s.pending.get := funext hget
    exact { h.setPending pending (fun _ _ _ _ => by rw [hsame]; exact id) with }
  | received ctx => exact h.receive ctx
  | moved _ i r r' hr hm => exact h.set hr hm.framed.readers hm.writer
  | refused i choice r hr | added i r hr | removed i r hr =>
    exact { h.set hr (by rfl) (by exact .inl) with }
  | inserted i r pending hr _ hset =>
    refine { (h.setPending pending ?_).set hr (by rfl) (by exact .inl) with }
    -- Only a free stream id gets a new entry.
    intro x _ j _ hold
    obtain ⟨k, hk, hget⟩ := bind_eq_some_iff.mp hold
    rw [hk, bind_some, get_set hset, if_neg]
    · exact hget
    · rintro rfl
      rw [set_eq_none.mpr (by rw [hget]; nofun)] at hset
      cases hset
  | popped i r hr hpc hescaped =>
    refine { (h.setPending (s.pending.pop r.streamId).2 ?_).set hr (by rfl)
      (by exact .inl) with }
    -- A request that removes its entry holds its lock, so no delivery is inside.
    intro x hx j hconf hold
    obtain ⟨k, hk, hget⟩ := bind_eq_some_iff.mp hold
    rw [hk, bind_some, get_pop, if_neg]
    · exact hget
    · rintro rfl
      rw [howned.entry_of_popping (hflow i r hr) hr hpc] at hget
      cases hget
      obtain ⟨d, hd⟩ := getElem?_of_mem hx
      have hfree := (h.not_writer hd (inside_of_confirmed hconf) hr).2
      have hres := (hflow i r hr).visits
      rw [hpc] at hres
      rw [(hflow i r hr).writer hescaped, hpc, Endpoint.locks_of_hasResult hres] at hfree
      cases hfree
  | registered i m callable r hr =>
    refine { h.set hr (by exact r.result.register_readers m _) (fun hw => ?_) with }
    exact .inl ((r.result.register_writer m _).symm.trans hw)
  | arrived streamId => exact h.arrive streamId
  | delivered d answer x _ hx hm => exact h.delivery howned hx hm
  | called => exact { h with }
  | sent k fails x r _ _ hr hm =>
    cases hm with
    | refused => exact { h with }
    | won =>
      exact { h.set hr (by exact r.result.tryWake_readers)
        (fun hw => .inl (r.result.tryWake_writer ▸ hw)) with }
    | _ => exact { h.set hr (by rfl) (by exact .inl) with }

section

variable (hs : (system P).ReachableIf (registersAlone P) s)
include hs

/-- Every run keeps the lifetimes. -/
theorem lifetime_of_reachable : Lifetime s := by
  refine hs.invariant (.init P) ?_
  intro s a s' hreach ih _ hstep
  exact ih.step (owned_of_reachable hreach) (fun i r hr => flow_of_reachable hreach hr) hstep

/-- A delivery past its second look is concerned with the request that is registered under its
    stream id at this moment. -/
theorem registered_of_confirmed (hx : s.deliveries[d]? = some x) (hpc : x.pc.confirmed = some i) :
    ∃ streamId r, x.streamId = some streamId ∧ s.pending.get streamId = some i ∧
      s.requests[i]? = some r ∧ r.streamId = streamId ∧ P.registeredAt r.pc := by
  have hconf := (lifetime_of_reachable hs).confirmed d x i hx hpc
  obtain ⟨streamId, hstream, hget⟩ := bind_eq_some_iff.mp hconf
  obtain ⟨r, hr, hins, hsid⟩ := (owned_of_reachable hs).entry streamId i hget
  exact ⟨streamId, r, hstream, hget, hr, hsid, ((flow_of_reachable hs hr).inserted hins).2⟩

/-- A request that a callback runs for has not come to `endRequest`. -/
theorem endings_eq_zero_of_confirmed (hx : s.deliveries[d]? = some x)
    (hpc : x.pc.confirmed = some i) (hr : s.requests[i]? = some r) : r.endings = 0 := by
  obtain ⟨_, r₀, -, -, hr₀, -, hat⟩ := registered_of_confirmed hs hx hpc
  cases hr₀.symm.trans hr
  rw [(flow_of_reachable hs hr).endings, if_neg]
  rintro (hend | ⟨hend, -⟩) <;> rw [hend] at hat <;> cases hat

end

end ServiceLib.Source
