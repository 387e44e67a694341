import ServiceLib.Source.Flow

namespace ServiceLib.Source

/-!
# gRPC source endpoints — writes through a sender

`Sender::send` writes while it holds `mu_`, and throws instead once `close` has been called;
`close` takes the same mutex.
-/

open List

variable {P : Endpoint} {s s' : State} {r r' : Request}

/-- The sends that hold the mutex of request `i`'s sender. -/
def State.holders (s : State) (i : RequestId) : Nat :=
  s.sends.countP (fun x => x.request = i && x.pc.holds)

/-- The writes through the sender of request `i` that are under way. -/
def State.writes (s : State) (i : RequestId) : Nat :=
  s.sends.countP (fun x => x.request = i && x.pc = .writing)

/-- What the mutexes of the senders protect. -/
structure Senders (s : State) : Prop where
  known : ∀ (k : Nat) x, s.sends[k]? = some x → ∃ r, s.requests[x.request]? = some r
  holders : ∀ (i : RequestId) r, s.requests[i]? = some r →
    s.holders i = if r.sender.locked then 1 else 0
  closed : ∀ (i : RequestId) r, s.requests[i]? = some r → r.sender.active = false →
    r.sender.locked = false

theorem Senders.init (P : Endpoint) : Senders (.init P) where
  known k x h := by cases h
  holders i r h := by cases h
  closed i r h := by cases h

/-! ### Steps that no send takes -/

variable {i : RequestId} {ok : State → Action → Prop} {x : SendCall} {k : Nat}

/-- A request moves, and leaves the mutex of its sender alone. -/
theorem Senders.set (h : Senders s) (hr : s.requests[i]? = some r)
    (hlocked : r'.sender.locked = r.sender.locked)
    (hactive : r'.sender.active = false → r.sender.active = false ∨ r.sender.locked = false) :
    Senders (s.setRequest i r') where
  known k x hx := by
    obtain ⟨r₁, hr₁⟩ := h.known k x hx
    exact exists_getElem?_set i r' hr₁
  holders := forall_getElem?_set h.holders (hlocked ▸ h.holders i r hr)
  closed := by
    refine forall_getElem?_set h.closed (fun hclosed => ?_)
    rw [hlocked]
    exact (hactive hclosed).elim (h.closed i r hr) id

/-- A new request has a sender that nobody knows. -/
theorem Senders.receive (h : Senders s) (ctx : Context) :
    Senders { s with requests := s.requests ++ [.new ctx] } where
  known k x hx := by
    obtain ⟨r, hr⟩ := h.known k x hx
    exact ⟨r, getElem?_concat hr _⟩
  holders := by
    refine forall_getElem?_concat h.holders ?_
    refine countP_eq_zero.mpr (fun x hx hholds => ?_)
    obtain ⟨k, hk⟩ := getElem?_of_mem hx
    obtain ⟨r, hr⟩ := h.known k x hk
    simp only [Bool.and_eq_true, decide_eq_true_eq] at hholds
    simp [hholds.1] at hr
  closed := forall_getElem?_concat h.closed (fun _ => rfl)

/-- Only `close` makes a sender inactive, and it waits for the mutex. -/
theorem OwnMove.active (hm : OwnMove P r r') :
    r'.sender.active = false → r.sender.active = false ∨ r.sender.locked = false := by
  cases hm with
  | begun b => cases b <;> exact .inl
  | closed _ hfree => exact fun _ => .inr hfree
  | _ => exact .inl

/-! ### Steps of a send -/

/-- A send goes from `x.pc` to `pc`, and its request from `r` to `r'`. -/
theorem Senders.move {pc : SendPc} (h : Senders s)
    (hx : s.sends[k]? = some x) (hr : s.requests[x.request]? = some r)
    (hrequests : s'.requests = s.requests.set x.request r')
    (hsends : s'.sends = s.sends.set k { x with pc := pc })
    (hlocked : (if r'.sender.locked then 1 else 0) + (if x.pc.holds then 1 else 0) =
      (if r.sender.locked then 1 else 0) + (if pc.holds then 1 else 0))
    (hclosed : r'.sender.active = false → r'.sender.locked = false) : Senders s' where
  known k' y hy := by
    rw [hsends] at hy
    obtain ⟨r₁, hr₁⟩ := forall_getElem?_set h.known (by exact ⟨r, hr⟩) k' y hy
    rw [hrequests]
    exact exists_getElem?_set _ r' hr₁
  holders i r₁ hi := by
    rw [hrequests] at hi
    have hcount := countP_set (fun y : SendCall => y.request = i && y.pc.holds) hx
      { x with pc := pc }
    unfold State.holders
    rw [hsends]
    rcases getElem?_set_cases hi with ⟨rfl, rfl⟩ | ⟨hne, hi⟩
    · have hold := h.holders x.request r hr
      unfold State.holders at hold
      simp only [decide_true, Bool.true_and] at hcount
      omega
    · have hold := h.holders i r₁ hi
      unfold State.holders at hold
      have hother : x.request ≠ i := fun heq => hne heq.symm
      simp only [hother, decide_false, Bool.false_and, Bool.false_eq_true, if_false] at hcount
      omega
  closed := by
    rw [hrequests]
    exact forall_getElem?_set h.closed hclosed

/-- A step of a writer. -/
theorem Senders.send (h : Senders s) (hx : s.sends[k]? = some x)
    (hr : s.requests[x.request]? = some r) (hm : SendMove s k x r s') : Senders s' := by
  -- A send that holds the mutex is why it is locked.
  have hlocked : x.pc.holds → r.sender.locked := by
    intro hholds
    by_contra hfree
    have hzero := h.holders x.request r hr
    rw [if_neg hfree] at hzero
    refine countP_eq_zero.mp hzero x (mem_of_getElem? hx) ?_
    simp [hholds]
  have hself := (set_eq_self hr).symm
  cases hm with
  | refused hpc => exact h.move hx hr hself rfl (by rw [hpc]; rfl) (h.closed _ r hr)
  | started hpc hfree hactive =>
    refine h.move hx hr rfl rfl (by rw [hpc, hfree]; rfl) ?_
    intro hinactive
    simp [hactive] at hinactive
  | responded hpc | won hpc => exact h.move hx hr rfl rfl (by rw [hpc]; rfl) (h.closed _ r hr)
  | ended sender pc hholds hend =>
    exact h.move hx hr rfl rfl (by rw [hholds, hend, hlocked hholds]; rfl) (fun _ => rfl)
  | woke hpc =>
    have hholds : x.pc.holds := by rw [hpc]; rfl
    exact h.move hx hr rfl rfl (by rw [hholds, hlocked hholds]; rfl) (fun _ => rfl)

/-! ### Runs -/

/-- Every step keeps the writers apart. -/
theorem Senders.step {a : Action} (h : Senders s) (hs : step P s a = some s') : Senders s' := by
  cases step_moved hs with
  | quiet | arrived => exact { h with }
  | received ctx => exact h.receive ctx
  | moved _ i r r' hr hm => exact h.set hr hm.framed.senderLocked hm.active
  | refused i choice r hr | inserted i r pending hr | added i r hr | popped i r hr | removed i r hr
  | registered i m callable r hr => exact { h.set hr (by rfl) (by exact .inl) with }
  | delivered d answer x _ _ hm =>
    cases hm with
    | entered i r _ hr | left i r _ _ hr | erased i r _ _ _ _ hr =>
      exact { h.set hr (by rfl) (by exact .inl) with }
    | _ => exact { h with }
  | called i r hr =>
    refine ⟨forall_getElem?_concat h.known ⟨r, hr⟩, fun j r₁ hj => ?_, h.closed⟩
    have hold := h.holders j r₁ hj
    unfold State.holders at hold ⊢
    rw [countP_append, hold]
    simp [SendPc.holds]
  | sent k fails x r _ hx hr hm => exact h.send hx hr hm

theorem senders_of_reachable (hs : (system P).ReachableIf ok s) : Senders s := by
  refine hs.invariant (.init P) ?_
  intro s a s' _ ih _ hstep
  exact ih.step hstep

theorem State.writes_le_holders (s : State) (i : RequestId) : s.writes i ≤ s.holders i := by
  refine countP_mono_left (fun x _ hx => ?_)
  simp only [Bool.and_eq_true, decide_eq_true_eq] at hx ⊢
  exact ⟨hx.1, by rw [hx.2]; rfl⟩

/-- Writes through one sender do not overlap. -/
theorem writes_le_one (hs : (system P).ReachableIf ok s) (hr : s.requests[i]? = some r) :
    s.writes i ≤ 1 := by
  have hholders := (senders_of_reachable hs).holders i r hr
  have hle := s.writes_le_holders i
  split at hholders <;> omega

/-- No write is under way through a sender that is closed. -/
theorem writes_eq_zero_of_closed (hs : (system P).ReachableIf ok s) (hr : s.requests[i]? = some r)
    (hclosed : r.sender.active = false) : s.writes i = 0 := by
  have hsenders := senders_of_reachable hs
  have hholders := hsenders.holders i r hr
  rw [hsenders.closed i r hr hclosed, if_neg Bool.false_ne_true] at hholders
  have hle := s.writes_le_holders i
  omega

end ServiceLib.Source
