import ServiceLib.Lib.ThreadList
import ServiceLib.Lib.Transition
import ServiceLib.Runtime.ContextWait

namespace ServiceLib.ContextGate

/-!
# Waiting for a gate

`ContextGate` of `runtime/detail/context_wait.hpp` admits one caller at a time: `acquire` waits
with `WaitWithContext` until the gate is not busy and makes it busy, the destructor of the
`Lease` makes it free again.  The other users of `WaitWithContext` have the same shape, so the
model is over any data that a mutex protects and any predicates on it (`Protocol`); the gate is
one instance.

A call whose context has stop tokens gives the mutex up once more after its wait, to join its
notifier, and evaluates the predicate again afterwards.
-/

open List Option

/-- What the callers of `WaitWithContext` on one mutex do: each brings a request, waits for
    `ready`, changes the data with `commit` before it unlocks, and with `leave` when it is done.
    `update` is what other coroutines do under the mutex. -/
structure Protocol (D P U : Type) where
  init : D
  ready : P → D → Bool
  commit : P → D → D
  leave : P → D → D
  update : U → D → D

/-- `ContextGate`; the data is `busy_`. -/
def gate : Protocol Bool Unit Empty where
  init := false
  ready _ busy := !busy
  commit _ _ := true
  leave _ _ := false
  update u := u.elim

/-! ### State -/

inductive CallPc
  | locking
  | waiting (pc : WaitPc)
  /-- `acquire` returned a `Lease`. -/
  | leased
  /-- The `Lease` is destroyed. -/
  | released
  /-- `acquire` threw "service lifecycle wait cancelled or expired". -/
  | refused
  /-- The wait threw. -/
  | threw
  deriving DecidableEq, Repr

/-- A call of `acquire`, with the lease it returns. -/
structure Call (P : Type) where
  ctx : Context
  request : P
  pc : CallPc
  /-- Whether the notifier task of the wait has yet to notify. -/
  armed : Bool
  deriving DecidableEq, Repr

/-- The data, the holder of its mutex, and every call made so far. -/
structure State (D P : Type) where
  world : World
  data : D
  mu : Option Nat
  calls : List (Call P)
  deriving DecidableEq, Repr

def CallPc.holds : CallPc → Bool
  | .waiting pc => pc.holds
  | _ => false

/-- The call has given the mutex up after its wait. -/
def CallPc.rejoining : CallPc → Bool
  | .waiting .joining | .waiting .relocking => true
  | _ => false

variable {D P U : Type}

namespace State

def setCall (s : State D P) (i : Nat) (c : Call P) (pc : CallPc) : State D P :=
  { s with calls := s.calls.set i { c with pc := pc } }

/-- What `NotifyAll` does to one call. -/
def wakeCall (c : Call P) : Call P :=
  if c.pc = .waiting .parked then { c with pc := .waiting .woken } else c

/-- `changed_.NotifyAll()`. -/
def notifyAll (s : State D P) : State D P := { s with calls := s.calls.map wakeCall }

/-- A parked call wakes by itself: at its deadline, or without a reason. -/
def wakeStep (s : State D P) (i : Nat) (timeout : Bool) : Option (State D P) :=
  match s.calls[i]? with
  | none => none
  | some c =>
    if c.pc ≠ .waiting .parked then none
    else if timeout then
      if c.ctx.expired s.world then some (s.setCall i c (.waiting .timedOut)) else none
    else some (s.setCall i c (.waiting .woken))

/-- The notifier task of call `i` saw a stop token fire: it locks and notifies. -/
def notifierStep (s : State D P) (i : Nat) : Option (State D P) :=
  match s.calls[i]? with
  | none => none
  | some c =>
    if c.armed ∧ s.mu = none ∧ c.ctx.tokens.any s.world.stopRequested then
      some { s with calls := s.calls.set i { c with armed := false } }.notifyAll
    else none

end State

namespace Protocol

variable (M : Protocol D P U)

/-! ### Steps -/

/-- What the wait of call `c` sees. -/
def view (s : State D P) (c : Call P) (fails : Bool) : WaitView where
  ready := M.ready c.request s.data
  cancelled := c.ctx.cancelled s.world
  subscribed := !c.ctx.tokens.isEmpty
  free := s.mu.isNone
  fails := fails

/-- One step of the wait of call `i`. -/
def waitStep (s : State D P) (i : Nat) (c : Call P) (pc : WaitPc) (fails : Bool) :
    Option (State D P) :=
  (pc.step (M.view s c fails)).map (fun pc' =>
    { s with
      calls := s.calls.set i { c with
        pc := .waiting pc'
        armed := match pc with
          | .subscribing => !c.ctx.tokens.isEmpty
          | .joining => false
          | _ => c.armed }
      mu := if pc'.holds then some i else if pc.holds then none else s.mu })

/-- One step of call `i`.  `fails` is whether `WaitWithContext` cannot allocate. -/
def callStep (s : State D P) (i : Nat) (fails : Bool) : Option (State D P) :=
  match s.calls[i]? with
  | none => none
  | some c =>
    match c.pc with
    | .locking =>
      if s.mu ≠ none then none
      else some { s.setCall i c (.waiting .firstCheck) with mu := some i }
    | .waiting (.ended true) =>
      some { s.setCall i c .leased with data := M.commit c.request s.data, mu := none }
    | .waiting (.ended false) => some { s.setCall i c .refused with mu := none }
    | .waiting .threw => some { s.setCall i c .threw with mu := none }
    | .waiting pc => M.waitStep s i c pc fails
    | .leased =>
      -- The destructor of the lease: one critical section.
      if s.mu ≠ none then none
      else some { s.setCall i c .released with data := M.leave c.request s.data }.notifyAll
    | .released | .refused | .threw => none

end Protocol

/-- Who moves next, and what the environment decides for that step. -/
inductive Action (P U : Type)
  | tick (now : Time)
  | fire (τ : TokenId)
  | acquire (ctx : Context) (request : P)
  | run (i : Nat) (fails : Bool)
  | wake (i : Nat) (timeout : Bool)
  | notifier (i : Nat)
  /-- The critical section of another coroutine; `notifies` is whether it notifies. -/
  | update (u : U) (notifies : Bool)
  deriving DecidableEq, Repr

namespace Protocol

variable (M : Protocol D P U)

def step (s : State D P) : Action P U → Option (State D P)
  | .tick now => if s.world.now ≤ now then some { s with world.now := now } else none
  | .fire τ => some { s with world.fired := τ :: s.world.fired }
  | .acquire ctx request =>
    some { s with calls := s.calls ++ [⟨ctx, request, .locking, false⟩] }
  | .run i fails => M.callStep s i fails
  | .wake i timeout => s.wakeStep i timeout
  | .notifier i => s.notifierStep i
  | .update u notifies =>
    if s.mu ≠ none then none
    else
      let s' := { s with data := M.update u s.data }
      some (if notifies then s'.notifyAll else s')

/-- The data and its callers, from the construction of the data on. -/
def system : System (State D P) (Action P U) where
  init := ⟨⟨0, []⟩, M.init, none, []⟩
  step := M.step

/-- Whether the predicate of every call that joins its notifier survives the change of the data
    from `d` to `d'`. -/
def keepsReady (calls : List (Call P)) (d d' : D) : Bool :=
  calls.all (fun c => !(c.pc.rejoining && M.ready c.request d) || M.ready c.request d')

/-- The step does not make the predicate of a call false while that call joins its notifier. -/
def undisturbed (s : State D P) (a : Action P U) : Prop :=
  ∀ s' ∈ M.step s a, M.keepsReady s.calls s.data s'.data

instance (s : State D P) (a : Action P U) : Decidable (M.undisturbed s a) :=
  inferInstanceAs (Decidable (∀ s' ∈ M.step s a, M.keepsReady s.calls s.data s'.data))

end Protocol

/-! ### The invariant -/

/-- What a program counter promises about the predicate and the context of its call. -/
def CallPc.justified (ready cancelled : Bool) : CallPc → Bool
  | .waiting .timedOut | .waiting (.ended false) => cancelled
  | .waiting pc => !pc.settled || ready || cancelled
  | _ => true

/-- Where a promise is made, it only needs to be kept. -/
theorem CallPc.justified_mono {ready ready' cancelled cancelled' : Bool} {pc : CallPc}
    (h : pc.justified ready cancelled) (hready : pc.holds ∨ pc.rejoining → ready → ready')
    (hcancelled : cancelled → cancelled') : pc.justified ready' cancelled' := by
  cases pc with
  | waiting pc =>
    cases pc with
    | timedOut => exact hcancelled h
    | ended result =>
      cases result with
      | false => exact hcancelled h
      | true => rfl
    | leaving | lastCheck | joining | relocking =>
      have hready' := hready (by first | exact .inl rfl | exact .inr rfl)
      simp only [CallPc.justified, WaitPc.settled, Bool.not_true, Bool.false_or,
        Bool.or_eq_true] at h ⊢
      exact h.imp hready' hcancelled
    | _ => rfl
  | _ => rfl

variable {M : Protocol D P U}

/-- Who is inside holds the mutex, and every call keeps its promise. -/
structure Sound (M : Protocol D P U) (s : State D P) : Prop where
  mutex : ∀ (i : Nat) (c : Call P), s.calls[i]? = some c → c.pc.holds → s.mu = some i
  justified : ∀ (i : Nat) (c : Call P), s.calls[i]? = some c →
    c.pc.justified (M.ready c.request s.data) (c.ctx.cancelled s.world)

variable {s s' : State D P} {i : Nat} {fails : Bool}

section

variable (h : Sound M s)
include h

theorem Sound.world {w : World} (hnow : s.world.now ≤ w.now)
    (hfired : ∀ τ, s.world.stopRequested τ → w.stopRequested τ) :
    Sound M { s with world := w } where
  mutex := h.mutex
  justified i c hc :=
    CallPc.justified_mono (h.justified i c hc) (fun _ => id) (c.ctx.cancelled_mono hnow hfired)

theorem Sound.acquire (ctx : Context) (request : P) :
    Sound M { s with calls := s.calls ++ [⟨ctx, request, .locking, false⟩] } where
  mutex := forall_getElem?_concat h.mutex (by rintro ⟨⟩)
  justified := forall_getElem?_concat h.justified rfl

/-- Waking calls brings nobody inside and promises nothing. -/
theorem Sound.notifyAll : Sound M s.notifyAll := by
  have hwake : ∀ (i : Nat) (c : Call P), s.notifyAll.calls[i]? = some c →
      ∃ c₀, s.calls[i]? = some c₀ ∧ c = State.wakeCall c₀ := by
    intro i c hc
    rw [State.notifyAll, getElem?_map] at hc
    obtain ⟨c₀, hc₀, rfl⟩ := map_eq_some_iff.mp hc
    exact ⟨c₀, hc₀, rfl⟩
  constructor
  · intro i c hc hin
    obtain ⟨c₀, hc₀, rfl⟩ := hwake i c hc
    unfold State.wakeCall at hin
    split at hin
    · cases hin
    · exact h.mutex i c₀ hc₀ hin
  · intro i c hc
    obtain ⟨c₀, hc₀, rfl⟩ := hwake i c hc
    unfold State.wakeCall
    split
    · rfl
    · exact h.justified i c₀ hc₀

/-- One call moves.  The others keep what they hold, and what they were promised. -/
theorem Sound.set {c' : Call P} {d : D} {m : Option Nat}
    (hmu : ∀ j, j ≠ i → s.mu = some j → m = some j) (hown : c'.pc.holds → m = some i)
    (hjust : c'.pc.justified (M.ready c'.request d) (c'.ctx.cancelled s.world))
    (hkeeps : ∀ (j : Nat) (x : Call P), j ≠ i → s.calls[j]? = some x →
      x.pc.holds ∨ x.pc.rejoining →
      M.ready x.request s.data → M.ready x.request d) :
    Sound M { s with calls := s.calls.set i c', data := d, mu := m } where
  mutex := by
    intro j x hx hin
    rcases getElem?_set_cases hx with ⟨rfl, rfl⟩ | ⟨hne, hx⟩
    · exact hown hin
    · exact hmu j hne (h.mutex j x hx hin)
  justified := by
    intro j x hx
    rcases getElem?_set_cases hx with ⟨rfl, rfl⟩ | ⟨hne, hx⟩
    · exact hjust
    · exact CallPc.justified_mono (h.justified j x hx) (hkeeps j x hne hx) id

/-- A change of the data under the mutex leaves the calls alone that are inside, because there
    are none, and those that join their notifier, because it is undisturbed. -/
theorem Sound.keeps {d : D} (hok : M.keepsReady s.calls s.data d) {j : Nat}
    {x : Call P} (hx : s.calls[j]? = some x) (hmu : s.mu ≠ some j)
    (hin : x.pc.holds ∨ x.pc.rejoining) (hready : M.ready x.request s.data) :
    M.ready x.request d := by
  rcases hin with hin | hin
  · exact absurd (h.mutex j x hx hin) hmu
  · have hall := all_eq_true.mp hok x (mem_of_getElem? hx)
    simpa [hin, hready] using hall

end

/-- One step of a wait keeps the promises of its call. -/
theorem justified_of_waitStep {v : WaitView} {pc pc' : WaitPc} (h : pc.step v = some pc')
    (hj : (CallPc.waiting pc).justified v.ready v.cancelled) :
    (CallPc.waiting pc').justified v.ready v.cancelled := by
  have hends := (WaitPc.steps_of_step h).2
  by_cases hpc : pc' = .ended false
  · subst hpc
    rcases hends.answers rfl with hc | ⟨rfl, hready⟩
    · exact hc
    · simpa [CallPc.justified, WaitPc.settled, hready] using hj
  · cases hset : pc'.settled with
    | false =>
      have htimed := hends.expires
      unfold CallPc.justified
      split <;> simp_all
    | true =>
      have hgoal : v.ready ∨ v.cancelled := by
        rcases hends.settles hset with hsettled | rfl | hready | hc
        · unfold CallPc.justified at hj
          split at hj
          all_goals simp_all [WaitPc.settled]
        · exact .inr hj
        · exact .inl hready
        · exact .inr hc
      unfold CallPc.justified
      split <;> simp_all [WaitPc.settled]

/-- A step of a call inside its wait. -/
theorem Sound.waitStep (h : Sound M s) {c : Call P} {pc : WaitPc} (hc : s.calls[i]? = some c)
    (hpc : c.pc = .waiting pc) (hs : M.waitStep s i c pc fails = some s') : Sound M s' := by
  obtain ⟨pc', hstep, rfl⟩ := map_eq_some_iff.mp hs
  have htakes := (WaitPc.steps_of_step hstep).1.takes
  have hjust := h.justified i c hc
  rw [hpc] at hjust
  refine h.set (fun j hne hj => ?_) (fun hin => if_pos hin) (justified_of_waitStep hstep hjust)
    (fun _ _ _ _ _ => id)
  -- Another holder excludes both that this call is inside and that it gets in.
  have hout : pc.holds = false := by
    cases hin : pc.holds with
    | false => rfl
    | true =>
      have hmine := h.mutex i c hc (by rw [hpc]; exact hin)
      rw [hj] at hmine
      exact absurd (some.inj hmine) hne
  have hout' : pc'.holds = false := by
    cases hin : pc'.holds with
    | false => rfl
    | true =>
      rcases htakes hin with hheld | hfree
      · simp [hout] at hheld
      · simp [show (M.view s c fails).free = s.mu.isNone from rfl, hj] at hfree
  rw [hout, hout']
  exact hj

/-- The mutex belongs to call `i`, or to nobody. -/
theorem Sound.callStep (h : Sound M s) (hs : M.callStep s i fails = some s')
    (hok : M.keepsReady s.calls s.data s'.data) : Sound M s' := by
  unfold Protocol.callStep at hs
  split at hs
  · cases hs
  rename_i c hc
  have hmine : c.pc.holds → ∀ j, j ≠ i → s.mu = some j → none = some j := by
    intro hin j hne hj
    rw [h.mutex i c hc hin] at hj
    exact absurd (some.inj hj).symm hne
  split at hs
  case h_1 hpc =>
    split at hs <;> cases hs
    rename_i hfree
    refine h.set (fun j _ hj => ?_) (fun _ => rfl) rfl (fun _ _ _ _ _ => id)
    simp [not_not.mp hfree] at hj
  case h_2 hpc =>
    cases hs
    have hmu := hmine (by rw [hpc]; rfl)
    exact h.set hmu (by rintro ⟨⟩) rfl
      (fun j x hne hx => h.keeps hok hx (by rintro hj; cases hmu j hne hj))
  case h_3 hpc | h_4 hpc =>
    cases hs
    exact h.set (hmine (by rw [hpc]; rfl)) (by rintro ⟨⟩) rfl (fun _ _ _ _ _ => id)
  case h_5 hpc => exact h.waitStep hc hpc hs
  case h_6 hpc =>
    split at hs <;> cases hs
    rename_i hfree
    have hmu : ∀ j, s.mu ≠ some j := by
      intro j hj
      simp [not_not.mp hfree] at hj
    refine Sound.notifyAll (h.set (fun j _ hj => absurd hj (hmu j)) (by rintro ⟨⟩) rfl
      (fun j x _ hx => h.keeps hok hx (hmu j)))
  all_goals cases hs

/-- **Invariant.**  Every undisturbed step keeps it. -/
theorem Sound.step {a : Action P U} (h : Sound M s) (hs : M.step s a = some s')
    (hok : M.undisturbed s a) : Sound M s' := by
  have hkeeps := hok s' hs
  cases a with
  | tick now =>
    simp only [Protocol.step] at hs
    split at hs <;> cases hs
    exact h.world ‹_› (fun _ => id)
  | fire τ =>
    cases hs
    refine h.world (Int.le_refl _) (fun τ' hτ' => ?_)
    simp only [World.stopRequested, contains_cons, Bool.or_eq_true] at hτ' ⊢
    exact .inr hτ'
  | acquire ctx request => cases hs; exact h.acquire ctx request
  | run i fails => exact h.callStep hs hkeeps
  | wake i timeout =>
    simp only [Protocol.step, State.wakeStep] at hs
    split at hs
    · cases hs
    next c hc =>
      split at hs
      · cases hs
      · split at hs
        · split at hs <;> cases hs
          rename_i hexp
          refine h.set (fun _ _ => id) (by rintro ⟨⟩) ?_ (fun _ _ _ _ _ => id)
          simp only [CallPc.justified, Context.cancelled, hexp, Bool.or_true]
        · cases hs
          exact h.set (fun _ _ => id) (by rintro ⟨⟩) rfl (fun _ _ _ _ _ => id)
  | notifier i =>
    simp only [Protocol.step, State.notifierStep] at hs
    split at hs
    · cases hs
    next c hc =>
      split at hs <;> cases hs
      exact Sound.notifyAll (h.set (fun _ _ => id) (h.mutex i c hc) (h.justified i c hc)
        (fun _ _ _ _ _ => id))
  | update u notifies =>
    simp only [Protocol.step] at hs
    split at hs
    · cases hs
    next hfree =>
      have hupdate : Sound M { s with data := M.update u s.data } := by
        refine ⟨h.mutex, fun j x hx => CallPc.justified_mono (h.justified j x hx) ?_ id⟩
        refine h.keeps (d := M.update u s.data) ?_ hx ?_
        · cases hs
          cases notifies <;> exact hkeeps
        · rw [not_not.mp hfree]
          rintro ⟨⟩
      cases hs
      cases notifies
      · exact hupdate
      · exact hupdate.notifyAll

theorem sound_of_reachable (h : M.system.ReachableIf M.undisturbed s) : Sound M s := by
  refine h.invariant ⟨?_, ?_⟩ (fun _ hi hok hs => hi.step hs hok)
  · intro i c hc
    cases hc
  · intro i c hc
    cases hc

/-! ### Refusals -/

/-- `acquire` throws only after its wait answered `false`. -/
theorem refused_of_callStep {c c' : Call P} (hs : M.callStep s i fails = some s')
    (hc : s.calls[i]? = some c) (hc' : s'.calls[i]? = some c') (hpc' : c'.pc = .refused) :
    c.pc = .waiting (.ended false) := by
  have hlen : i < s.calls.length := lt_of_getElem? hc
  have hset : ∀ {x : Call P}, (s.calls.set i x)[i]? = some c' → x.pc = .refused := by
    intro x hx
    rw [getElem?_set_self hlen] at hx
    cases hx
    exact hpc'
  simp only [Protocol.callStep, hc] at hs
  split at hs
  case h_1 =>
    split at hs <;> cases hs
    cases hset hc'
  case h_2 | h_4 => cases hs; cases hset hc'
  case h_3 hpc => exact hpc
  case h_5 =>
    obtain ⟨pc', -, rfl⟩ := map_eq_some_iff.mp hs
    cases hset hc'
  case h_6 =>
    split at hs <;> cases hs
    -- The notification that ends the lease does not touch a call that was released.
    rw [State.notifyAll, getElem?_map] at hc'
    obtain ⟨x, hx, rfl⟩ := map_eq_some_iff.mp hc'
    have hx' : (s.calls.set i { c with pc := .released })[i]? = some x := hx
    rw [getElem?_set_self hlen] at hx'
    cases hx'
    cases hpc'
  all_goals cases hs

/-- **No spurious refusal.**  As long as nobody makes the predicate of a call false again while
    it joins its notifier, `WaitWithContext` answers `false`, and `acquire` throws, only while
    the context of the call is cancelled or past its deadline. -/
theorem refused_only_if_cancelled (M : Protocol D P U) {s : State D P} {i : Nat} {c : Call P}
    (h : M.system.ReachableIf M.undisturbed s) (hc : s.calls[i]? = some c) :
    (c.pc = .waiting (.ended false) → c.ctx.cancelled s.world = true) ∧
      ∀ fails s' c', M.callStep s i fails = some s' → s'.calls[i]? = some c' →
        c'.pc = .refused → c.ctx.cancelled s.world = true := by
  have hanswer : c.pc = .waiting (.ended false) → c.ctx.cancelled s.world = true := by
    intro hpc
    have hjust := (sound_of_reachable h).justified i c hc
    rw [hpc] at hjust
    exact hjust
  exact ⟨hanswer, fun fails s' c' hs hc' hpc' => hanswer (refused_of_callStep hs hc hc' hpc')⟩

/-- Two callers, the second with stop token 1, and its wait: the first holds the gate. -/
def waitForGate : List (Action Unit Empty) :=
  [.acquire {} (), .run 0 false, .run 0 false, .run 0 false,
   .acquire { stopToken := some 1 } (), .run 1 false, .run 1 false, .run 1 false, .run 1 false,
   .run 1 false, .run 1 false]

/-- The stop token of a waiting call fires: its notifier wakes it, and it is refused. -/
theorem refused_only_if_cancelled_fired :
    ∃ (s : State Bool Unit) (c : Call Unit), gate.system.ReachableIf gate.undisturbed s ∧
      s.calls[1]? = some c ∧ c.pc = .waiting (.ended false) ∧ c.ctx.cancelled s.world = true := by
  obtain ⟨s, hr, c, hc, hpc⟩ := System.exists_reachableIf_of_run gate.system gate.undisturbed
    (waitForGate ++ [.fire 1, .notifier 1, .run 1 false, .run 1 false, .run 1 false, .run 1 false,
      .run 1 false, .run 1 false])
    (fun s => ∃ c, s.calls[1]? = some c ∧ c.pc = .waiting (.ended false)) (by decide +kernel)
  exact ⟨s, c, hr, hc, hpc, (refused_only_if_cancelled gate hr hc).1 hpc⟩

/-- **A refused caller whose context was never cancelled.**  The gate becomes free, the caller's
    wait ends, and while it joins its notifier a third caller takes the gate. -/
theorem acquire_refused_spuriously :
    ∃ (s : State Bool Unit) (c : Call Unit), gate.system.Reachable s ∧ s.calls[1]? = some c ∧
      c.pc = .waiting (.ended false) ∧ c.ctx.cancelled s.world = false := by
  obtain ⟨s, hr, c, hrefused⟩ := System.exists_reachable_of_run gate.system
    (waitForGate ++ [.run 0 false, .run 1 false, .run 1 false, .run 1 false,
      .acquire {} (), .run 2 false, .run 2 false, .run 2 false,
      .run 1 false, .run 1 false, .run 1 false])
    (fun s => ∃ c, s.calls[1]? = some c ∧ c.pc = .waiting (.ended false) ∧
      c.ctx.cancelled s.world = false) (by decide +kernel)
  exact ⟨s, c, hr, hrefused⟩

end ServiceLib.ContextGate
