import ServiceLib.Pool.Lifecycle

namespace ServiceLib.Pool

/-!
# Pool — the readiness event

`start` waits for `readyEvent_` with cancellation blocked, so whoever can end the startup has
to send it: the manager when it is ready and when it leaves, `stop` before it cancels the
manager.
-/

variable {Q R : Type}

/-! ### Moves of the manager -/

/-- What a step of the manager does to the lifecycle part of the pool. -/
inductive ManagerMove (c : Control) : Control → Prop
  /-- On to another point of its loop, or out of it. -/
  | walk (m : ManagerPc) (hm : m ≠ .finished)
      (hdrain : m = .drain → c.startupResult ≠ .pending) (hc : c.manager ≠ .sendReady) :
      ManagerMove c { c with manager := m }
  /-- A resolution of the startup that ends the loop. -/
  | giveUp (r : StartupResult) (hr : r ≠ .ready) (hc : c.manager ≠ .sendReady) :
      ManagerMove c { c.resolveStartup r with manager := .exiting }
  /-- The resolution that precedes the event. -/
  | ready (hc : c.manager ≠ .sendReady) :
      ManagerMove c { c.resolveStartup .ready with manager := .sendReady }
  | drain (hc : c.manager = .drain) (hst : c.state = .starting ∨ c.state = .running) :
      ManagerMove c { c with state := .draining, done := true, manager := .exiting }
  /-- `readyEvent_.Send()`. -/
  | send (m : ManagerPc) (hm : m = .sleeping ∨ m = .finished) :
      ManagerMove c { c with readyEvent := true, manager := m }

variable {s : State Q R} {s' : State Q R} {f : Bool}

/-- A step of the manager, as far as the startup result goes. -/
theorem managerStep_move {n : Option Int} {hw : Int}
    (hs : s.managerStep n hw f = some s') : ManagerMove s.ctl s'.ctl := by
  -- Most steps only move the program counter of the manager.
  have hwalk : ∀ m : ManagerPc, m ≠ .finished ∧ m ≠ .drain → s.ctl.manager ≠ .sendReady →
      ManagerMove s.ctl { s.ctl with manager := m } :=
    fun m hm hc => .walk m hm.1 (fun hd => absurd hd hm.2) hc
  cases hpc : s.ctl.manager <;> simp only [State.managerStep, hpc] at hs
  case loopHead | reserving | spawnFailed | spawnFailedPending | checkCancelled =>
    cases hs
    exact hwalk _ (by split <;> simp) (by simp [hpc])
  case resolveCancelled =>
    split at hs <;> cases hs
    next hp =>
      have hmove := ManagerMove.giveUp (c := s.ctl) .cancelled (by simp) (by simp [hpc])
      simpa [Control.resolveStartup, hp] using hmove
    next hp =>
      exact .walk .drain (by simp) (fun _ => hp) (by simp [hpc])
  case drain =>
    split at hs <;> cases hs
    unfold State.requestDrain
    split
    next hst =>
      exact .drain hpc hst
    · exact hwalk .exiting (by simp) (by simp [hpc])
  case checkDone =>
    split at hs
    · cases hs
    · split at hs <;> cases hs
      · exact .giveUp .stopped (by simp) (by simp [hpc])
      · exact hwalk .reconcile (by simp) (by simp [hpc])
  case reconcile =>
    split at hs <;> cases hs
    unfold State.reconcile
    dsimp only
    repeat' split
    all_goals exact hwalk _ (by simp) (by simp [hpc])
  case spawning k => cases k <;> cases hs <;> exact hwalk _ (by simp) (by simp [hpc])
  case claimed => split at hs <;> cases hs <;> exact hwalk _ (by simp) (by simp [hpc])
  case adopting =>
    split at hs <;> cases hs
    exact hwalk _ (by split <;> simp) (by simp [hpc])
  case resolveFailed => cases hs; exact .giveUp .failed (by simp) (by simp [hpc])
  case resolveReady => cases hs; exact .ready (by simp [hpc])
  case sendReady => cases hs; exact .send .sleeping (.inl rfl)
  case sleeping => cases hs; exact hwalk .loopHead (by simp) (by simp [hpc])
  case exiting => cases hs; exact .send .finished (.inr rfl)
  all_goals cases hs

@[simp] theorem Control.resolveStartup_starter (c : Control) (r : StartupResult) :
    (c.resolveStartup r).starter = c.starter := by
  unfold Control.resolveStartup; split <;> rfl

/-! ### The readiness event -/

/-- A `start` that will not wait for `readyEvent_`: never called, or about to throw. -/
def StartPc.abandoned : StartPc → Bool
  | .idle | .failing | .failingState | .threw _ => true
  | _ => false

/-- A `stop` that is past its `readyEvent_.Send()`, or past the check that skips it. -/
def StopPc.signalled : StopPc → Bool
  | .idle | .awaitFields | .joinManager | .signalReady => false
  | _ => true

/-- What holds of `readyEvent_` between any two steps. -/
structure Control.Signals (c : Control) : Prop where
  ready : c.startupResult = .ready → c.readyEvent ∨ c.manager = .sendReady
  resolved : c.manager = .drain → c.startupResult ≠ .pending
  finished : c.manager = .finished → c.readyEvent
  draining : c.state = .draining → c.readyEvent
  joining : c.stopper = .joinManager →
    c.managerTask ∨ c.readyEvent ∨ c.starter.abandoned
  signalled : c.stopper.signalled → c.readyEvent ∨ c.starter.abandoned

namespace Control.Signals

variable {c : Control} {st : PoolState}

theorem init : Control.init.Signals := by
  constructor <;> simp [Control.init, StopPc.signalled]

section

variable (h : c.Signals)
include h

/-- A `start` has no predecessor, and no `stop` has begun. -/
theorem callStart (hwf : c.WellFormed) (ctx : Context) : (c.callStart ctx).Signals := by
  unfold Control.callStart
  split
  next hst =>
    have hidle : c.stopper = .idle := hwf.claimed.mp (by rw [hst]; rfl)
    refine ⟨h.ready, h.resolved, h.finished, nofun, ?_, ?_⟩
    · intro hj
      simp [hidle] at hj
    · intro hj
      rw [hidle] at hj
      cases hj
  · exact h

/-- `start` moves on without a word to the event; `hab` is that it does not come back once
    it is abandoned. -/
theorem setStarter {watches task pub : Bool} {q p : StartPc}
    (hpc : c.starter = q) (hst : st = .draining → c.state = .draining := by exact id)
    (htask : c.managerTask → task := by simp)
    (hab : q.abandoned → p.abandoned := by simp [StartPc.abandoned]) :
    { c with state := st, cancelWatches := watches, managerTask := task,
             fieldsPublished := pub, starter := p }.Signals := by
  subst hpc
  exact { h with
    draining := fun hd => h.draining (hst hd)
    joining := fun hj => (h.joining hj).imp htask (Or.imp_right hab)
    signalled := fun hj => (h.signalled hj).imp_right hab }

/-- The manager appears; before that nobody has resolved the startup. -/
theorem spawnManager (habs : c.manager = .absent) : { c with manager := .loopHead }.Signals :=
  { h with
    ready := fun hr => .inl ((h.ready hr).resolve_right (by rw [habs]; nofun))
    resolved := nofun
    finished := nofun }

theorem startStep {c' : Control} (hwf : c.WellFormed)
    (hs : c.startStep f = some c') : c'.Signals := by
  cases hpc : c.starter <;> simp only [Control.startStep, hpc] at hs
  case idle | returned | threw => cases hs
  case failing | publishing | assigning => cases hs; exact h.setStarter hpc
  case failingState =>
    cases hs
    refine h.setStarter hpc (fun hd => ?_)
    split at hd
    · cases hd
    · exact hd
  case building => split at hs <;> cases hs <;> exact h.setStarter hpc
  case spawning =>
    split at hs <;> cases hs
    · exact h.setStarter hpc
    · have habs : c.manager = .absent := hwf.noManager (by rw [hpc]; rfl)
      exact (h.spawnManager habs).setStarter hpc
  case awaitReady => split at hs <;> cases hs; exact h.setStarter hpc
  case resolving =>
    cases hs
    unfold Control.resolveStart
    split
    · refine h.setStarter hpc (fun hd => ?_)
      rcases startOutcome_cases c.startupResult with ⟨-, ho⟩ | ⟨e, ho⟩ <;> rw [ho] at hd <;>
        cases hd
    · exact h.setStarter hpc

/-- A `stop` that does not wait for the fields of `start` finds a manager to join, an event
    already sent, or no `start` that waits. -/
theorem claimStop (hwf : c.WellFormed) (hcl : c.state.claimed = false) : c.claimStop.Signals := by
  refine ⟨h.ready, h.resolved, h.finished, nofun, ?_, ?_⟩
  · intro hj
    change (if c.state = .starting then StopPc.awaitFields else .joinManager) = _ at hj
    change c.managerTask ∨ c.readyEvent ∨ c.starter.abandoned
    cases hst : c.state with
    | created =>
      right; right
      rw [hwf.created hst]
      rfl
    | starting => simp [if_pos hst] at hj
    | running =>
      left
      exact hwf.assigned (by rw [(hwf.running hst).2]; rfl)
    | draining => exact .inr (.inl (h.draining hst))
    | failed =>
      obtain ⟨e, he⟩ := hwf.failed hst
      right; right
      rw [he]
      rfl
    | stopping | stopped => rw [hst] at hcl; cases hcl
  · intro hj
    change (if c.state = .starting then StopPc.awaitFields else .joinManager).signalled = _ at hj
    split at hj <;> cases hj

end

/-- Once `start` has published its fields it has a manager, or it has given up. -/
theorem joining_of_published (hwf : c.WellFormed) (hp : c.fieldsPublished) :
    c.managerTask ∨ c.starter.abandoned := by
  have hpub := hwf.published hp
  cases hpc : c.starter with
  | awaitReady | resolving | returned => exact .inl (hwf.assigned (by rw [hpc]; rfl))
  | failingState | threw => exact .inr rfl
  | idle | building | spawning | assigning | publishing | failing => rw [hpc] at hpub; cases hpub

/-- A resolution other than `kReady` says nothing about the event. -/
theorem resolveStartup (h : c.Signals) {r : StartupResult} (hr : r ≠ .ready)
    (hp : r ≠ .pending) : (c.resolveStartup r).Signals := by
  unfold Control.resolveStartup
  split
  · exact { h with ready := fun hready => absurd hready hr, resolved := fun _ => hp }
  · exact h

/-- `stop` moves on as long as it does not claim more about the event than is true. -/
theorem setStopper (h : c.Signals) {cancelled : Bool} (p : StopPc)
    (hsig : p.signalled → c.readyEvent ∨ c.starter.abandoned)
    (hjoin : p = .joinManager →
      c.managerTask ∨ c.readyEvent ∨ c.starter.abandoned := by simp)
    (hst : st = .draining → c.state = .draining := by first | exact id | simp) :
    { c with state := st, managerCancelled := cancelled, stopper := p }.Signals :=
  { h with draining := fun hd => h.draining (hst hd), joining := hjoin, signalled := hsig }

end Control.Signals

/-- A step of `stop`. -/
theorem stopStep_signals (h : s.ctl.Signals) (hwf : s.ctl.WellFormed)
    (hs : s.stopStep = some s') : s'.ctl.Signals := by
  cases hpc : s.ctl.stopper <;> simp only [State.stopStep, hpc] at hs
  case awaitFields =>
    split at hs <;> cases hs
    rename_i hpub
    refine h.setStopper .joinManager (by rintro ⟨⟩) (fun _ => ?_)
    exact (Control.Signals.joining_of_published hwf hpub).imp_right .inr
  case joinManager =>
    have hjoin := h.joining hpc
    split at hs <;> cases hs
    · have h' := h.resolveStartup (r := .stopped) (by simp) (by simp)
      exact h'.setStopper .signalReady (by rintro ⟨⟩)
    next htask =>
      exact h.setStopper .takeExecutors (fun _ => hjoin.resolve_left htask)
  case signalReady =>
    cases hs
    exact ⟨fun _ => .inl rfl, h.resolved, fun _ => rfl, fun _ => rfl, (by simp), fun _ => .inl rfl⟩
  case cancelManager | storeStopped =>
    cases hs
    exact h.setStopper _ (fun _ => h.signalled (by rw [hpc]; rfl))
  case awaitManager | takeExecutors | awaitExecutors | awaitWatches | notifyStopped =>
    split at hs <;> cases hs
    exact h.setStopper _ (fun _ => h.signalled (by rw [hpc]; rfl))
  all_goals cases hs

/-- The manager drains a pool only after it has sent the event: the startup was resolved, not
    by `stop`, and not by the manager giving up. -/
theorem Control.Signals.drained {c : Control} (h : c.Signals) (hwf : c.WellFormed)
    (hc : c.manager = .drain) (hst : c.state = .starting ∨ c.state = .running) : c.readyEvent := by
  have hopen : c.done = false := by
    rw [hwf.done_eq]
    rcases hst with hst | hst <;> rw [hst] <;> rfl
  have hstays : c.manager.over = false := by rw [hc]; rfl
  cases hr : c.startupResult with
  | ready =>
    rcases h.ready hr with he | hm
    · exact he
    · simp [hc] at hm
  | pending => exact absurd hr (h.resolved hc)
  | stopped =>
    simp [hwf.result_stopped hr] at hopen
  | cancelled =>
    simp [hwf.result_final (.inl hr)] at hstays
  | failed =>
    simp [hwf.result_final (.inr hr)] at hstays

/-- A step of the manager. -/
theorem ManagerMove.signals {c c' : Control} (h : c.Signals) (hwf : c.WellFormed)
    (hm : ManagerMove c c') : c'.Signals := by
  -- Away from `sendReady` a startup that is ready has sent its event.
  have hsent : c.manager ≠ .sendReady → c.startupResult = .ready → c.readyEvent :=
    fun hc hr => (h.ready hr).resolve_right hc
  cases hm with
  | walk m hm hdrain hc =>
    exact ⟨fun hr => .inl (hsent hc hr), hdrain, fun hf => absurd hf hm, h.draining, h.joining,
      h.signalled⟩
  | giveUp r hr hc =>
    unfold Control.resolveStartup
    split
    · exact ⟨fun hready => absurd hready hr, nofun, nofun, h.draining, h.joining, h.signalled⟩
    · exact ⟨fun hready => .inl (hsent hc hready), nofun, nofun, h.draining, h.joining, h.signalled⟩
  | ready hc =>
    unfold Control.resolveStartup
    split <;> exact ⟨fun _ => .inr rfl, nofun, nofun, h.draining, h.joining, h.signalled⟩
  | drain hc hst =>
    have he := h.drained hwf hc hst
    exact ⟨fun _ => .inl he, nofun, nofun, fun _ => he, h.joining, h.signalled⟩
  | send m hm =>
    refine ⟨fun _ => .inl rfl, ?_, fun _ => rfl, fun _ => rfl, fun _ => .inr (.inl rfl),
      fun _ => .inl rfl⟩
    rintro rfl
    rcases hm with hm | hm <;> cases hm

variable [WaitQueue Q R]

/-- What holds of `readyEvent_`, in every run. -/
theorem reachable_signals (h : (system Q).Reachable s) : s.ctl.Signals := by
  refine h.invariant (I := fun s => s.ctl.Signals) Control.Signals.init
    (fun {s a s'} hr hi _ hs => ?_)
  have hwf := reachable_wellFormed hr
  rcases step_ctl hs with hc | ⟨ctx, hc⟩ | ⟨f, hc⟩ | ⟨hcl, hc⟩ | hc | ⟨n, hw, f, hc⟩
  · rw [hc]; exact hi
  · rw [hc]; exact hi.callStart hwf ctx
  · exact hi.startStep hwf hc
  · rw [hc]; exact hi.claimStop hwf hcl
  · exact stopStep_signals hi hwf hc
  · exact (managerStep_move hc).signals hi hwf

end ServiceLib.Pool
