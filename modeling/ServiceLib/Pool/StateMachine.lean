import ServiceLib.Pool.Readiness
import ServiceLib.Pool.TaskQueue
import ServiceLib.Pool.PriorityQueue

namespace ServiceLib.Pool

/-!
# Pool — the state machine of start and stop

Three parties move the state word of a pool: the winner of `start`, the winner of `stop` and
the manager.  `start_stop_stateMachine` says along which edges, for any wait queue.
-/

open Control

variable {Q R : Type} {c c' : Control}

/-! ### Edges -/

/-- The moves of the state word. -/
def PoolState.canMove : PoolState → PoolState → Bool
  | .created, .starting => true
  | .starting, .running | .starting, .failed | .starting, .draining | .starting, .stopping => true
  | .running, .draining | .running, .stopping => true
  | .created, .stopping | .failed, .stopping | .draining, .stopping => true
  | .stopping, .stopped => true
  | _, _ => false

/-- What a step may do to the state word. -/
def PoolState.Follows (old new : PoolState) : Prop := new = old ∨ old.canMove new

theorem PoolState.not_canMove_stopped (p : PoolState) : PoolState.canMove .stopped p = false := by
  cases p <;> rfl

theorem PoolState.canMove_stopping {p : PoolState} (h : p.claimed = false) :
    p.canMove .stopping := by
  cases p with
  | created | starting | running | draining | failed => rfl
  | stopping | stopped => cases h

theorem Control.callStart_follows (c : Control) (ctx : Context) :
    c.state.Follows (c.callStart ctx).state := by
  unfold callStart
  split
  next hst =>
    right
    rw [hst]
    rfl
  · exact .inl rfl

/-- `start` moves the state to `kRunning` exactly when it returns, and to `kFailed` when it
    throws while the state is still its own. -/
theorem Control.resolveStart_cases (c : Control) :
    c.state = .starting ∧ c.resolveStart.state = .running ∧ c.resolveStart.starter = .returned ∨
    (c.state = .starting ∧ c.resolveStart.state = .failed ∨ c.resolveStart.state = c.state) ∧
      ∃ e, c.resolveStart.starter = .threw e := by
  unfold resolveStart
  split
  next hst =>
    rcases startOutcome_cases c.startupResult with ⟨-, ho⟩ | ⟨e, ho⟩
    · rw [ho]
      exact .inl ⟨hst, rfl, rfl⟩
    · rw [ho]
      exact .inr ⟨.inl ⟨hst, rfl⟩, e, rfl⟩
  · exact .inr ⟨.inr rfl, _, rfl⟩

/-- A step of `start` follows the edges, and makes `start` return only by moving the state
    from `kStarting` to `kRunning`. -/
theorem Control.startStep_follows {f : Bool} (hs : c.startStep f = some c') :
    c.state.Follows c'.state ∧
      (c'.starter = .returned → c.starter = .resolving ∧ c.state = .starting ∧
        c'.state = .running) := by
  cases hpc : c.starter <;> simp only [startStep, hpc] at hs
  case resolving =>
    cases hs
    rcases c.resolveStart_cases with ⟨hst, hrun, -⟩ | ⟨hst, e, he⟩
    · refine ⟨.inr ?_, fun _ => ⟨rfl, hst, hrun⟩⟩
      rw [hst, hrun]
      rfl
    · refine ⟨?_, fun hret => by rw [he] at hret; cases hret⟩
      rcases hst with ⟨hst, hfail⟩ | hkeep
      · right
        rw [hst, hfail]
        rfl
      · exact .inl hkeep
  all_goals grind [PoolState.Follows, PoolState.canMove]

variable {s s' : State Q R}

theorem stopStep_starter (hs : s.stopStep = some s') :
    s.ctl.stopper ≠ .idle ∧ s'.ctl.starter = s.ctl.starter := by
  unfold State.stopStep at hs
  split at hs <;> grind [resolveStartup, State.notifyAll]

theorem ManagerMove.follows (h : ManagerMove c c') :
    c.state.Follows c'.state ∧ c'.starter = c.starter := by
  cases h with
  | walk | send => exact ⟨.inl rfl, rfl⟩
  | giveUp | ready => exact ⟨.inl (by simp), by simp⟩
  | drain hc hst =>
    refine ⟨.inr ?_, rfl⟩
    rcases hst with hst | hst <;> rw [hst] <;> rfl

/-! ### The state machine -/

variable [WaitQueue Q R] {a : Action R}

/-- Every step follows the edges, and only the winner of `start` makes `start` return, in the
    step by which it moves the state from `kStarting` to `kRunning`. -/
theorem step_follows (hwf : s.ctl.WellFormed) (hs : step s a = some s') :
    s.ctl.state.Follows s'.ctl.state ∧
      (s'.ctl.starter = .returned → s.ctl.starter = .returned ∨
        s.ctl.starter = .resolving ∧ s.ctl.state = .starting ∧ s'.ctl.state = .running) := by
  rcases step_ctl hs with hc | ⟨ctx, hc⟩ | ⟨f, hc⟩ | ⟨hcl, hc⟩ | hc | ⟨n, hw, f, hc⟩
  · rw [hc]
    exact ⟨.inl rfl, .inl⟩
  · rw [hc]
    refine ⟨s.ctl.callStart_follows ctx, ?_⟩
    unfold callStart
    split
    · exact nofun
    · exact .inl
  · have hf := startStep_follows hc
    exact ⟨hf.1, fun hret => .inr (hf.2 hret)⟩
  · rw [hc]
    exact ⟨.inr (PoolState.canMove_stopping hcl), .inl⟩
  · obtain ⟨hbusy, hstarter⟩ := stopStep_starter hc
    refine ⟨?_, fun hret => .inl (by rw [← hstarter]; exact hret)⟩
    rcases (stopStep_state hc).2 with hkeep | hstop
    · exact .inl hkeep
    · -- A `stop` at work owns the state, which is `kStopping` until it stores `kStopped`.
      have hclaimed := mt hwf.claimed.mp hbusy
      rw [hstop]
      cases hst : s.ctl.state with
      | stopping => exact .inr rfl
      | stopped => exact .inl rfl
      | created | starting | running | draining | failed =>
        rw [hst] at hclaimed
        exact absurd rfl hclaimed
  · obtain ⟨hstate, hstarter⟩ := (managerStep_move hc).follows
    exact ⟨hstate, fun hret => .inl (by rw [← hstarter]; exact hret)⟩

/-- Only a step of `start` moves the winner of `start`. -/
theorem start_of_starter_ne (hs : step s a = some s')
    (hne : s'.ctl.starter ≠ s.ctl.starter) : (∃ ctx, a = .callStart ctx) ∨ ∃ f, a = .start f := by
  cases move_of_step hs with
  | callStart ctx => exact .inl ⟨ctx, rfl⟩
  | start f c hc => exact .inr ⟨f, rfl⟩
  | background | waiters | claimStop | cancel | callAdd => exact absurd rfl hne
  | stop s' hs => exact absurd (stopStep_starter hs).2 hne
  | manager n hw f s' hs => exact absurd (managerStep_move hs).follows.2 hne
  | executor e x s' hx hm | cancelled e x s' hx hc hm | add i c f g w s' hc hm
  | watch k alive w s' hm => exact absurd (congrArg starter hm.ctl) hne
  | spurious e s' hn => exact absurd (congrArg starter hn.ctl) hne

/-- **The start/stop state machine.**  In every reachable state of a pool,
    every step leaves the state word alone or moves it along an edge;
    a pool that is stopped stays stopped along every run;
    a call of `start` that finds the pool out of `kCreated` changes nothing;
    `start` returns only in the step by which it moves the state from `kStarting` to
    `kRunning`;
    and a `start` parked on the unset `readyEvent_` has a manager that has not finished, and
    no `stop` that is past its signal. -/
theorem start_stop_stateMachine {s : State Q R} (h : (system Q).Reachable s) :
    (∀ a s', step s a = some s' →
      s'.ctl.state = s.ctl.state ∨ s.ctl.state.canMove s'.ctl.state = true) ∧
    (s.ctl.state = .stopped →
      ∀ t, (system Q).Steps (fun _ _ => True) s t → t.ctl.state = .stopped) ∧
    (∀ ctx s', step s (.callStart ctx) = some s' → s.ctl.state ≠ .created → s' = s) ∧
    (∀ a s', step s a = some s' → s'.ctl.starter = .returned → s.ctl.starter ≠ .returned →
      (∃ f, a = .start f) ∧ s.ctl.state = .starting ∧ s'.ctl.state = .running) ∧
    (s.ctl.starter = .awaitReady → s.ctl.readyEvent = false →
      s.ctl.manager ≠ .finished ∧ s.ctl.stopper.signalled = false) := by
  have hwf := reachable_wellFormed h
  refine ⟨fun a s' hs => (step_follows hwf hs).1, ?_, ?_, ?_, ?_⟩
  · intro hst t ht
    have hstay : t.ctl.state = .stopped ∧ t.ctl.WellFormed := by
      refine ht.preserves (I := fun t => t.ctl.state = .stopped ∧ t.ctl.WellFormed) ?_ ⟨hst, hwf⟩
      rintro u a u' ⟨hu, huwf⟩ - hs
      refine ⟨?_, step_wellFormed huwf hs⟩
      rcases (step_follows huwf hs).1 with hkeep | hmove
      · exact hkeep.trans hu
      · simp [hu, PoolState.not_canMove_stopped] at hmove
    exact hstay.1
  · intro ctx s' hs hst
    change some { s with ctl := s.ctl.callStart ctx } = _ at hs
    rw [callStart, if_neg hst] at hs
    cases hs
    rfl
  · intro a s' hs hret hnot
    obtain ⟨hpc, hst, hrun⟩ := ((step_follows hwf hs).2 hret).resolve_left hnot
    refine ⟨?_, hst, hrun⟩
    have hne : s'.ctl.starter ≠ s.ctl.starter := fun heq => hnot (heq ▸ hret)
    rcases start_of_starter_ne hs hne with ⟨ctx, rfl⟩ | hstart
    · -- A call of `start` ends in front of its first step, if it wins at all.
      cases hs
      change (s.ctl.callStart ctx).state = .running at hrun
      rw [callStart, hst] at hrun
      exact absurd (hst.symm.trans hrun) nofun
    · exact hstart
  · intro hpc he
    have hsig := reachable_signals h
    refine ⟨fun hfin => ?_, ?_⟩
    · simp [hsig.finished hfin] at he
    · cases hstop : s.ctl.stopper.signalled with
      | false => rfl
      | true =>
        rcases hsig.signalled hstop with he' | hab
        · simp [he'] at he
        · rw [hpc] at hab
          cases hab

/-- `start` has published its fields and waits; `stop` has claimed the pool and is about to
    join the manager. -/
def stoppedWhileStarting (R : Type) : List (Action R) :=
  [.callStart {}] ++ List.replicate 4 (.start false) ++ [.callStop, .stop, .stop]

/-- The same schedule in both pools: the event is unset, so the signal is still to come. -/
theorem start_stop_stateMachine_raced :
    (∃ s : State TaskQueue Bool, (system TaskQueue).Reachable s ∧ s.ctl.starter = .awaitReady ∧
      s.ctl.readyEvent = false ∧ s.ctl.stopper = .signalReady ∧ s.ctl.manager ≠ .finished) ∧
    ∃ s : State PriorityQueue PriorityRequest, (system PriorityQueue).Reachable s ∧
      s.ctl.starter = .awaitReady ∧ s.ctl.readyEvent = false ∧ s.ctl.stopper = .signalReady ∧
      s.ctl.manager ≠ .finished := by
  refine ⟨?_, ?_⟩
  · obtain ⟨s, hs, hpc, he, hstop⟩ := (system TaskQueue).exists_reachable_of_run
      (stoppedWhileStarting Bool)
      (fun s => s.ctl.starter = .awaitReady ∧ s.ctl.readyEvent = false ∧
        s.ctl.stopper = .signalReady) (by decide +kernel)
    exact ⟨s, hs, hpc, he, hstop, ((start_stop_stateMachine hs).2.2.2.2 hpc he).1⟩
  · obtain ⟨s, hs, hpc, he, hstop⟩ := (system PriorityQueue).exists_reachable_of_run
      (stoppedWhileStarting PriorityRequest)
      (fun s => s.ctl.starter = .awaitReady ∧ s.ctl.readyEvent = false ∧
        s.ctl.stopper = .signalReady) (by decide +kernel)
    exact ⟨s, hs, hpc, he, hstop, ((start_stop_stateMachine hs).2.2.2.2 hpc he).1⟩

end ServiceLib.Pool
