import ServiceLib.Environment.State

namespace ServiceLib.Environment

/-!
# Execution environment — what one step can do

The inversion of the step functions, with guards and effects.  Steps of a drain that differ
only in where in its code it stands are one move.
-/

open State GateWord

/-! ### Where a thread stands -/

/-- Whether a parallel task is on the counter: scheduled or running. -/
def TaskPc.active : TaskPc → Bool
  | .spawning | .running | .retiring _ => true
  | _ => false

/-- Whether a parallel task is about to notify. -/
def TaskPc.notifies : TaskPc → Bool
  | .notifying _ => true
  | _ => false

/-- Whether the drain has set the closed bit and not returned. -/
def DrainPc.past : DrainPc → Bool
  | .entered | .closing | .returned _ | .threw => false
  | _ => true

/-- Whether the next step of the drain takes the mutex. -/
def DrainPc.locks : DrainPc → Bool
  | .locking | .woken | .timedOut | .relocking => true
  | _ => false

variable {pc : DrainPc} {s s' : State} {f : Bool}

theorem DrainPc.past_of_holds (h : pc.holds) : pc.past := by
  cases pc <;> first | rfl | cases h

theorem DrainPc.not_done_of_past (h : pc.past) : pc.done = false := by
  cases pc <;> first | rfl | cases h

theorem DrainPc.not_holds_of_locks (h : pc.locks) : pc.holds = false := by
  cases pc <;> first | rfl | cases h

/-! ### Input invocations -/

/-- The moves of input invocation `i`, which stands at `pc`. -/
@[grind intro] inductive InputMove (s : State) (i : Nat) (pc : InputPc) : State → Prop
  | load (hpc : pc.entering) :
      InputMove s i pc (s.setInput i (.loaded s.inputInvocations))
  | refuse (e : BeginError) (hpc : pc.entering) : InputMove s i pc (s.setInput i (.threw e))
  | enter (hpc : pc.entering) (hopen : isClosed s.inputInvocations = false)
      (hroom : count s.inputInvocations ≠ 2 ^ 63 - 1) :
      InputMove s i pc { s.setInput i .live with inputInvocations := s.inputInvocations + 1 }
  | release (hpc : pc = .live) (hmore : count s.inputInvocations ≠ 1) :
      InputMove s i pc { s.setInput i .finished with inputInvocations := s.inputInvocations - 1 }
  | releaseLast (hpc : pc = .live) (hlast : count s.inputInvocations = 1) :
      InputMove s i pc { s.setInput i .notifying with inputInvocations := s.inputInvocations - 1 }
  | notify (hpc : pc = .notifying) : InputMove s i pc (s.notifyAll.setInput i .finished)

/-- A step of an input is one of its moves. -/
theorem inputMove_of_inputStep {i : Nat} (h : s.inputStep i f = some s') :
    ∃ pc, s.inputs[i]? = some pc ∧ InputMove s i pc s' := by
  unfold inputStep at h
  split at h <;> grind [InputPc.entering]

/-! ### Parallel tasks -/

/-- The moves of parallel task `k`, which stands at `pc`. -/
@[grind intro] inductive TaskMove (s : State) (k : Nat) (pc : TaskPc) : State → Prop
  | enter (hpc : pc = .entered) (hmu : s.mu = none) (hopen : s.parallelAccepting) :
      TaskMove s k pc { s.setTask k .spawning with parallelActive := s.parallelActive + 1 }
  | refuse (hpc : pc = .entered) : TaskMove s k pc (s.setTask k .refused)
  | advance (pc' : TaskPc) (hpc : pc.active) (hpc' : pc'.active) :
      TaskMove s k pc (s.setTask k pc')
  | retire (failed : Bool) (hpc : pc.active) (hmu : s.mu = none)
      (hmore : s.parallelActive ≠ 1) :
      TaskMove s k pc { s.setTask k (ended failed) with
        parallelActive := s.parallelActive - 1 }
  | retireLast (failed : Bool) (hpc : pc.active) (hmu : s.mu = none)
      (hlast : s.parallelActive = 1) :
      TaskMove s k pc { s.setTask k (.notifying failed) with
        parallelActive := 0, mu := some (.task k) }
  | notify (failed : Bool) (hpc : pc = .notifying failed) :
      TaskMove s k pc { s.notifyAll.setTask k (ended failed) with mu := none }

/-- A step of a task is one of its moves. -/
theorem taskMove_of_taskStep {k : Nat} (h : s.taskStep k f = some s') :
    ∃ pc, s.tasks[k]? = some pc ∧ TaskMove s k pc s' := by
  unfold taskStep at h
  split at h <;> grind [TaskPc.active]

/-! ### Drains -/

/-- The moves of drain call `d`, whose record is `x`. -/
@[grind intro] inductive DrainMove (s : State) (d : Nat) (x : Drain) : State → Prop
  | absent (hpc : x.pc = .entered) (hnull : s.activeRuntime = false) :
      DrainMove s d x { s.setDrain d x (.returned true) with drained := true }
  | begin (hpc : x.pc = .entered) (hrun : s.activeRuntime) :
      DrainMove s d x (s.setDrain d x .closing)
  | close (hpc : x.pc = .closing) :
      DrainMove s d x { s.setDrain d x .locking with
        inputInvocations := s.inputInvocations ||| closedBit 63 }
  | lock (pc' : DrainPc) (hpc : x.pc.locks) (hmu : s.mu = none)
      (hpc' : pc'.holds) (hreg : pc' ≠ .registering) :
      DrainMove s d x { s.setDrain d x pc' with mu := some (.drain d) }
  /-- Goes on inside the section. -/
  | within (x' : Drain) (pc' : DrainPc) (hpc : x.pc.holds) (hpc' : pc'.holds)
      (hreg : pc' ≠ .registering) : DrainMove s d x (s.setDrain d x' pc')
  | wait (hpc : x.pc = .waitCheck) (hbusy : s.ready = false) :
      DrainMove s d x (s.setDrain d x .registering)
  | register (hpc : x.pc = .registering) :
      DrainMove s d x { s.setDrain d x .parked with mu := none }
  | unlock (hpc : x.pc.holds) : DrainMove s d x { s.setDrain d x .joining with mu := none }
  | join (hpc : x.pc = .joining) :
      DrainMove s d x (s.setDrain d { x with armed := false } .relocking)
  | fail (hpc : x.pc.holds) : DrainMove s d x { s.setDrain d x .threw with mu := none }
  | finish (r : Bool) (hpc : x.pc.holds) (hr : r → s.ready) :
      DrainMove s d x (s.finishDrain d x r)

/-- A step of a drain is one of its moves. -/
theorem drainMove_of_drainStep {d : Nat} (h : s.drainStep d f = some s') :
    ∃ x, s.drains[d]? = some x ∧ DrainMove s d x s' := by
  unfold drainStep at h
  split at h
  case h_1 => cases h
  case h_2 x hd =>
    refine ⟨x, hd, ?_⟩
    split at h <;> grind [DrainPc.locks, DrainPc.holds]

/-! ### All moves -/

/-- What one step of the environment can do. -/
@[grind intro] inductive Move (s : State) : Action → State → Prop
  | world (a : Action) (w : World) : Move s a { s with world := w }
  | callBegin : Move s .callBegin { s with inputs := s.inputs ++ [.entered] }
  | input (i : Nat) (f : Bool) (pc : InputPc) (hi : s.inputs[i]? = some pc) (s' : State)
      (m : InputMove s i pc s') : Move s (.input i f) s'
  | callParallel : Move s .callParallel { s with tasks := s.tasks ++ [.entered] }
  | task (k : Nat) (f : Bool) (pc : TaskPc) (hk : s.tasks[k]? = some pc) (s' : State)
      (m : TaskMove s k pc s') : Move s (.task k f) s'
  | callDrain (ctx : Context) :
      Move s (.callDrain ctx) { s with drains := s.drains ++ [{ ctx, pc := .entered }] }
  | drain (d : Nat) (f : Bool) (x : Drain) (hd : s.drains[d]? = some x) (s' : State)
      (m : DrainMove s d x s') : Move s (.drain d f) s'
  | wake (d : Nat) (f : Bool) (x : Drain) (pc' : DrainPc) (hd : s.drains[d]? = some x)
      (hpc : x.pc = .parked) (hpc' : pc'.locks) :
      Move s (.wake d f) (s.setDrain d x pc')
  | notifier (d : Nat) (x : Drain) (hd : s.drains[d]? = some x) (hmu : s.mu = none) :
      Move s (.notifier d)
        { s with drains := (s.drains.set d { x with armed := false }).map wakeDrain }
  | callStart (hidle : s.starter = .idle) (hnull : s.activeRuntime = false) :
      Move s .callStart { s with starter := .resetting, started := false, drained := false }
  | alreadyStarted (hrun : s.activeRuntime) : Move s .callStart s
  | reset (o : StartOutcome) (hpc : s.starter = .resetting) :
      Move s (.start o) { s with inputInvocations := 0, starter := .locking }
  | notDrained (o : StartOutcome) (hpc : s.starter = .locking) :
      Move s (.start o) { s with starter := .idle }
  | accept (o : StartOutcome) (hpc : s.starter = .locking) (hmu : s.mu = none)
      (hzero : s.parallelActive = 0) :
      Move s (.start o) { s with parallelAccepting := true, starter := .initialising }
  | initialised (o : StartOutcome) (hpc : s.starter = .initialising) :
      Move s (.start o) { s with activeRuntime := true, started := true, starter := .idle }
  | topologyThrew (o : StartOutcome) (hpc : s.starter = .initialising) :
      Move s (.start o) { s with starter := .idle }
  | initThrew (o : StartOutcome) (hpc : s.starter = .initialising) :
      Move s (.start o) { s with starter := .failing }
  | startFailed (o : StartOutcome) (hpc : s.starter = .failing) (hmu : s.mu = none) :
      Move s (.start o) { s with parallelAccepting := false, starter := .idle }
  | release : Move s .release { s with activeRuntime := false }

/-- A step of `start` is one of the moves. -/
theorem move_of_startStep {o : StartOutcome} (h : s.startStep o = some s') :
    Move s (.start o) s' := by
  unfold startStep at h
  split at h
  case h_4 hpc => cases o <;> grind
  all_goals grind

/-- **Every step is one of these moves.** -/
theorem move_of_step {a : Action} (hs : step s a = some s') : Move s a s' := by
  cases a with
  | tick now =>
    simp only [step] at hs
    split at hs
    · cases hs; exact .world _ _
    · cases hs
  | fire τ => cases hs; exact .world _ _
  | input i f =>
    obtain ⟨pc, hi, m⟩ := inputMove_of_inputStep hs
    exact .input i f pc hi s' m
  | task k f =>
    obtain ⟨pc, hk, m⟩ := taskMove_of_taskStep hs
    exact .task k f pc hk s' m
  | drain d f =>
    obtain ⟨x, hd, m⟩ := drainMove_of_drainStep hs
    exact .drain d f x hd s' m
  | start o => exact move_of_startStep hs
  | wake d f => grind [step, wakeStep, DrainPc.locks]
  | notifier d => grind [step, notifierStep]
  | callStart => grind [step, callStart]
  | callBegin | callParallel | callDrain | release => grind [step]

end ServiceLib.Environment
