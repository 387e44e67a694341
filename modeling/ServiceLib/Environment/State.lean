import ServiceLib.Lib.GateWord
import ServiceLib.Lib.Transition
import ServiceLib.Runtime.Context

namespace ServiceLib.Environment

/-!
# Execution environment — state and steps

`StreamExecutionEnvironment` admits input invocations and parallel graph tasks, and
`drainExecutionRuntime` closes both gates and waits for what is inside.  The two gates are
synchronised differently:

* input invocations share one atomic word, a counter with a closed bit (`Lib.GateWord`);
* parallel tasks share a counter and a flag that `parallelMutex_` protects.

One condition variable, `parallelDrained_`, tells a waiting drain about both.  Each atomic
access, each section under the mutex, and the two halves of a wait (evaluating the predicate;
registering as a waiter and unlocking) are separate steps.
-/

open GateWord

/-- `inputInvocations_`, a 64-bit word. -/
abbrev InvocationWord := BitVec (63 + 1)

/-- What `beginInputInvocation` throws. -/
inductive BeginError
  /-- "stream execution runtime is stopping" -/
  | stopping
  /-- "too many active stream input invocations" -/
  | tooMany
  deriving DecidableEq, Repr

/-! ### Program counters -/

/-- An input invocation, from `beginInputInvocation` to the end of
    `finishInputInvocation`. -/
inductive InputPc
  | entered
  /-- The value the compare-exchange will expect. -/
  | loaded (state : InvocationWord)
  /-- Holds an `InputInvocation`; next it is released. -/
  | live
  /-- Took the counter to zero; about to `NotifyAll`. -/
  | notifying
  | finished
  | threw (e : BeginError)
  deriving DecidableEq, Repr

/-- A `parallel` call and the coroutine it spawns. -/
inductive TaskPc
  | entered
  /-- Counted; about to spawn the coroutine. -/
  | spawning
  | running
  /-- About to lock and take itself off the counter; `failed` is whether the spawn failed. -/
  | retiring (failed : Bool)
  /-- Took the counter to zero; holds the mutex and is about to `NotifyAll`. -/
  | notifying (failed : Bool)
  | finished
  /-- "parallel graph scheduler is stopped" -/
  | refused
  /-- The exception of the failed spawn. -/
  | threw
  deriving DecidableEq, Repr

/-- `drainExecutionRuntime` with `WaitWithContext` inlined. -/
inductive DrainPc
  | entered
  /-- About to set the closed bit. -/
  | closing
  | locking
  /-- `if (ready()) return true`. -/
  | firstCheck
  /-- `if (context.cancelled()) return false`. -/
  | cancelCheck
  | subscribing
  /-- Evaluates `finished` before each wait. -/
  | waitCheck
  /-- Found `finished` false; about to register as a waiter and unlock. -/
  | registering
  | parked
  /-- Was woken; about to lock again. -/
  | woken
  /-- The wait ended at the deadline; about to lock again. -/
  | timedOut
  /-- The wait is over; about to unlock and join the notifier, if there is one. -/
  | leaving
  | joining
  | relocking
  /-- `return ready()`. -/
  | lastCheck
  | returned (drained : Bool)
  /-- A subscription or the notifier could not be created. -/
  | threw
  deriving DecidableEq, Repr

/-- Whether the call holds `parallelMutex_`. -/
def DrainPc.holds : DrainPc → Bool
  | .firstCheck | .cancelCheck | .subscribing | .waitCheck | .registering | .leaving
  | .lastCheck => true
  | _ => false

/-- Whether the call is over. -/
def DrainPc.done : DrainPc → Bool
  | .returned _ | .threw => true
  | _ => false

structure Drain where
  ctx : Context
  pc : DrainPc
  /-- Whether the notifier task of this wait has yet to notify. -/
  armed : Bool := false
  deriving DecidableEq, Repr

/-- `startExecutionRuntime`. -/
inductive StartPc
  | idle
  /-- About to store 0 into the invocation word. -/
  | resetting
  | locking
  /-- Builds the topology and runs `runtimeInit`. -/
  | initialising
  /-- `runtimeInit` threw; about to lock and refuse parallel tasks again. -/
  | failing
  deriving DecidableEq, Repr

/-- How the part of a start after the gates were opened ends. -/
inductive StartOutcome
  | started
  /-- `buildTopology` or `verifyTopology` throws, outside the `try`. -/
  | topologyThrows
  | initThrows
  deriving DecidableEq, Repr

/-- Who holds `parallelMutex_` across steps. -/
inductive Holder
  | drain (d : Nat)
  | task (k : Nat)
  deriving DecidableEq, Repr

/-! ### Shared state -/

/-- An environment.  The last two fields are history: whether the last start returned, and
    whether a drain returned true since the last start. -/
structure State where
  world : World
  inputInvocations : InvocationWord
  /-- `parallelActive_`; its 64 bits are not exhausted by tasks that exist in memory. -/
  parallelActive : Nat
  parallelAccepting : Bool
  activeRuntime : Bool
  mu : Option Holder
  inputs : List InputPc
  tasks : List TaskPc
  drains : List Drain
  starter : StartPc
  started : Bool
  drained : Bool
  deriving DecidableEq, Repr

/-- A freshly constructed environment. -/
def State.init : State where
  world := ⟨0, []⟩
  inputInvocations := 0
  parallelActive := 0
  parallelAccepting := false
  activeRuntime := false
  mu := none
  inputs := []
  tasks := []
  drains := []
  starter := .idle
  started := false
  drained := true

namespace State

/-- The predicate of a drain: no input invocation and no parallel task. -/
def ready (s : State) : Bool :=
  count s.inputInvocations == 0 && s.parallelActive == 0

def setInput (s : State) (i : Nat) (pc : InputPc) : State :=
  { s with inputs := s.inputs.set i pc }

def setTask (s : State) (k : Nat) (pc : TaskPc) : State :=
  { s with tasks := s.tasks.set k pc }

def setDrain (s : State) (d : Nat) (x : Drain) (pc : DrainPc) : State :=
  { s with drains := s.drains.set d { x with pc := pc } }

/-- What `NotifyAll` does to one drain. -/
def wakeDrain (x : Drain) : Drain := if x.pc = .parked then { x with pc := .woken } else x

/-- `parallelDrained_.NotifyAll()`. -/
def notifyAll (s : State) : State := { s with drains := s.drains.map wakeDrain }

/-! ### Input invocations -/

/-- One step of an input invocation.  `spurious` is whether a weak compare-exchange fails
    although the word has the expected value. -/
def inputStep (s : State) (i : Nat) (spurious : Bool) : Option State :=
  match s.inputs[i]? with
  | none => none
  | some .entered => some (s.setInput i (.loaded s.inputInvocations))
  | some (.loaded state) =>
    if isClosed state then some (s.setInput i (.threw .stopping))
    else if count state = 2 ^ 63 - 1 then some (s.setInput i (.threw .tooMany))
    else if s.inputInvocations = state ∧ spurious = false then
      some { s.setInput i .live with inputInvocations := state + 1 }
    else some (s.setInput i (.loaded s.inputInvocations))
  | some .live =>
    -- `finishInputInvocation` compares the counter before the subtraction with one.
    some { s.setInput i
        (if count s.inputInvocations = 1 then .notifying else .finished) with
      inputInvocations := s.inputInvocations - 1 }
  | some .notifying => some (s.notifyAll.setInput i .finished)
  | some .finished | some (.threw _) => none

/-! ### Parallel tasks -/

/-- Where a `parallel` call or its coroutine ends. -/
def ended (failed : Bool) : TaskPc := if failed then .threw else .finished

/-- One step of a parallel task.  `fails` is whether the spawn throws. -/
def taskStep (s : State) (k : Nat) (fails : Bool) : Option State :=
  match s.tasks[k]? with
  | none => none
  | some .entered =>
    if s.mu ≠ none then none
    else if s.parallelAccepting then
      some { s.setTask k .spawning with parallelActive := s.parallelActive + 1 }
    else some (s.setTask k .refused)
  | some .spawning => some (s.setTask k (if fails then .retiring true else .running))
  | some .running => some (s.setTask k (.retiring false))
  | some (.retiring failed) =>
    if s.mu ≠ none then none
    else if s.parallelActive = 1 then
      some { s.setTask k (.notifying failed) with parallelActive := 0, mu := some (.task k) }
    else some { s.setTask k (ended failed) with parallelActive := s.parallelActive - 1 }
  | some (.notifying failed) =>
    some { s.notifyAll.setTask k (ended failed) with mu := none }
  | some .finished | some .refused | some .threw => none

/-! ### Draining -/

/-- Return from `drainExecutionRuntime` with the mutex held: a drain that found the
    environment empty closes the parallel gate. -/
def finishDrain (s : State) (d : Nat) (x : Drain) (drained : Bool) : State :=
  { s.setDrain d x (.returned drained) with
    parallelAccepting := s.parallelAccepting && !drained
    mu := none
    drained := s.drained || drained }

/-- One step of a drain call.  `fails` is whether `WaitWithContext` cannot allocate. -/
def drainStep (s : State) (d : Nat) (fails : Bool) : Option State :=
  match s.drains[d]? with
  | none => none
  | some x =>
    match x.pc with
    | .entered =>
      if s.activeRuntime then some (s.setDrain d x .closing)
      else some { s.setDrain d x (.returned true) with drained := true }
    | .closing =>
      some { s.setDrain d x .locking with
        inputInvocations := s.inputInvocations ||| closedBit 63 }
    | .locking =>
      if s.mu ≠ none then none
      else some { s.setDrain d x .firstCheck with mu := some (.drain d) }
    | .firstCheck =>
      if s.ready then some (s.finishDrain d x true) else some (s.setDrain d x .cancelCheck)
    | .cancelCheck =>
      if x.ctx.cancelled s.world then some (s.finishDrain d x false)
      else some (s.setDrain d x .subscribing)
    | .subscribing =>
      if fails then some { s.setDrain d x .threw with mu := none }
      else some (s.setDrain d { x with armed := !x.ctx.tokens.isEmpty } .waitCheck)
    | .waitCheck =>
      if s.ready || x.ctx.cancelled s.world then some (s.setDrain d x .leaving)
      else some (s.setDrain d x .registering)
    | .registering => some { s.setDrain d x .parked with mu := none }
    | .parked => none
    | .woken =>
      if s.mu ≠ none then none
      else some { s.setDrain d x .waitCheck with mu := some (.drain d) }
    | .timedOut =>
      if s.mu ≠ none then none
      else some { s.setDrain d x .leaving with mu := some (.drain d) }
    | .leaving =>
      if x.ctx.tokens.isEmpty then some (s.setDrain d x .lastCheck)
      else some { s.setDrain d x .joining with mu := none }
    | .joining => some (s.setDrain d { x with armed := false } .relocking)
    | .relocking =>
      if s.mu ≠ none then none
      else some { s.setDrain d x .lastCheck with mu := some (.drain d) }
    | .lastCheck => some (s.finishDrain d x s.ready)
    | .returned _ | .threw => none

/-- A parked drain wakes by itself: at its deadline, or without a reason. -/
def wakeStep (s : State) (d : Nat) (timeout : Bool) : Option State :=
  match s.drains[d]? with
  | none => none
  | some x =>
    if x.pc ≠ .parked then none
    else if timeout then
      if x.ctx.expired s.world then some (s.setDrain d x .timedOut) else none
    else some (s.setDrain d x .woken)

/-- The notifier task of drain `d` saw a stop token fire: it locks and notifies. -/
def notifierStep (s : State) (d : Nat) : Option State :=
  match s.drains[d]? with
  | none => none
  | some x =>
    if x.armed ∧ s.mu = none ∧ x.ctx.tokens.any s.world.stopRequested then
      some { s with drains := (s.drains.set d { x with armed := false }).map wakeDrain }
    else none

/-! ### Starting and releasing -/

/-- `startExecutionRuntime` up to its first check. -/
def callStart (s : State) : Option State :=
  if s.starter ≠ .idle then none
  -- "stream execution runtime is already started"
  else if s.activeRuntime then some s
  else some { s with starter := .resetting, started := false, drained := false }

/-- One step of a start. -/
def startStep (s : State) (outcome : StartOutcome) : Option State :=
  match s.starter with
  | .idle => none
  | .resetting => some { s with inputInvocations := 0, starter := .locking }
  | .locking =>
    if s.mu ≠ none then none
    -- "parallel graph operations were not drained"
    else if s.parallelActive ≠ 0 then some { s with starter := .idle }
    else some { s with parallelAccepting := true, starter := .initialising }
  | .initialising =>
    match outcome with
    | .started => some { s with activeRuntime := true, started := true, starter := .idle }
    | .topologyThrows => some { s with starter := .idle }
    | .initThrows => some { s with starter := .failing }
  | .failing =>
    if s.mu ≠ none then none
    else some { s with parallelAccepting := false, starter := .idle }

end State

/-! ### The transition system -/

/-- Who moves next, and what is decided for that step. -/
inductive Action
  | tick (now : Time)
  | fire (τ : TokenId)
  | callBegin
  | input (i : Nat) (spurious : Bool)
  | callParallel
  | task (k : Nat) (fails : Bool)
  | callDrain (ctx : Context)
  | drain (d : Nat) (fails : Bool)
  | wake (d : Nat) (timeout : Bool)
  | notifier (d : Nat)
  | callStart
  | start (outcome : StartOutcome)
  /-- `releaseExecutionRuntime`. -/
  | release
  deriving DecidableEq, Repr

/-- One step of the environment. -/
def step (s : State) : Action → Option State
  | .tick now => if s.world.now ≤ now then some { s with world.now := now } else none
  | .fire τ => some { s with world.fired := τ :: s.world.fired }
  | .callBegin => some { s with inputs := s.inputs ++ [.entered] }
  | .input i spurious => s.inputStep i spurious
  | .callParallel => some { s with tasks := s.tasks ++ [.entered] }
  | .task k fails => s.taskStep k fails
  | .callDrain ctx => some { s with drains := s.drains ++ [{ ctx, pc := .entered }] }
  | .drain d fails => s.drainStep d fails
  | .wake d timeout => s.wakeStep d timeout
  | .notifier d => s.notifierStep d
  | .callStart => s.callStart
  | .start outcome => s.startStep outcome
  | .release => some { s with activeRuntime := false }

/-- The environment, from its construction on. -/
def system : System State Action where
  init := State.init
  step := step

/-! ### How the environment is used -/

/-- Whether an input invocation is still in `beginInputInvocation`. -/
def InputPc.entering : InputPc → Bool
  | .entered | .loaded _ => true
  | _ => false

/-- Invocations and parallel tasks begin only after a start that returned.  The runtime is
    released, and a start is repeated, only after a drain that returned true. -/
def Lifecycle (s : State) : Action → Prop
  | .callBegin | .callParallel => s.started
  | .callStart | .release => s.drained
  | _ => True

instance (s : State) : (a : Action) → Decidable (Lifecycle s a)
  | .callBegin | .callParallel => inferInstanceAs (Decidable (s.started))
  | .callStart | .release => inferInstanceAs (Decidable (s.drained))
  | .tick _ | .fire _ | .input _ _ | .task _ _ | .callDrain _ | .drain _ _ | .wake _ _
  | .notifier _ | .start _ => inferInstanceAs (Decidable True)

/-- A start does not overlap another call: it is made when every `beginInputInvocation`,
    `parallel` and drain call has returned, and no drain is called until it has returned. -/
def StartAlone (s : State) : Action → Prop
  | .callStart => (∀ x ∈ s.drains, x.pc.done) ∧ (∀ x ∈ s.inputs, x.entering = false) ∧
      ∀ x ∈ s.tasks, x ≠ .entered
  | .callDrain _ => s.starter = .idle
  | _ => True

instance (s : State) : (a : Action) → Decidable (StartAlone s a)
  | .callStart => inferInstanceAs (Decidable (_ ∧ _ ∧ _))
  | .callDrain _ => inferInstanceAs (Decidable (s.starter = .idle))
  | .tick _ | .fire _ | .callBegin | .input _ _ | .callParallel | .task _ _ | .drain _ _
  | .wake _ _ | .notifier _ | .start _ | .release => inferInstanceAs (Decidable True)

/-- Both conditions together. -/
def Serialised (s : State) (a : Action) : Prop := Lifecycle s a ∧ StartAlone s a

instance (s : State) (a : Action) : Decidable (Serialised s a) :=
  inferInstanceAs (Decidable (_ ∧ _))

end ServiceLib.Environment
