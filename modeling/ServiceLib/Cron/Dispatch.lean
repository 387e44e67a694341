import ServiceLib.Lib.Transition

namespace ServiceLib.Cron

/-!
# Cron endpoint — dispatch and stop

`Endpoint::Impl` of `datasource/cron/libcron.cpp` from the point where a firing is handed to
`dispatch`: under the overlap policy `kSkip` a run takes the flag `running_` and gives it back
when it is over, every run is counted in `active_`, and `stop` closes the endpoint and waits
until the count is zero.

* Any number of firings, runs and calls of `stop` interleave.  The ticker fires one endpoint at a
  time, which is a special case.
* `configure` is called by the `start` of the data source, before the ticker runs and not while a
  `stop` is in progress.

Every atomic access is a step of its own; a critical section of `activeMutex` is one step unless
it also reads `stopping`, which is written without the mutex.  Metrics, the trigger and the
result waiter do not influence any of this and are left out.
-/

/-- `ScheduleOverlapPolicy`. -/
inductive OverlapPolicy
  | allow
  | skip
  deriving DecidableEq, Repr

/-! ### Program counters -/

/-- `dispatch`; `owns` is `ownsRunning`. -/
inductive DispatchPc
  | entered
  /-- Not stopping at first sight; about to take `running`. -/
  | claiming
  /-- About to lock `activeMutex`. -/
  | locking (owns : Bool)
  /-- Holds the mutex; about to read `stopping` again. -/
  | checking (owns : Bool)
  /-- Holds the mutex and found the endpoint stopping; about to give `running` back. -/
  | abandoning (owns : Bool)
  /-- Holds the mutex; about to increment `active`. -/
  | counting (owns : Bool)
  | spawning (owns : Bool)
  /-- The run could not be spawned; about to give `running` back. -/
  | failing (owns : Bool)
  | uncounting
  | notifying
  | returned
  | threw
  deriving DecidableEq, Repr

/-- The coroutine of a run. -/
inductive RunPc
  | spawned
  /-- In the pipeline. -/
  | output
  /-- The guard of `running` is destroyed next. -/
  | clearing
  | uncounting
  | notifying
  | finished
  deriving DecidableEq, Repr

structure Run where
  owns : Bool
  pc : RunPc
  deriving DecidableEq, Repr

/-- `Impl::stop` with `WaitForDrain`. -/
inductive StopPc
  /-- About to store `stopping`. -/
  | storing
  /-- About to look at the count for the first time. -/
  | firstCheck
  /-- About to subscribe to the context and spawn the notifier. -/
  | subscribing
  /-- About to lock and evaluate the condition of the wait. -/
  | waiting
  | parked
  /-- Joining the notifier; `completed` is whether the count was zero. -/
  | joining (completed : Bool)
  /-- In `tasks->CancelAndWait()`. -/
  | cancelling
  /-- About to clear `running`. -/
  | clearing
  | returned (completed : Bool)
  | threw
  deriving DecidableEq, Repr

/-! ### State -/

/-- An endpoint with every firing, run and call of `stop` so far. -/
structure Endpoint where
  overlapPolicy : OverlapPolicy
  running : Bool
  stopping : Bool
  active : Nat
  /-- `activeMutex`: the firing that holds it. -/
  mu : Option Nat
  /-- Whether there is a storage for the coroutines of runs. -/
  tasks : Bool
  /-- Whether the endpoint was configured and no `stop` has returned `true` since. -/
  configured : Bool
  firings : List DispatchPc
  runs : List Run
  stops : List StopPc
  deriving DecidableEq, Repr

namespace Endpoint

def init : Endpoint where
  overlapPolicy := .skip
  running := false
  stopping := true
  active := 0
  mu := none
  tasks := false
  configured := false
  firings := []
  runs := []
  stops := []

/-- What `NotifyAll` does to one `stop`. -/
def wakeStop : StopPc → StopPc
  | .parked => .waiting
  | pc => pc

/-- `drained.NotifyAll()`. -/
def notifyAll (s : Endpoint) : Endpoint := { s with stops := s.stops.map wakeStop }

def setFiring (s : Endpoint) (d : Nat) (pc : DispatchPc) : Endpoint :=
  { s with firings := s.firings.set d pc }

def setRun (s : Endpoint) (r : Nat) (x : Run) : Endpoint := { s with runs := s.runs.set r x }

def setStop (s : Endpoint) (j : Nat) (pc : StopPc) : Endpoint :=
  { s with stops := s.stops.set j pc }

/-! ### Steps -/

/-- How a step that depends on others turns out. -/
inductive Outcome
  | go
  /-- A firing is dropped: its owner is cancelled, or it was missed and is skipped. -/
  | drop
  /-- A coroutine cannot be spawned, or an allocation fails. -/
  | fail
  /-- The context of a `stop` is cancelled or expired. -/
  | expire
  deriving DecidableEq, Repr

/-- One step of `dispatch`. -/
def dispatchStep (s : Endpoint) (d : Nat) (o : Outcome) : Option Endpoint :=
  match s.firings[d]? with
  | none => none
  | some .entered =>
    if o = .drop ∨ s.stopping then some (s.setFiring d .returned)
    else some (s.setFiring d .claiming)
  | some .claiming =>
    match s.overlapPolicy with
    | .allow => some (s.setFiring d (.locking false))
    | .skip =>
      if s.running then some (s.setFiring d .returned)
      else some { s.setFiring d (.locking true) with running := true }
  | some (.locking owns) =>
    if s.mu ≠ none then none
    else some { s.setFiring d (.checking owns) with mu := some d }
  | some (.checking owns) =>
    some (s.setFiring d (if s.stopping then .abandoning owns else .counting owns))
  | some (.abandoning owns) =>
    some { s.setFiring d .returned with
      running := if owns then false else s.running, mu := none }
  | some (.counting owns) =>
    some { s.setFiring d (.spawning owns) with active := s.active + 1, mu := none }
  | some (.spawning owns) =>
    if o = .fail then some (s.setFiring d (.failing owns))
    else if s.tasks then
      some { s.setFiring d .returned with runs := s.runs ++ [⟨owns, .spawned⟩] }
    else none
  | some (.failing owns) =>
    some { s.setFiring d .uncounting with running := if owns then false else s.running }
  | some .uncounting =>
    if s.mu ≠ none then none
    else some { s.setFiring d .notifying with active := s.active - 1 }
  | some .notifying => some (s.notifyAll.setFiring d .threw)
  | some .returned | some .threw => none

/-- One step of a run.  It may throw before it reaches the pipeline. -/
def runStep (s : Endpoint) (r : Nat) (o : Outcome) : Option Endpoint :=
  match s.runs[r]? with
  | none => none
  | some ⟨owns, .spawned⟩ =>
    some (s.setRun r ⟨owns, if o = .fail then .clearing else .output⟩)
  | some ⟨owns, .output⟩ => some (s.setRun r ⟨owns, .clearing⟩)
  | some ⟨owns, .clearing⟩ =>
    some { s.setRun r ⟨owns, .uncounting⟩ with running := if owns then false else s.running }
  | some ⟨owns, .uncounting⟩ =>
    if s.mu ≠ none then none
    else some { s.setRun r ⟨owns, .notifying⟩ with active := s.active - 1 }
  | some ⟨owns, .notifying⟩ => some (s.notifyAll.setRun r ⟨owns, .finished⟩)
  | some ⟨_, .finished⟩ => none

/-- One step of a `stop`. -/
def stopStep (s : Endpoint) (j : Nat) (o : Outcome) : Option Endpoint :=
  match s.stops[j]? with
  | none => none
  | some .storing => some { s.setStop j .firstCheck with stopping := true }
  | some .firstCheck =>
    if s.mu ≠ none then none
    else if s.active = 0 then some (s.setStop j .cancelling)
    else if o = .expire then some (s.setStop j (.returned false))
    else some (s.setStop j .subscribing)
  | some .subscribing => some (s.setStop j (if o = .fail then .threw else .waiting))
  | some .waiting =>
    if s.mu ≠ none then none
    else if s.active = 0 ∨ o = .expire then some (s.setStop j (.joining (s.active == 0)))
    else some (s.setStop j .parked)
  | some .parked => some (s.setStop j .waiting)
  | some (.joining completed) =>
    some (s.setStop j (if completed then .cancelling else .returned false))
  | some .cancelling =>
    if s.tasks ∧ s.runs.any (·.pc ≠ .finished) then none
    else some { s.setStop j .clearing with tasks := false }
  | some .clearing =>
    some { s.setStop j (.returned true) with running := false, configured := false }
  | some (.returned _) | some .threw => none

end Endpoint

/-- A firing that is over. -/
def DispatchPc.over : DispatchPc → Bool
  | .returned | .threw => true
  | _ => false

/-- A `stop` that is over. -/
def StopPc.over : StopPc → Bool
  | .returned _ | .threw => true
  | _ => false

/-! ### The transition system -/

inductive Action
  /-- `configure`; without a policy the endpoint is disabled or its configuration invalid. -/
  | configure (policy : Option OverlapPolicy)
  | fire
  | dispatch (d : Nat) (o : Endpoint.Outcome)
  | run (r : Nat) (o : Endpoint.Outcome)
  | callStop
  | stop (j : Nat) (o : Endpoint.Outcome)
  deriving DecidableEq, Repr

/-- `configure`, which the `start` of a data source that is not started calls. -/
def Endpoint.configure (s : Endpoint) (policy : Option OverlapPolicy) : Option Endpoint :=
  if s.configured ∨ ¬ s.firings.all DispatchPc.over ∨ ¬ s.stops.all StopPc.over then none
  else
    match policy with
    | none => some { s with configured := true }
    | some policy =>
      some { s with overlapPolicy := policy, tasks := true, stopping := false, configured := true }

def step (s : Endpoint) : Action → Option Endpoint
  | .configure policy => s.configure policy
  | .fire => some { s with firings := s.firings ++ [.entered] }
  | .dispatch d o => s.dispatchStep d o
  | .run r o => s.runStep r o
  | .callStop => some { s with stops := s.stops ++ [.storing] }
  | .stop j o => s.stopStep j o

/-- An endpoint, from its construction on. -/
def system : System Endpoint Action where
  init := Endpoint.init
  step := step

end ServiceLib.Cron
