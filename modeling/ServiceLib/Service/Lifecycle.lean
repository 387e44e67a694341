import ServiceLib.Lib.Transition

namespace ServiceLib.Service

/-!
# Service lifecycle — state and steps

`ServiceLifecycle` owns the registered sources, sinks, pools, storages and components of a
service.  It starts them in one order and stops them in stages: root producers, then graph
executors, then sinks.

* `stopPhase` launches one coroutine for each entry that has to stop and waits for all of them;
  an operation that is not done when the caller's context ends stays with its entry and is
  picked up by a later call;
* `transition_` admits one call at a time to all this, so between two steps of a call only
  stop operations move;
* `Component` is what a registered object sees of it: the calls of its `start` and `stop`.

Names, log lines and the stop-timeout counters are left out, and so are failing allocations
while a list of entries is built.  A wait may end at any moment at which its condition is false:
the context of the caller is not modelled.
-/

/-- `ServiceComponentKind`. -/
inductive Kind
  | dataSource
  | dataSink
  | storage
  | delayPool
  | taskPool
  | priorityTaskPool
  | component
  deriving DecidableEq, Repr

/-- The stop phases of a lifecycle that was started. -/
inductive Stage
  | admission
  | executors
  | sinks
  deriving DecidableEq, Repr

/-- The kinds a stage stops, in the order in which it lists them. -/
def Stage.kinds : Stage → List Kind
  | .admission => [.dataSource, .component]
  | .executors => [.priorityTaskPool, .taskPool, .delayPool, .storage]
  | .sinks => [.dataSink]

/-- `kStartOrder`. -/
def startOrder : List Kind :=
  [.storage, .delayPool, .taskPool, .priorityTaskPool, .component, .dataSink, .dataSource]

/-- `ServiceLifecycle::State`. -/
inductive LifecycleState
  | created
  | starting
  | running
  | stopping
  | stopped
  deriving DecidableEq, Repr

/-- What a call throws. -/
inductive LifecycleError
  /-- "service lifecycle wait cancelled or expired", or the wait could not be set up. -/
  | gate
  /-- "service lifecycle is already started" -/
  | alreadyStarted
  /-- "service lifecycle transition is in progress" -/
  | inProgress
  /-- "service lifecycle graph drain phase has not started" -/
  | notDrained
  /-- What the `start` of an entry threw. -/
  | startFailed
  /-- "service shutdown operation cancelled or expired: ", for entry `i`. -/
  | stopExpired (i : Nat)
  /-- What the `stop` of entry `i` threw. -/
  | stopFailed (i : Nat)
  /-- A coroutine could not be spawned, or the wait for one could not be set up. -/
  | resource
  deriving DecidableEq, Repr

/-- What `add` throws. -/
inductive AddError
  /-- "registered service component is null" -/
  | null
  /-- "service components must be registered before start" -/
  | tooLate
  /-- "service component is already registered" -/
  | duplicate
  deriving DecidableEq, Repr

/-! ### State -/

/-- The coroutine of a `StopOperation`. -/
inductive OperationPc
  | spawned
  /-- In `stop(context)`. -/
  | running
  /-- `stop` returned or threw; about to publish that. -/
  | finished (failed : Bool)
  /-- `done` is set and `error` says whether `stop` threw. -/
  | done (failed : Bool)
  deriving DecidableEq, Repr

/-- A `StopOperation` of entry `entry`. -/
structure StopOperation where
  entry : Nat
  pc : OperationPc
  deriving DecidableEq, Repr

/-- A registered entry.  `stopping` is the position of its operation. -/
structure Entry where
  kind : Kind
  identity : Nat
  started : Bool
  stopping : Option Nat
  deriving DecidableEq, Repr

/-- What the component of an entry has seen. -/
structure Component where
  kind : Kind
  /-- Whether `start` was called. -/
  started : Bool
  /-- How often `stop` was called. -/
  stopCalls : Nat
  /-- How many of these calls are running. -/
  stopping : Nat
  /-- How many of them returned normally. -/
  stopped : Nat
  /-- Whether `stopPhase` saw one of them throw, or stopped waiting for one. -/
  unsettled : Bool
  deriving DecidableEq, Repr

/-- A call of `stop` begins. -/
def Component.enterStop (x : Component) : Component :=
  { x with stopCalls := x.stopCalls + 1, stopping := x.stopping + 1 }

/-- A call of `stop` returns, or throws. -/
def Component.leaveStop (failed : Bool) (x : Component) : Component :=
  { x with stopping := x.stopping - 1, stopped := x.stopped + (!failed).toNat }

/-- One `stopPhase`.  The rollback of a failed start runs one for each started entry; `rest`
    are the entries that follow. -/
inductive Phase
  | stage (g : Stage)
  | rollback (rest : List Nat)
  deriving DecidableEq, Repr

inductive Method
  | start
  | startGraph
  | stop
  | stopBeforeGraphDrain
  | stopAfterGraphDrain
  deriving DecidableEq, Repr

/-- What a call does after it has passed the gate. -/
inductive Critical
  | start
  | before
  | after
  deriving DecidableEq, Repr

inductive CallPc
  /-- In `transition_.acquire`. -/
  | atGate (c : Critical)
  /-- The entries that are still to be started. -/
  | starting (todo : List Nat)
  /-- The first loop of `stopPhase`, over `entries`. -/
  | launching (p : Phase) (entries todo : List Nat)
  /-- The second loop of `stopPhase`. -/
  | awaiting (p : Phase) (todo : List Nat) (failure : Option LifecycleError)
  | returned
  | threw (e : LifecycleError)
  deriving DecidableEq, Repr

/-- A call.  `owed` is history: the entries whose stop had thrown or timed out when the call
    took the gate, as far as it is the part of the call that stops them and has not waited for
    them. -/
structure Call where
  method : Method
  pc : CallPc
  owed : List Nat
  deriving DecidableEq, Repr

/-- A lifecycle.  The last two fields are history: what the components have seen, and whether a
    start has completed. -/
structure Lifecycle where
  /-- `entries_`, all kinds in the order of their registration. -/
  entries : List Entry
  /-- `started_`. -/
  started : List Nat
  /-- `transition_`. -/
  busy : Bool
  state : LifecycleState
  rollbackPending : Bool
  beforeGraphDrained : Bool
  operations : List StopOperation
  calls : List Call
  components : List Component
  ran : Bool
  deriving DecidableEq, Repr

namespace Lifecycle

/-- A freshly constructed lifecycle. -/
def init : Lifecycle where
  entries := []
  started := []
  busy := false
  state := .created
  rollbackPending := false
  beforeGraphDrained := false
  operations := []
  calls := []
  components := []
  ran := false

/-- `entries_[index(kind)]`. -/
def ofKind (s : Lifecycle) (kind : Kind) : List Nat :=
  (List.range s.entries.length).filter (fun i => s.entries[i]?.any (fun e => e.kind == kind))

/-- `appendReverse` for each kind of a stage. -/
def stageEntries (s : Lifecycle) (g : Stage) : List Nat :=
  g.kinds.flatMap (fun kind => (s.ofKind kind).reverse)

/-- The entries a start visits. -/
def startEntries (s : Lifecycle) (admission : Bool) : List Nat :=
  (startOrder.filter (fun kind => admission || kind != .dataSource)).flatMap s.ofKind

/-- The entries of a stage whose stop has thrown or timed out and that have not been seen to
    stop. -/
def owing (s : Lifecycle) (stages : List Stage) : List Nat :=
  (stages.flatMap s.stageEntries).filter (fun i =>
    s.entries[i]?.any (·.started) && s.components[i]?.any (·.unsettled))

/-! ### Registration -/

/-- `add`. -/
def add (s : Lifecycle) (kind : Kind) (component : Option Nat) : Except AddError Lifecycle :=
  match component with
  | none => .error .null
  | some identity =>
    if s.state ≠ .created then .error .tooLate
    else if s.entries.any (fun e => e.kind == kind && e.identity == identity) then
      .error .duplicate
    else .ok { s with
      entries := s.entries ++ [{ kind, identity, started := false, stopping := none }]
      components := s.components ++
        [{ kind, started := false, stopCalls := 0, stopping := 0, stopped := 0,
           unsettled := false }] }

/-! ### The gate -/

def setCall (s : Lifecycle) (t : Nat) (c : Call) (pc : CallPc) : Lifecycle :=
  { s with calls := s.calls.set t { c with pc := pc } }

/-- The end of a section: the `Lease` is destroyed. -/
def leave (s : Lifecycle) (t : Nat) (c : Call) (pc : CallPc) : Lifecycle :=
  { s.setCall t c pc with busy := false }

/-- `stopBeforeGraphDrain` returns; `stop` goes on to `stopAfterGraphDrain`. -/
def endBefore (s : Lifecycle) (t : Nat) (c : Call) : Lifecycle :=
  s.leave t c (if c.method = .stop then .atGate .after else .returned)

/-- An exception leaves the section.  A start rethrows what made it fail. -/
def fail (s : Lifecycle) (t : Nat) (c : Call) (e : LifecycleError) : Lifecycle :=
  s.leave t c (.threw (if c.method = .start ∨ c.method = .startGraph then .startFailed else e))

/-- `clear`. -/
def clear (s : Lifecycle) : Lifecycle := { s with started := [], entries := [] }

/-! ### Phases -/

/-- The loop of `stopStarted`, from the entries `todo` on. -/
def rollbackFrom (s : Lifecycle) (t : Nat) (c : Call) : List Nat → Lifecycle
  | i :: rest => s.setCall t c (.launching (.rollback rest) [i] [i])
  | [] =>
    let s' := { s with rollbackPending := false, state := .stopped }.clear
    if c.method = .start ∨ c.method = .startGraph then s'.leave t c (.threw .startFailed)
    else s'.endBefore t c

/-- `stopStarted`. -/
def stopStarted (s : Lifecycle) (t : Nat) (c : Call) : Lifecycle :=
  s.rollbackFrom t c s.started.reverse

/-- Begin the `stopPhase` of a stage. -/
def beginStage (s : Lifecycle) (t : Nat) (c : Call) (g : Stage) : Lifecycle :=
  s.setCall t c (.launching (.stage g) (s.stageEntries g) (s.stageEntries g))

/-- A `stopPhase` returned normally. -/
def endPhase (s : Lifecycle) (t : Nat) (c : Call) : Phase → Lifecycle
  | .stage .admission => s.beginStage t c .executors
  | .stage .executors => { s with beforeGraphDrained := true }.endBefore t c
  | .stage .sinks => { s with state := .stopped }.clear.leave t c .returned
  | .rollback rest => s.rollbackFrom t c rest

/-! ### Steps of a call -/

/-- How the step of a call that depends on others turns out. -/
inductive Outcome
  | ok
  /-- The wait ends because the context of the caller does. -/
  | expires
  /-- A coroutine cannot be spawned, an allocation fails, or the `start` of an entry throws. -/
  | throws
  deriving DecidableEq, Repr

/-- What a call does on passing the gate, up to its first loop. -/
def enter (s : Lifecycle) (t : Nat) (c : Call) : Critical → Lifecycle
  | .start =>
    if s.state ≠ .created then s.leave t c (.threw .alreadyStarted)
    else { s with busy := true, state := .starting }.setCall t c
      (.starting (s.startEntries (c.method == Method.start)))
  | .before =>
    if s.state = .created then { s with state := .stopped }.clear.endBefore t c
    else if s.state = .stopped then s.endBefore t c
    else if s.rollbackPending then { s with busy := true }.stopStarted t c
    else if s.beforeGraphDrained then s.endBefore t c
    else if s.state ≠ .running ∧ s.state ≠ .stopping then s.leave t c (.threw .inProgress)
    else { s with busy := true, state := .stopping }.beginStage t
      { c with owed := s.owing [.admission, .executors] } .admission
  | .after =>
    if s.state = .stopped then s.leave t c .returned
    else if s.state ≠ .stopping ∨ s.beforeGraphDrained = false then
      s.leave t c (.threw .notDrained)
    else { s with busy := true }.beginStage t { c with owed := s.owing [.sinks] } .sinks

/-- Entry `i` is marked as started and its `start` is called. -/
def markStarted (s : Lifecycle) (i : Nat) : Lifecycle :=
  { s with
    entries := s.entries.modify i (fun e => { e with started := true })
    started := s.started ++ [i]
    components := s.components.modify i (fun x => { x with started := true }) }

/-- One round of the loop of `startImpl`: the entry is marked, and its `start` is called. -/
def startStep (s : Lifecycle) (t : Nat) (c : Call) (todo : List Nat) (ok : Bool) : Lifecycle :=
  match todo with
  | [] => { s.leave t c .returned with state := .running, ran := true }
  | i :: todo =>
    if ok then (s.markStarted i).setCall t c (.starting todo)
    else { s.markStarted i with state := .stopping, rollbackPending := true }.stopStarted t c

/-- Spawn the stop operation of entry `i`. -/
def launch (s : Lifecycle) (i : Nat) : Lifecycle :=
  { s with
    operations := s.operations ++ [{ entry := i, pc := .spawned }]
    entries := s.entries.modify i (fun e => { e with stopping := some s.operations.length }) }

/-- One round of the first loop of `stopPhase`. -/
def launchStep (s : Lifecycle) (t : Nat) (c : Call) (p : Phase) (entries todo : List Nat)
    (ok : Bool) : Option Lifecycle :=
  match todo with
  | [] => some (s.setCall t c (.awaiting p entries none))
  | i :: todo =>
    match s.entries[i]? with
    | none => none
    | some e =>
      if e.started = false ∨ e.stopping.isSome then
        some (s.setCall t c (.launching p entries todo))
      else if ok then some ((s.launch i).setCall t c (.launching p entries todo))
      else some (s.fail t c .resource)

/-- Entry `i` was waited for. -/
def settle (c : Call) (i : Nat) : Call := { c with owed := c.owed.filter (· != i) }

/-- `entry->stopping.reset()`, and `entry->started = false` unless the stop threw. -/
def detach (s : Lifecycle) (i : Nat) (failed : Bool) : Lifecycle :=
  { s with entries :=
      s.entries.modify i (fun e => { e with stopping := none, started := e.started && failed }) }

/-- `stopPhase` saw that the stop of entry `i` threw, or gave up waiting for it. -/
def unsettle (s : Lifecycle) (i : Nat) : Lifecycle :=
  { s with components := s.components.modify i (fun x => { x with unsettled := true }) }

/-- One round of the second loop of `stopPhase`.  There is no step where the source would use an
    operation the entry does not have. -/
def awaitStep (s : Lifecycle) (t : Nat) (c : Call) (p : Phase) (todo : List Nat)
    (failure : Option LifecycleError) (o : Outcome) : Option Lifecycle :=
  match todo with
  | [] =>
    match failure with
    | some e => some (s.fail t c e)
    | none => some (s.endPhase t c p)
  | i :: todo =>
    match s.entries[i]? with
    | none => none
    | some e =>
      if e.started = false then some (s.setCall t c (.awaiting p todo failure))
      else
        match e.stopping.bind (fun k => s.operations[k]?) with
        | none => none
        | some operation =>
          match operation.pc, o with
          | .done false, .ok =>
            some ((s.detach i false).setCall t (settle c i) (.awaiting p todo failure))
          | .done true, .ok =>
            some (((s.detach i true).unsettle i).setCall t (settle c i)
              (.awaiting p todo (failure <|> some (.stopFailed i))))
          | .done _, _ => none
          | _, .ok => none
          | _, .expires =>
            some ((s.unsettle i).setCall t (settle c i)
              (.awaiting p todo (failure <|> some (.stopExpired i))))
          | _, .throws => some (s.fail t c .resource)

/-- One step of call `t`. -/
def callStep (s : Lifecycle) (t : Nat) (o : Outcome) : Option Lifecycle :=
  match s.calls[t]? with
  | none => none
  | some c =>
    match c.pc with
    | .atGate critical =>
      if o ≠ .ok then some (s.setCall t c (.threw .gate))
      else if s.busy then none
      else some (s.enter t c critical)
    | .starting todo => some (s.startStep t c todo (o == .ok))
    | .launching p entries todo => s.launchStep t c p entries todo (o == .ok)
    | .awaiting p todo failure => s.awaitStep t c p todo failure o
    | .returned | .threw _ => none

/-! ### Steps of a stop operation -/

/-- Operation `k` of entry `i` moves to `pc`, with the effect `f` on the component. -/
def moveOperation (s : Lifecycle) (k i : Nat) (pc : OperationPc) (f : Component → Component) :
    Lifecycle :=
  { s with
    operations := s.operations.set k { entry := i, pc := pc }
    components := s.components.modify i f }

/-- Operation `k` moves; `fails` is whether the `stop` of its entry throws. -/
def operationStep (s : Lifecycle) (k : Nat) (fails : Bool) : Option Lifecycle :=
  match s.operations[k]? with
  | none => none
  | some ⟨i, .spawned⟩ => some (s.moveOperation k i .running Component.enterStop)
  | some ⟨i, .running⟩ =>
    some (s.moveOperation k i (.finished fails) (Component.leaveStop fails))
  | some ⟨i, .finished failed⟩ => some (s.moveOperation k i (.done failed) id)
  | some ⟨_, .done _⟩ => none

end Lifecycle

/-! ### The transition system -/

/-- Where a method begins. -/
def Method.gate : Method → Critical
  | .start | .startGraph => .start
  | .stop | .stopBeforeGraphDrain => .before
  | .stopAfterGraphDrain => .after

inductive Action
  | add (kind : Kind) (component : Option Nat)
  | call (method : Method)
  | run (t : Nat) (o : Lifecycle.Outcome)
  | operation (k : Nat) (fails : Bool)
  deriving DecidableEq, Repr

/-- One step of a lifecycle. -/
def step (s : Lifecycle) : Action → Option Lifecycle
  | .add kind component => some ((s.add kind component).toOption.getD s)
  | .call method => some { s with calls := s.calls ++ [⟨method, .atGate method.gate, []⟩] }
  | .run t o => s.callStep t o
  | .operation k fails => s.operationStep k fails

/-- A lifecycle, from its construction on. -/
def system : System Lifecycle Action where
  init := Lifecycle.init
  step := step

end ServiceLib.Service
