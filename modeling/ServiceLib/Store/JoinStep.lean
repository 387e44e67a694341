import ServiceLib.Lib.Transition
import ServiceLib.Store.JoinState

namespace ServiceLib.Join

/-!
# Join storage — steps

One step function for each kind of thread.  A section under `mu_` is one step.  Sections under
an item's lock are split where another thread can act in between: at `mu_`, at the atomics the
stop callback reads and writes, where `cancelCallback.reset()` may have to wait for a running
callback, and where user code runs.

The outcome of a step says what its environment does: whether what it allocates or starts can
be had, and what a callback answers and leaves in the values it is handed.
-/

/-- What the environment contributes to a step. -/
inductive Outcome (V : Type)
  /-- Nothing fails. -/
  | go
  /-- What the step allocates or starts first cannot be had. -/
  | fail
  /-- Appending fails after the values were resized. -/
  | failLate
  /-- A callback returns `done` and leaves `values`. -/
  | answered (done : Bool) (values : JoinValues V)
  /-- A callback throws and leaves `values`. -/
  | raised (values : JoinValues V)
  deriving DecidableEq, Repr

/-- Whether what the step needs can be had. -/
def Outcome.fails {V : Type} : Outcome V → Bool
  | .fail => true
  | _ => false

/-- What a callback leaves, when the step is one of a callback. -/
def Outcome.values {V : Type} : Outcome V → Option (JoinValues V)
  | .answered _ values | .raised values => some values
  | _ => none

variable {K V : Type} [DecidableEq K]

/-- `values.resize(index + 1)` where it is shorter. -/
def resizeValues (values : JoinValues V) (index : Nat) : JoinValues V :=
  values ++ List.replicate (index + 1 - values.length) []

/-- The value is appended to the list at `index`. -/
def pushValue (values : JoinValues V) (index : Nat) (value : V) : JoinValues V :=
  (resizeValues values index).modify index (· ++ [value])

/-- What follows `removeIfSame`. -/
def AfterRemoval.next : AfterRemoval → JoinPc
  | .retry => .finding
  | .ret => .leaving none
  | .raise e => .leaving (some e)

/-- Whether a running stop callback keeps `cancelCallback.reset()` waiting. -/
def Item.resetWaits (it : Item K V) : Bool := it.cancelCallback.any Subscription.running

/-- `cancelCallback.reset()` and the release of the lock. -/
def Item.resetUnlock (it : Item K V) : Item K V := { it with cancelCallback := none, mu := none }

/-- The deadline of an item that is created or renewed at `now`. -/
def JoinCall.deadlineAt (j : JoinCall K V) (now : Time) : Time :=
  j.ctx.deadline.getD (saturatedAdd now j.ttl)

namespace State

def setItem (s : State K V) (i : ItemId) (it : Item K V) : State K V :=
  { s with items := s.items.set i it }

def setPc (s : State K V) (c : CallId) (j : JoinCall K V) (pc : JoinPc) : State K V :=
  { s with calls := s.calls.set c { j with pc := pc } }

def setTask (s : State K V) (t : TaskId) (x : ExpiryTask) (pc : ExpiryPc) : State K V :=
  { s with expiryTasks := s.expiryTasks.set t { x with pc := pc } }

def setStop (s : State K V) (n : Nat) (pc : StopPc) : State K V :=
  { s with stops := s.stops.set n pc }

/-! ### The map -/

/-- Whether `removeIfSame` finds the entry. -/
def isRegistered (s : State K V) (key : K) (i : ItemId) : Bool :=
  s.current.lookup key = some i || s.previous.lookup key = some i

/-- The locked part of `removeIfSame`. -/
def removeIfSame (s : State K V) (key : K) (i : ItemId) : State K V :=
  if s.current.lookup key = some i then
    { s with current := s.current.erase key, count := s.count - 1 }
  else if s.previous.lookup key = some i then
    { s with previous := s.previous.erase key, count := s.count - 1 }
  else s

/-- `current_.try_emplace` for the entries of `previous_`. -/
def rescue (current : Generation K) (entries : List (Sigma fun _ : K => ItemId)) : Generation K :=
  entries.foldl (fun m e => if (m.lookup e.1).isSome then m else m.insert e.1 e.2) current

/-- How many of them were inserted. -/
def rescued (current : Generation K) (entries : List (Sigma fun _ : K => ItemId)) : Nat :=
  entries.countP (fun e => (current.lookup e.1).isNone)

/-- `kRotatingMapShrinkFactor`. -/
def shrinkFactor : Nat := 4

/-- `rotate`; `fails` is after how many insertions an allocation fails. -/
def rotate (s : State K V) (fails : Option Nat) : Option (State K V) :=
  if s.rotation ≠ .looping then none
  else if s.lifeState ≠ .running then some s
  else
    let total := s.current.entries.length + s.previous.entries.length
    let shouldRotate := s.highWaterMark = 0 ∨
      total < (s.highWaterMark + shrinkFactor - 1) / shrinkFactor
    if ¬ shouldRotate then some { s with highWaterMark := max s.highWaterMark total }
    else match fails with
      | some n =>
        -- The exception ends the rotation coroutine.
        some { s with
          highWaterMark := total
          current := rescue s.current (s.previous.entries.take n)
          rotation := .ended }
      | none =>
        let evicted := s.previous.entries.length - rescued s.current s.previous.entries
        some { s with
          highWaterMark := total
          previous := rescue s.current s.previous.entries
          current := ∅
          count := s.count - evicted
          rotation := if evicted > 0 ∧ s.config.metricsEnabled then .counting evicted
            else .looping }

/-! ### Expiry -/

/-- A new coroutine of `expiryTasks_`. -/
def spawnExpiry (s : State K V) (i : ItemId) (generation : Nat) (pc : ExpiryPc) : State K V :=
  { s with expiryTasks := s.expiryTasks ++ [⟨i, generation, pc⟩] }

/-- `scheduleExpiryNow`, which swallows every failure. -/
def scheduleExpiryNow (s : State K V) (i : ItemId) (generation : Nat) (fails : Bool) :
    State K V :=
  if s.lifeState ≠ .running then s
  else if fails then s
  else s.spawnExpiry i generation .woken

/-- The stop callback of item `i`. -/
def cancelStep (s : State K V) (i : ItemId) (fails : Bool) : Option (State K V) := do
  let it ← s.items[i]?
  let b ← it.cancelCallback
  let goOn (it : Item K V) (pc : SubPc) : State K V :=
    s.setItem i { it with cancelCallback := some { b with pc := pc } }
  match b.pc with
  | .waiting =>
    if !b.token.any s.world.stopRequested then none
    else if s.alive i then
      some (goOn { it with cancelledGeneration := max it.cancelledGeneration b.generation }
        .checking)
    else some (goOn it .finished)
  | .checking =>
    some (goOn it (if b.generation ≤ it.armedGeneration then .scheduling else .finished))
  | .scheduling => some ((goOn it .finished).scheduleExpiryNow i b.generation fails)
  | .finished => none

/-- An expiry coroutine. -/
def expiryStep (s : State K V) (t : TaskId) (o : Outcome V) : Option (State K V) := do
  let x ← s.expiryTasks[t]?
  let it ← s.items[x.item]?
  match x.pc with
  | .sleeping deadline =>
    if deadline ≤ s.world.now ∨ s.expiryCancelled then some (s.setTask t x .woken) else none
  | .woken => some (s.setTask t x (if s.expiryCancelled then .finished else .upgrading))
  | .upgrading => some (s.setTask t x (if s.alive x.item then .locking else .finished))
  | .locking =>
    if it.mu ≠ none then none
    else some ((s.setItem x.item { it with mu := some (.expiry t) }).setTask t x .inspecting)
  | .inspecting =>
    if it.processed ∨ it.generation ≠ x.generation then
      some ((s.setItem x.item { it with mu := none }).setTask t x .finished)
    else some ((s.setItem x.item { it with processed := true }).setTask t x .releasing)
  | .releasing =>
    if it.resetWaits then none
    else some ((s.setItem x.item it.resetUnlock).setTask t x .expiring)
  | .expiring =>
    match o.values with
    | none => none
    | some values =>
      some { (s.setItem x.item { it with values := values }).setTask t x .removing with
        expiries := s.expiries ++ [x.item] }
  | .removing =>
    some ((s.removeIfSame it.key x.item).setTask t x
      (if s.isRegistered it.key x.item && s.config.metricsEnabled then .counting else .finished))
  | .counting => some { s.setTask t x .finished with evictionsTotal := s.evictionsTotal + 1 }
  | .finished => none

/-! ### joinValue -/

/-- `armExpiryLocked` threw `e`; the handlers of the two places that call it. -/
def armFailed (s : State K V) (c : CallId) (j : JoinCall K V) (i : ItemId) (it : Item K V)
    (e : JoinError) : ArmFor → State K V
  | .creation => (s.setItem i { it with processed := true }).setPc c j (.releasing i (.aborted e))
  | .renewal saved => s.setPc c j (.restoring i saved e)

/-- Where a call goes on when `armExpiryLocked` returned. -/
def armed (i : ItemId) : ArmFor → JoinPc
  | .creation => .inspecting i true
  | .renewal _ => .relocating i

/-- The steps of `joinValue` before it has an item. -/
def enterStep (s : State K V) (c : CallId) (j : JoinCall K V) (o : Outcome V) :
    Option (State K V) :=
  match j.pc with
  | .entered =>
    match s.lifeState with
    | .running => some { s.setPc c j .timing with activeOperations := s.activeOperations + 1 }
    | .stopping | .stopped => some (s.setPc c j (.threw .storeStopped))
    | .created | .failed => some (s.setPc c j (.threw .storeNotStarted))
  | .timing =>
    some (s.setPc c { j with ttl := (j.ctx.deadline.map (· - s.world.now)).getD s.config.ttl }
      .finding)
  | .finding =>
    some (s.setPc c j ((s.findItemLocked j.key).elim .creating .locking))
  | .creating =>
    if o.fails then some (s.setPc c j (.leaving (some .resource)))
    else some (s.setPc c j (.inserting
      (if j.ttl > 0 then some (j.deadlineAt s.world.now) else none)))
  | .inserting deadline =>
    match s.findItemLocked j.key with
    | some i => some (s.setPc c j (.locking i))
    | none =>
      if o.fails then some (s.setPc c j (.leaving (some .resource)))
      else
        let i := s.items.length
        let it : Item K V :=
          { key := j.key, mu := some (.call c), values := resizeValues [] j.index
            deadline := deadline, generation := if deadline.isSome then 1 else 0 }
        some { s.setPc c j
            (if deadline.isSome then .subscribing i .creation else .inspecting i true) with
          items := s.items ++ [it]
          current := s.current.insert j.key i
          count := s.count + 1 }
  | .leaving r =>
    some { s.setPc c j (r.elim .returned .threw) with
      activeOperations := s.activeOperations - 1 }
  | _ => none

/-- The steps of `armExpiryLocked`, called by `joinValue` with the item's lock held. -/
def armStep (s : State K V) (c : CallId) (j : JoinCall K V) (i : ItemId) (it : Item K V)
    (o : Outcome V) : Option (State K V) :=
  match j.pc with
  | .subscribing _ p =>
    if o.fails then some (s.armFailed c j i it .resource p)
    else if j.ctx.stopToken.any s.world.stopRequested then
      -- The callback runs at once, in the constructor of the subscription.
      some ((s.setItem i { it with
          cancelCallback := some ⟨j.ctx.stopToken, it.generation, .finished⟩
          cancelledGeneration := max it.cancelledGeneration it.generation }).setPc c j
        (if it.generation ≤ it.armedGeneration then .inlineScheduling i p else .spawning i p))
    else
      some ((s.setItem i { it with
        cancelCallback := some ⟨j.ctx.stopToken, it.generation, .waiting⟩ }).setPc c j
          (.spawning i p))
  | .inlineScheduling _ p =>
    some ((s.scheduleExpiryNow i it.generation o.fails).setPc c j (.spawning i p))
  | .spawning _ p =>
    if s.lifeState ≠ .running ∧ s.lifeState ≠ .stopping then
      some (s.armFailed c j i it .storeStopped p)
    else if o.fails then some (s.armFailed c j i it .resource p)
    else
      some ((s.spawnExpiry i it.generation (.sleeping (it.deadline.getD timeMax))).setPc c j
        (.arming i p))
  | .arming _ p =>
    some ((s.setItem i { it with armedGeneration := it.generation }).setPc c j (.rechecking i p))
  | .rechecking _ p =>
    some (s.setPc c j (if it.generation ≤ it.cancelledGeneration then .scheduling i p
      else armed i p))
  | .scheduling _ p =>
    some ((s.scheduleExpiryNow i it.generation o.fails).setPc c j (armed i p))
  | _ => none

/-- The other steps of `joinValue` with an item. -/
def itemStep (s : State K V) (c : CallId) (j : JoinCall K V) (i : ItemId) (it : Item K V)
    (o : Outcome V) : Option (State K V) :=
  -- An exception leaves through the destructor of the item's lock.
  let unwind (s : State K V) (it : Item K V) (r : Option JoinError) : State K V :=
    (s.setItem i { it with mu := none }).setPc c j (.leaving r)
  match j.pc with
  | .locking _ =>
    if it.mu ≠ none then none
    else some ((s.setItem i { it with mu := some (.call c) }).setPc c j (.inspecting i false))
  | .inspecting _ newlyInserted =>
    if it.processed then
      some ((s.setItem i { it with mu := none }).setPc c j (.removing i false .retry))
    else if !newlyInserted && it.deadline.any (· ≤ s.world.now) then
      some ((s.setItem i { it with processed := true, generation := it.generation + 1 }).setPc
        c j (.releasing i .expired))
    else if j.ttl > 0 ∧ s.config.renewTtl ∧ !newlyInserted then
      some ((s.setItem i { it with
          deadline := some (j.deadlineAt s.world.now)
          generation := it.generation + 1 }).setPc c j
        (.renewing i ⟨it.deadline, it.generation, it.armedGeneration, it.cancelledGeneration⟩))
    else some (s.setPc c j (.appending i))
  | .renewing _ saved =>
    if it.resetWaits then none
    else some ((s.setItem i { it with cancelCallback := none }).setPc c j
      (.subscribing i (.renewal saved)))
  | .restoring _ saved e =>
    if it.resetWaits then none
    else some (unwind s { it with
      cancelCallback := none
      deadline := saved.deadline
      generation := saved.generation
      armedGeneration := saved.armedGeneration
      cancelledGeneration := saved.cancelledGeneration } (some e))
  | .relocating _ =>
    if s.previous.lookup j.key = some i then
      if o.fails then
        -- The entry is erased before the insertion that fails.
        some (unwind { s with previous := s.previous.erase j.key } it (some .resource))
      else
        some ({ s with
          previous := s.previous.erase j.key
          current := s.current.insert j.key i }.setPc c j (.appending i))
    else some (s.setPc c j (.appending i))
  | .appending _ =>
    match o with
    | .fail => some (unwind s it (some .resource))
    | .failLate =>
      some (unwind s { it with values := resizeValues it.values j.index } (some .resource))
    | _ =>
      some { (s.setItem i { it with values := pushValue it.values j.index j.value }).setPc c j
          (.calling i) with
        appends := s.appends ++ [(c, i)] }
  | .calling _ =>
    match o with
    | .answered true values =>
      some { (s.setItem i { it with
            values := values, processed := true, generation := it.generation + 1 }).setPc c j
          (.releasing i .completed) with
        completions := s.completions ++ [i] }
    | .answered false values => some (unwind s { it with values := values } none)
    | .raised values => some (unwind s { it with values := values } (some .callback))
    | _ => none
  | .releasing _ m =>
    if it.resetWaits then none
    else
      some ((s.setItem i it.resetUnlock).setPc c j (match m with
        | .aborted e => .removing i false (.raise e)
        | .expired => .expiring i
        | .completed => .removing i false .ret))
  | .expiring _ =>
    match o.values with
    | none => none
    | some values =>
      some { (s.setItem i { it with values := values }).setPc c j (.removing i true .retry) with
        expiries := s.expiries ++ [i] }
  | .removing _ eviction k =>
    some ((s.removeIfSame j.key i).setPc c j
      (if s.isRegistered j.key i && eviction && s.config.metricsEnabled then .counting i k
        else k.next))
  | .counting _ k => some { s.setPc c j k.next with evictionsTotal := s.evictionsTotal + 1 }
  | _ => none

/-- A `joinValue` call. -/
def joinStep (s : State K V) (c : CallId) (o : Outcome V) : Option (State K V) := do
  let j ← s.calls[c]?
  match j.pc.item with
  | none => s.enterStep c j o
  | some i => do
    let it ← s.items[i]?
    match j.pc with
    | .subscribing .. | .inlineScheduling .. | .spawning .. | .arming .. | .rechecking ..
    | .scheduling .. => s.armStep c j i it o
    | _ => s.itemStep c j i it o

/-! ### start and stop -/

/-- `start`; in every other state it throws. -/
def start (s : State K V) (fails : Bool) : State K V :=
  match s.lifeState with
  | .created =>
    if fails then { s with lifeState := .failed }
    else { s with
      lifeState := .running
      rotation := if s.config.ttl > 0 then .looping else .absent }
  | _ => s

/-- The items of both generations, each once. -/
def registeredItems (s : State K V) : List ItemId :=
  let items := s.current.entries.map (·.2)
  s.previous.entries.foldl (fun items e => if items.contains e.2 then items else items ++ [e.2])
    items

/-- A `stop` call. -/
def stopStep (s : State K V) (n : Nat) : Option (State K V) := do
  let pc ← s.stops[n]?
  match pc with
  | .entered =>
    match s.lifeState with
    | .stopped => some (s.setStop n .returned)
    | .stopping => some (s.setStop n .waiting)
    | _ => some { s.setStop n .draining with lifeState := .stopping }
  | .waiting => if s.lifeState = .stopped then some (s.setStop n .returned) else none
  | .draining =>
    if s.activeOperations = 0 then some (s.setStop n (.visiting s.registeredItems)) else none
  | .visiting [] => some (s.setStop n .cancelling)
  | .visiting (i :: rest) =>
    let it ← s.items[i]?
    if it.mu ≠ none then none
    else some ((s.setItem i { it with mu := some (.stop n) }).setStop n (.resetting i rest))
  | .resetting i rest =>
    let it ← s.items[i]?
    if it.resetWaits then none
    else some ((s.setItem i it.resetUnlock).setStop n (.visiting rest))
  | .cancelling =>
    match s.rotation with
    | .counting _ => none
    | _ => some { s.setStop n .awaiting with rotation := .ended, expiryCancelled := true }
  | .awaiting =>
    if s.expiryTasks.all (·.pc = .finished) then some (s.setStop n .clearing) else none
  | .clearing =>
    some { s.setStop n .returned with
      current := ∅, previous := ∅, count := 0, lifeState := .stopped }
  | .returned => none

end State

/-! ### The system -/

/-- What can happen next. -/
inductive Action (K V : Type)
  | tick (now : Time)
  | fire (τ : TokenId)
  | start (fails : Bool)
  | callJoin (ctx : Context) (key : K) (index : Nat) (value : V)
  | join (c : CallId) (o : Outcome V)
  | cancel (i : ItemId) (fails : Bool)
  | expire (t : TaskId) (o : Outcome V)
  | rotate (fails : Option Nat)
  | countRotation
  | callStop
  | stop (n : Nat)
  deriving DecidableEq, Repr

def step (s : State K V) : Action K V → Option (State K V)
  | .tick now =>
    if s.world.now ≤ now then some { s with world := { s.world with now := now } } else none
  | .fire τ => some { s with world := { s.world with fired := τ :: s.world.fired } }
  | .start fails => some (s.start fails)
  | .callJoin ctx key index value =>
    some { s with calls := s.calls ++ [{ ctx := ctx, key := key, index := index, value := value }] }
  | .join c o => s.joinStep c o
  | .cancel i fails => s.cancelStep i fails
  | .expire t o => s.expiryStep t o
  | .rotate fails => s.rotate fails
  | .countRotation =>
    match s.rotation with
    | .counting evicted =>
      some { s with evictionsTotal := s.evictionsTotal + evicted, rotation := .looping }
    | _ => none
  | .callStop => some { s with stops := s.stops ++ [.entered] }
  | .stop n => s.stopStep n

/-- The storage with a configuration, from its construction on. -/
def system (K V : Type) [DecidableEq K] (config : JoinStorageConfig) :
    System (State K V) (Action K V) where
  init := { config := config }
  step := step

end ServiceLib.Join
