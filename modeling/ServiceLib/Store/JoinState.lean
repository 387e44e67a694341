import Mathlib.Data.List.AList
import ServiceLib.Runtime.Context

namespace ServiceLib.Join

/-!
# Join storage — state

The in-memory join storage of `runtime/store/hashmap.hpp`: the two generations of its map, the
items with their locks, expiry generations and stop callbacks, and where every `joinValue`
call, expiry coroutine and `stop` call stands.

Items stay in `items` when the storage lets go of them; `State.alive` says whether a weak
pointer to one can still be locked.  Generations are unbounded here, `uint64_t` in the source.
Callbacks have no identity: by their contract those of one key are equivalent, and what one
answers is part of the action.
-/

abbrev ItemId := Nat
abbrev CallId := Nat
abbrev TaskId := Nat

/-- `JoinValues`. -/
abbrev JoinValues (V : Type) := List (List V)

/-- The fields of `JoinStorageConfig` that the storage acts on, and whether the environment
    collects metrics. -/
structure JoinStorageConfig where
  ttl : Time
  renewTtl : Bool
  metricsEnabled : Bool := true
  deriving DecidableEq, Repr

/-- `State`. -/
inductive LifeState
  | created | running | stopping | stopped | failed
  deriving DecidableEq, Repr

/-- Who holds the lock of an item. -/
inductive Holder
  | call (c : CallId)
  | expiry (t : TaskId)
  | stop (n : Nat)
  deriving DecidableEq, Repr

/-- How far the callback of a `std::stop_callback` has come. -/
inductive SubPc
  /-- Registered, not invoked. -/
  | waiting
  /-- `cancelledGeneration` is published, `armedGeneration` comes next. -/
  | checking
  /-- About to enter `scheduleExpiryNow`. -/
  | scheduling
  | finished
  deriving DecidableEq, Repr

/-- `cancelCallback`. -/
structure Subscription where
  token : Option TokenId
  generation : Nat
  pc : SubPc
  deriving DecidableEq, Repr

/-- While the callback runs, `cancelCallback.reset()` waits for it. -/
def Subscription.running (b : Subscription) : Bool :=
  b.pc = .checking || b.pc = .scheduling

/-- `Item`, with the key it was created for. -/
structure Item (K V : Type) where
  key : K
  mu : Option Holder
  values : JoinValues V
  deadline : Option Time
  processed : Bool := false
  generation : Nat := 0
  armedGeneration : Nat := 0
  cancelledGeneration : Nat := 0
  cancelCallback : Option Subscription := none
  deriving DecidableEq, Repr

/-- What a `joinValue` throws. -/
inductive JoinError
  | storeStopped
  | storeNotStarted
  /-- An allocation or a coroutine could not be made. -/
  | resource
  /-- The callback threw, which its contract forbids. -/
  | callback
  deriving DecidableEq, Repr

/-- What a renewal puts back when it cannot be armed. -/
structure Saved where
  deadline : Option Time
  generation : Nat
  armedGeneration : Nat
  cancelledGeneration : Nat
  deriving DecidableEq, Repr

/-- What `armExpiryLocked` is called for. -/
inductive ArmFor
  | creation
  | renewal (saved : Saved)
  deriving DecidableEq, Repr

/-- Why an item was marked processed, hence what follows once its lock is released. -/
inductive Marked
  /-- Its expiry could not be armed: the call throws the error. -/
  | aborted (e : JoinError)
  /-- Its deadline was found to have passed. -/
  | expired
  /-- The callback returned true. -/
  | completed
  deriving DecidableEq, Repr

/-- What follows `removeIfSame`. -/
inductive AfterRemoval
  | retry
  | ret
  | raise (e : JoinError)
  deriving DecidableEq, Repr

/-- Program points of `joinValue`. -/
inductive JoinPc
  /-- About to construct its `OperationGuard`. -/
  | entered
  /-- About to read the clock for its `ttl`. -/
  | timing
  /-- At the head of the loop, about to call `findItem`. -/
  | finding
  /-- Found nothing: about to construct a candidate. -/
  | creating
  /-- About to look again and insert the candidate. -/
  | inserting (deadline : Option Time)
  /-- About to lock the item it found. -/
  | locking (i : ItemId)
  /-- Lock held: about to read the clock and the item. -/
  | inspecting (i : ItemId) (newlyInserted : Bool)
  /-- Lock held, new deadline and generation set: about to reset the old subscription. -/
  | renewing (i : ItemId) (saved : Saved)
  /-- Lock held, in `armExpiryLocked`: about to subscribe. -/
  | subscribing (i : ItemId) (p : ArmFor)
  /-- The stop callback, invoked while subscribing, is about to enter `scheduleExpiryNow`. -/
  | inlineScheduling (i : ItemId) (p : ArmFor)
  /-- About to start the expiry coroutine. -/
  | spawning (i : ItemId) (p : ArmFor)
  /-- About to store `armedGeneration`. -/
  | arming (i : ItemId) (p : ArmFor)
  /-- About to load `cancelledGeneration`. -/
  | rechecking (i : ItemId) (p : ArmFor)
  /-- About to enter `scheduleExpiryNow`. -/
  | scheduling (i : ItemId) (p : ArmFor)
  /-- Lock held: a renewal is about to undo what it did and throw `e`. -/
  | restoring (i : ItemId) (saved : Saved) (e : JoinError)
  /-- Lock held: about to move the item to the current generation of the map. -/
  | relocating (i : ItemId)
  /-- Lock held: about to append its value. -/
  | appending (i : ItemId)
  /-- Lock held: in the callback. -/
  | calling (i : ItemId)
  /-- Lock held, item marked processed: about to reset the subscription and unlock. -/
  | releasing (i : ItemId) (m : Marked)
  /-- In the expiry callback. -/
  | expiring (i : ItemId)
  /-- About to call `removeIfSame`. -/
  | removing (i : ItemId) (eviction : Bool) (k : AfterRemoval)
  /-- About to count an eviction. -/
  | counting (i : ItemId) (k : AfterRemoval)
  /-- About to destroy its `OperationGuard`. -/
  | leaving (r : Option JoinError)
  | returned
  | threw (e : JoinError)
  deriving DecidableEq, Repr

/-- A `joinValue` call. -/
structure JoinCall (K V : Type) where
  ctx : Context
  key : K
  index : Nat
  value : V
  ttl : Time := 0
  pc : JoinPc := .entered
  deriving DecidableEq, Repr

/-- Program points of an expiry coroutine. -/
inductive ExpiryPc
  /-- In `InterruptibleSleepUntil`. -/
  | sleeping (deadline : Time)
  /-- About to test `ShouldCancel`. -/
  | woken
  /-- In `expire`, about to lock its weak pointer. -/
  | upgrading
  /-- About to lock the item. -/
  | locking
  /-- Lock held: about to look at the item. -/
  | inspecting
  /-- Lock held, item marked processed: about to reset the subscription and unlock. -/
  | releasing
  /-- In the expiry callback. -/
  | expiring
  | removing
  | counting
  | finished
  deriving DecidableEq, Repr

/-- A coroutine of `expiryTasks_`.  The key it captures is the item's. -/
structure ExpiryTask where
  item : ItemId
  generation : Nat
  pc : ExpiryPc
  deriving DecidableEq, Repr

/-- Program points of `stop`. -/
inductive StopPc
  | entered
  /-- Waits until no operation is active. -/
  | draining
  /-- About to lock the first item left. -/
  | visiting (items : List ItemId)
  /-- Lock held: about to reset its subscription and unlock. -/
  | resetting (i : ItemId) (items : List ItemId)
  /-- About to cancel the rotation coroutine. -/
  | cancelling
  /-- In `CancelAndWait`. -/
  | awaiting
  /-- About to clear the maps. -/
  | clearing
  /-- Another call is stopping the storage: waits for `stopped`. -/
  | waiting
  | returned
  deriving DecidableEq, Repr

/-- The rotation coroutine. -/
inductive RotationPc
  | absent
  | looping
  /-- About to count what a rotation evicted. -/
  | counting (evicted : Nat)
  | ended
  deriving DecidableEq, Repr

/-- One generation of the map. -/
abbrev Generation (K : Type) := AList (fun _ : K => ItemId)

/-- `HashMapJoinStorage`. -/
structure State (K V : Type) [DecidableEq K] where
  config : JoinStorageConfig
  world : World := ⟨0, []⟩
  lifeState : LifeState := .created
  activeOperations : Nat := 0
  current : Generation K := ∅
  previous : Generation K := ∅
  count : Int := 0
  highWaterMark : Nat := 0
  items : List (Item K V) := []
  calls : List (JoinCall K V) := []
  expiryTasks : List ExpiryTask := []
  /-- `CancelAndWait` has been called on `expiryTasks_`. -/
  expiryCancelled : Bool := false
  rotation : RotationPc := .absent
  stops : List StopPc := []
  /-- `evictionsTotal_`. -/
  evictionsTotal : Int := 0
  /-- History: which call appended its value to which item. -/
  appends : List (CallId × ItemId) := []
  /-- History: the items for which a `joinValue` callback returned true. -/
  completions : List ItemId := []
  /-- History: the items whose expiry callback was invoked. -/
  expiries : List ItemId := []

/-! ### Who holds what -/

/-- The item whose lock a `joinValue` call holds. -/
def JoinPc.inside : JoinPc → Option ItemId
  | .inspecting i _ | .renewing i _ | .subscribing i _ | .inlineScheduling i _ | .spawning i _
  | .arming i _ | .rechecking i _ | .scheduling i _ | .restoring i _ _ | .relocating i
  | .appending i | .calling i | .releasing i _ => some i
  | _ => none

/-- The item a `joinValue` call has a pointer to. -/
def JoinPc.item : JoinPc → Option ItemId
  | .locking i | .expiring i | .removing i _ _ | .counting i _ => some i
  | pc => pc.inside

/-- The item an expiry coroutine has a pointer to. -/
def ExpiryTask.holds (t : ExpiryTask) : Option ItemId :=
  match t.pc with
  | .sleeping _ | .woken | .upgrading | .finished => none
  | _ => some t.item

/-- The items a `stop` call has pointers to. -/
def StopPc.items : StopPc → List ItemId
  | .visiting items => items
  | .resetting i items => i :: items
  | _ => []

section

variable {K V : Type} [DecidableEq K]

/-- `findItemLocked`. -/
def State.findItemLocked (s : State K V) (key : K) : Option ItemId :=
  (s.current.lookup key).or (s.previous.lookup key)

/-- Whether some shared pointer to item `i` is left. -/
def State.alive (s : State K V) (i : ItemId) : Bool :=
  s.current.entries.any (·.2 = i) || s.previous.entries.any (·.2 = i) ||
    s.calls.any (·.pc.item = some i) || s.expiryTasks.any (·.holds = some i) ||
    s.stops.any (·.items.contains i)

end

end ServiceLib.Join
