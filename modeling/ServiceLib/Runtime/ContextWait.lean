import ServiceLib.Runtime.Context

namespace ServiceLib

/-!
# Waiting with a context

`WaitWithContext` of `runtime/detail/context_wait.hpp`: wait on a condition variable until a
predicate holds, the context is cancelled or its deadline passes.  It is entered and left with
the mutex held.  A program counter sits in front of the next evaluation of the predicate or
the next operation on the mutex.

What the call sees of its surroundings in one step is a `WaitView`; who owns the mutex and
whose predicate it is belong to the caller's model.
-/

/-- `WaitWithContext`. -/
inductive WaitPc
  /-- `if (ready()) return true`. -/
  | firstCheck
  /-- `if (context.cancelled()) return false`. -/
  | cancelCheck
  | subscribing
  /-- Evaluates `finished` before each wait. -/
  | waitCheck
  /-- Found `finished` false; about to register as a waiter and unlock. -/
  | registering
  | parked
  /-- Was woken; about to lock again. -/
  | woken
  /-- The wait ended at the deadline; about to lock again. -/
  | timedOut
  /-- The wait is over; about to unlock and join the notifier, if there is one. -/
  | leaving
  | joining
  | relocking
  /-- `return ready()`. -/
  | lastCheck
  | ended (result : Bool)
  /-- A subscription or the notifier could not be created. -/
  | threw
  deriving DecidableEq, Repr

/-- Whether the call holds the mutex. -/
def WaitPc.holds : WaitPc → Bool
  | .parked | .woken | .timedOut | .joining | .relocking => false
  | _ => true

/-- What a step of `WaitWithContext` depends on. -/
structure WaitView where
  ready : Bool
  cancelled : Bool
  /-- Whether the context has a stop token, so that there are subscriptions and a notifier. -/
  subscribed : Bool
  /-- Whether nobody holds the mutex. -/
  free : Bool
  /-- Whether an allocation of this step throws. -/
  fails : Bool

/-- One step of the call; a parked call does not move by itself. -/
def WaitPc.step (v : WaitView) : WaitPc → Option WaitPc
  | .firstCheck => some (if v.ready then .ended true else .cancelCheck)
  | .cancelCheck => some (if v.cancelled then .ended false else .subscribing)
  | .subscribing => some (if v.fails then .threw else .waitCheck)
  | .waitCheck => some (if v.ready || v.cancelled then .leaving else .registering)
  | .registering => some .parked
  | .woken => if v.free then some .waitCheck else none
  | .timedOut => if v.free then some .leaving else none
  | .leaving => some (if v.subscribed then .joining else .lastCheck)
  | .joining => some .relocking
  | .relocking => if v.free then some .lastCheck else none
  | .lastCheck => some (.ended v.ready)
  | .parked | .ended _ | .threw => none

/-- **What a step of a wait guarantees.**  It takes the mutex only when it is free, it parks
    only from `registering`, which it reaches only while the predicate is false, and it reports
    success only while the predicate is true. -/
structure WaitPc.Steps (v : WaitView) (pc pc' : WaitPc) : Prop where
  takes : pc'.holds → pc.holds ∨ v.free
  registers : pc' = .registering → v.ready = false ∧ pc.holds
  parks : pc' = .parked → pc = .registering
  succeeds : pc' = .ended true → v.ready ∧ pc.holds

/-- The wait of the call is over and its result is still to be computed. -/
def WaitPc.settled : WaitPc → Bool
  | .leaving | .joining | .relocking | .lastCheck => true
  | _ => false

/-- **Why a wait ends.**  It stops waiting because the predicate holds, the context is cancelled
    or the deadline has passed, and it answers `false` on a cancelled context at the beginning or
    on a predicate that does not hold at the end. -/
structure WaitPc.Ends (v : WaitView) (pc pc' : WaitPc) : Prop where
  settles : pc'.settled →
    pc.settled ∨ pc = .timedOut ∨ v.ready ∨ v.cancelled
  expires : pc' ≠ .timedOut
  answers : pc' = .ended false → v.cancelled ∨ (pc = .lastCheck ∧ v.ready = false)

/-- What one step of the wait can do. -/
theorem WaitPc.steps_of_step {v : WaitView} {pc pc' : WaitPc} (h : pc.step v = some pc') :
    WaitPc.Steps v pc pc' ∧ WaitPc.Ends v pc pc' := by
  cases pc with
  | woken | timedOut | relocking =>
    simp only [WaitPc.step] at h
    split at h <;> cases h
    constructor <;> constructor <;> grind [WaitPc.holds, WaitPc.settled]
  | parked | ended | threw => cases h
  | _ =>
    cases h
    constructor <;> constructor <;> grind [WaitPc.holds, WaitPc.settled]

end ServiceLib
