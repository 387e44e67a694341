import ServiceLib.Lib.GateWord
import ServiceLib.Lib.Transition
import ServiceLib.Runtime.ContextWait

namespace ServiceLib.Admission

/-!
# Request admission — state and steps

`RequestAdmission` of `datasource/detail/request_admission.hpp`: the gate that an endpoint's
requests pass through.  A word counts the leases and carries the closed bit (`Lib.GateWord`).
A release gives its lease back without the mutex while the gate is open, and under the mutex
once it is closed; `stop` closes the gate under the mutex and waits for the last lease.

Each atomic access and each operation on the mutex is a step of its own.  Moving a `Lease`
only changes which object names it and is left out.
-/

open GateWord

/-- `state_`, a `std::size_t`. -/
abbrev StateWord := BitVec (63 + 1)

/-- `kClosed`. -/
def kClosed : StateWord := closedBit 63

/-! ### Program counters -/

/-- A call of `acquire` and the lease it returns, up to the end of the lease. -/
inductive LeasePc
  | entered
  /-- The value the compare-exchange of `acquire` will expect. -/
  | loaded (state : StateWord)
  /-- Returned an empty lease. -/
  | refused
  /-- Returned a lease. -/
  | live
  /-- In `release`: about to load the word. -/
  | releasing
  /-- The value the compare-exchange of `release` will expect. -/
  | releaseLoaded (state : StateWord)
  /-- Found the gate closed; about to lock. -/
  | locking
  /-- Holds the mutex; about to subtract. -/
  | subtracting
  /-- Holds the mutex; gave the last lease back and is about to `NotifyAll`. -/
  | notifying
  /-- Holds the mutex; about to unlock. -/
  | unlocking
  | released
  deriving DecidableEq, Repr

/-- `stop`. -/
inductive StopPc
  | locking
  /-- Holds the mutex; about to set the closed bit. -/
  | closing
  | waiting (pc : WaitPc)
  /-- Returned normally. -/
  | returned
  /-- `OperationCancelledError`: "datasource request drain cancelled or expired". -/
  | cancelled
  /-- The wait threw. -/
  | failed
  deriving DecidableEq, Repr

structure StopCall where
  ctx : Context
  pc : StopPc
  /-- Whether the notifier task of the wait has yet to notify. -/
  armed : Bool := false
  deriving DecidableEq, Repr

/-- Who holds the mutex. -/
inductive Holder
  | lease (i : Nat)
  | stop (j : Nat)
  deriving DecidableEq, Repr

/-- A gate with every call made on it, by index. -/
structure State where
  world : World
  word : StateWord
  mu : Option Holder
  leases : List LeasePc
  stops : List StopCall
  deriving DecidableEq, Repr

def State.init : State where
  world := ⟨0, []⟩
  word := 0
  mu := none
  leases := []
  stops := []

/-! ### What program counters stand for -/

/-- A lease that was granted and has not been given back. -/
def LeasePc.outstanding : LeasePc → Bool
  | .live | .releasing | .releaseLoaded _ | .locking | .subtracting => true
  | _ => false

/-- A call that needs storage for a `Lease`: one that may get it, or still has it. -/
def LeasePc.occupies : LeasePc → Bool
  | .refused | .released => false
  | _ => true

def LeasePc.holds : LeasePc → Bool
  | .subtracting | .notifying | .unlocking => true
  | _ => false

/-- A releaser that will still access the gate. -/
def LeasePc.pending : LeasePc → Bool
  | .releasing | .releaseLoaded _ | .locking | .subtracting | .notifying | .unlocking => true
  | _ => false

def StopPc.holds : StopPc → Bool
  | .closing => true
  | .waiting pc => pc.holds
  | _ => false

/-- How the call ends once its wait is over. -/
def StopPc.afterWait : WaitPc → Option StopPc
  | .ended true => some .returned
  | .ended false => some .cancelled
  | .threw => some .failed
  | _ => none

/-- A `stop` that has set the closed bit. -/
def StopPc.closed : StopPc → Bool
  | .locking | .closing => false
  | _ => true

namespace State

/-- The predicate of `stop`. -/
def ready (s : State) : Bool := s.word == kClosed

/-- The number of outstanding leases. -/
def outstanding (s : State) : Nat := s.leases.countP LeasePc.outstanding

/-- The number of `Lease` objects for which there is storage. -/
def objects (s : State) : Nat := s.leases.countP LeasePc.occupies

/-- `sizeof(Lease)`. -/
def leaseSize : Nat := 8

/-- Whether the 64-bit address space has room for one more `Lease`. -/
def hasRoom (s : State) : Bool := (s.objects + 1) * leaseSize ≤ 2 ^ 64

def setLease (s : State) (i : Nat) (pc : LeasePc) : State :=
  { s with leases := s.leases.set i pc }

def setStop (s : State) (j : Nat) (x : StopCall) : State :=
  { s with stops := s.stops.set j x }

/-- What `NotifyAll` does to one `stop`. -/
def wakeStop (x : StopCall) : StopCall :=
  if x.pc = .waiting .parked then { x with pc := .waiting .woken } else x

/-- `changed_.NotifyAll()`. -/
def notifyAll (s : State) : State := { s with stops := s.stops.map wakeStop }

/-! ### Leases -/

/-- One step of a lease.  `spurious` is whether a weak compare-exchange fails although the word
    has the expected value. -/
def leaseStep (s : State) (i : Nat) (spurious : Bool) : Option State :=
  match s.leases[i]? with
  | none => none
  | some .entered => some (s.setLease i (.loaded s.word))
  | some (.loaded state) =>
    if isClosed state then some (s.setLease i .refused)
    else if s.word = state ∧ spurious = false then
      some { s.setLease i .live with word := state + 1 }
    else some (s.setLease i (.loaded s.word))
  | some .live => some (s.setLease i .releasing)
  | some .releasing => some (s.setLease i (.releaseLoaded s.word))
  | some (.releaseLoaded state) =>
    if isClosed state then some (s.setLease i .locking)
    else if s.word = state ∧ spurious = false then
      some { s.setLease i .released with word := state - 1 }
    else some (s.setLease i (.releaseLoaded s.word))
  | some .locking =>
    if s.mu ≠ none then none
    else some { s.setLease i .subtracting with mu := some (.lease i) }
  | some .subtracting =>
    some { s.setLease i (if s.word = kClosed + 1 then .notifying else .unlocking) with
      word := s.word - 1 }
  | some .notifying => some (s.notifyAll.setLease i .unlocking)
  | some .unlocking => some { s.setLease i .released with mu := none }
  | some .refused | some .released => none

/-! ### stop -/

/-- What the wait of call `x` sees. -/
def view (s : State) (x : StopCall) (fails : Bool) : WaitView where
  ready := s.ready
  cancelled := x.ctx.cancelled s.world
  subscribed := !x.ctx.tokens.isEmpty
  free := s.mu.isNone
  fails := fails

/-- One step of a `stop`.  `fails` is whether `WaitWithContext` cannot allocate. -/
def stopStep (s : State) (j : Nat) (fails : Bool) : Option State :=
  match s.stops[j]? with
  | none => none
  | some x =>
    match x.pc with
    | .locking =>
      if s.mu ≠ none then none
      else some { s.setStop j { x with pc := .closing } with mu := some (.stop j) }
    | .closing =>
      some { s.setStop j { x with pc := .waiting .firstCheck } with word := s.word ||| kClosed }
    | .waiting pc =>
      match StopPc.afterWait pc with
      | some pc' => some { s.setStop j { x with pc := pc' } with mu := none }
      | none =>
        (pc.step (s.view x fails)).map (fun pc' =>
          { s.setStop j { x with
              pc := .waiting pc'
              armed := match pc with
                | .subscribing => !x.ctx.tokens.isEmpty
                | .joining => false
                | _ => x.armed } with
            mu := if pc'.holds then some (.stop j) else if pc.holds then none else s.mu })
    | .returned | .cancelled | .failed => none

/-- A parked `stop` wakes by itself: at its deadline, or without a reason. -/
def wakeStep (s : State) (j : Nat) (timeout : Bool) : Option State :=
  match s.stops[j]? with
  | none => none
  | some x =>
    if x.pc ≠ .waiting .parked then none
    else if timeout then
      if x.ctx.expired s.world then some (s.setStop j { x with pc := .waiting .timedOut })
      else none
    else some (s.setStop j { x with pc := .waiting .woken })

/-- The notifier task of call `j` saw a stop token fire: it locks and notifies. -/
def notifierStep (s : State) (j : Nat) : Option State :=
  match s.stops[j]? with
  | none => none
  | some x =>
    if x.armed ∧ s.mu = none ∧ x.ctx.tokens.any s.world.stopRequested then
      some (s.setStop j { x with armed := false }).notifyAll
    else none

end State

/-! ### The transition system -/

/-- Who moves next, and what the environment decides for that step. -/
inductive Action
  | tick (now : Time)
  | fire (τ : TokenId)
  | callAcquire
  | lease (i : Nat) (spurious : Bool)
  | callStop (ctx : Context)
  | stop (j : Nat) (fails : Bool)
  | wake (j : Nat) (timeout : Bool)
  | notifier (j : Nat)
  deriving DecidableEq, Repr

/-- One step of the gate.  A call of `acquire` begins with storage for the `Lease` it returns,
    so there are never more leases than the address space has room for. -/
def step (s : State) : Action → Option State
  | .tick now => if s.world.now ≤ now then some { s with world.now := now } else none
  | .fire τ => some { s with world.fired := τ :: s.world.fired }
  | .callAcquire =>
    if s.hasRoom then some { s with leases := s.leases ++ [.entered] } else none
  | .lease i spurious => s.leaseStep i spurious
  | .callStop ctx => some { s with stops := s.stops ++ [{ ctx := ctx, pc := .locking }] }
  | .stop j fails => s.stopStep j fails
  | .wake j timeout => s.wakeStep j timeout
  | .notifier j => s.notifierStep j

/-- A gate from its construction on. -/
def system : System State Action where
  init := State.init
  step := step

/-! ### What one step can do -/

/-- The moves of the lease `i`, whose program counter is `pc`. -/
inductive LeaseMove (s : State) (i : Nat) (pc : LeasePc) : State → Prop
  /-- Local steps: the word and the mutex stay, and the lease counts as before. -/
  | walk (pc' : LeasePc) (hout : pc'.outstanding = pc.outstanding) (hhold : pc.holds = false)
      (hhold' : pc'.holds = false)
      (hocc : pc'.occupies → pc.occupies)
      (hclosed : pc' = .locking → ∃ state, pc = .releaseLoaded state ∧
        isClosed state)
      (hload : ∀ state, pc' = .releaseLoaded state → state = s.word) :
      LeaseMove s i pc (s.setLease i pc')
  | grant (hpc : pc = .loaded s.word) (hopen : isClosed s.word = false) :
      LeaseMove s i pc { s.setLease i .live with word := s.word + 1 }
  | giveBack (hpc : pc = .releaseLoaded s.word) (hopen : isClosed s.word = false) :
      LeaseMove s i pc { s.setLease i .released with word := s.word - 1 }
  | lock (hpc : pc = .locking) (hmu : s.mu = none) :
      LeaseMove s i pc { s.setLease i .subtracting with mu := some (.lease i) }
  | subtractLast (hpc : pc = .subtracting) (hlast : s.word = kClosed + 1) :
      LeaseMove s i pc { s.setLease i .notifying with word := s.word - 1 }
  | subtract (hpc : pc = .subtracting) (hmore : s.word ≠ kClosed + 1) :
      LeaseMove s i pc { s.setLease i .unlocking with word := s.word - 1 }
  | notify (hpc : pc = .notifying) : LeaseMove s i pc (s.notifyAll.setLease i .unlocking)
  | unlock (hpc : pc = .unlocking) :
      LeaseMove s i pc { s.setLease i .released with mu := none }

/-- A step of `acquire` or `release` is one of the moves. -/
theorem leaseMove_of_leaseStep {s s' : State} {i : Nat} {spurious : Bool}
    (h : s.leaseStep i spurious = some s') :
    ∃ pc, s.leases[i]? = some pc ∧ LeaseMove s i pc s' := by
  unfold State.leaseStep at h
  cases hpc : s.leases[i]? with
  | none => simp [hpc] at h
  | some pc =>
    refine ⟨pc, rfl, ?_⟩
    rw [hpc] at h
    cases pc with
    | entered => cases h; exact .walk _ rfl rfl rfl id nofun nofun
    | loaded state =>
      simp only at h
      split at h
      · cases h; exact .walk .refused rfl rfl rfl nofun nofun nofun
      next hopen =>
        split at h <;> cases h
        next hcas =>
          rw [← hcas.1] at hopen ⊢
          exact .grant rfl (Bool.eq_false_iff.mpr hopen)
        · exact .walk (.loaded s.word) rfl rfl rfl id nofun nofun
    | live => cases h; exact .walk .releasing rfl rfl rfl id nofun nofun
    | releasing =>
      cases h
      refine .walk (.releaseLoaded s.word) rfl rfl rfl id nofun ?_
      rintro _ ⟨⟩
      rfl
    | releaseLoaded state =>
      simp only at h
      split at h
      next hclosed =>
        cases h
        exact .walk .locking rfl rfl rfl id (fun _ => ⟨state, rfl, hclosed⟩) nofun
      next hopen =>
        split at h <;> cases h
        next hcas =>
          rw [← hcas.1] at hopen ⊢
          exact .giveBack rfl (Bool.eq_false_iff.mpr hopen)
        · refine .walk (.releaseLoaded s.word) rfl rfl rfl id nofun ?_
          rintro _ ⟨⟩
          rfl
    | locking =>
      simp only at h
      split at h <;> cases h
      exact .lock rfl (not_not.mp ‹_›)
    | subtracting =>
      simp only at h
      split at h <;> cases h
      · exact .subtractLast rfl ‹_›
      · exact .subtract rfl ‹_›
    | notifying => cases h; exact .notify rfl
    | unlocking => cases h; exact .unlock rfl
    | refused | released => cases h

/-- The moves of the `stop` call `j`, whose record is `x`. -/
inductive StopMove (s : State) (j : Nat) (x : StopCall) : State → Prop
  | lock (hpc : x.pc = .locking) (hmu : s.mu = none) :
      StopMove s j x { s.setStop j { x with pc := .closing } with mu := some (.stop j) }
  | close (hpc : x.pc = .closing) :
      StopMove s j x { s.setStop j { x with pc := .waiting .firstCheck } with
        word := s.word ||| kClosed }
  /-- A step of the wait. -/
  | wait (pc pc' : WaitPc) (fails armed : Bool) (hpc : x.pc = .waiting pc)
      (hstep : WaitPc.Steps (s.view x fails) pc pc') :
      StopMove s j x { s.setStop j { x with pc := .waiting pc', armed := armed } with
        mu := if pc'.holds then some (.stop j) else if pc.holds then none else s.mu }
  | finish (pc : WaitPc) (pc' : StopPc) (hpc : x.pc = .waiting pc)
      (hend : StopPc.afterWait pc = some pc') :
      StopMove s j x { s.setStop j { x with pc := pc' } with mu := none }

/-- A step of `stop` is one of the moves. -/
theorem stopMove_of_stopStep {s s' : State} {j : Nat} {fails : Bool}
    (h : s.stopStep j fails = some s') : ∃ x, s.stops[j]? = some x ∧ StopMove s j x s' := by
  unfold State.stopStep at h
  split at h
  · cases h
  next x hx =>
    refine ⟨x, hx, ?_⟩
    split at h
    · split at h <;> cases h
      exact .lock ‹_› (not_not.mp ‹_›)
    · cases h; exact .close ‹_›
    · split at h
      · cases h; exact .finish _ _ ‹_› ‹_›
      · obtain ⟨pc', hpc', rfl⟩ := Option.map_eq_some_iff.mp h
        exact .wait _ pc' fails _ ‹_› (WaitPc.steps_of_step hpc').1
    · cases h
    · cases h
    · cases h

end ServiceLib.Admission
