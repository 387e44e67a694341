import ServiceLib.Lib.ThreadList
import ServiceLib.Store.JoinStep

namespace ServiceLib.Join

/-!
# Join storage — arming and firing an item's expiry

How an item expires is written by the call that holds its lock, in `armExpiryLocked` and in the
renewal around it, while its stop callback and its expiry coroutines look on.  This module says
what the threads do to that part of the items.
-/

/-- The part of an item that says how it expires. -/
structure Arming where
  deadline : Option Time
  generation : Nat
  armedGeneration : Nat
  cancelledGeneration : Nat
  cancelCallback : Option Subscription
  processed : Bool

def Item.arming {K V : Type} (it : Item K V) : Arming :=
  ⟨it.deadline, it.generation, it.armedGeneration, it.cancelledGeneration, it.cancelCallback,
    it.processed⟩

/-- The item whose expiry a call is arming. -/
def JoinPc.arms : JoinPc → Option ItemId
  | .renewing i _ | .subscribing i _ | .inlineScheduling i _ | .spawning i _ | .arming i _
  | .rechecking i _ | .scheduling i _ | .restoring i _ _ => some i
  | _ => none

/-- The item for whose new generation a call has not started a coroutine. -/
def JoinPc.unspawned : JoinPc → Option ItemId
  | .renewing i _ | .subscribing i _ | .inlineScheduling i _ | .spawning i _
  | .restoring i _ _ => some i
  | _ => none

/-- What a renewal that has not started its coroutine puts back if it fails. -/
def JoinPc.rollsBack : JoinPc → Option (ItemId × Saved)
  | .renewing i saved | .subscribing i (.renewal saved) | .inlineScheduling i (.renewal saved)
  | .spawning i (.renewal saved) | .restoring i saved _ => some (i, saved)
  | _ => none

variable {K V : Type} [DecidableEq K] {s s' : State K V}

def State.armings (s : State K V) : List Arming := s.items.map Item.arming

theorem armings_getElem? (i : ItemId) : s.armings[i]? = s.items[i]?.map Item.arming :=
  List.getElem?_map ..

variable {it : Item K V} {i : ItemId} {j : JoinCall K V} {c : CallId} {o : Outcome V}

theorem armings_of_item (h : s.items[i]? = some it) : s.armings[i]? = some it.arming := by
  rw [armings_getElem?, h]
  rfl

/-- Writing an item writes its arming. -/
theorem armings_set {a : Arming} (h : s'.items = s.items.set i it := by rfl)
    (ha : it.arming = a := by rfl) : s'.armings = s.armings.set i a := by
  unfold State.armings
  rw [h, List.map_set, ha]

/-- A write that leaves the arming alone. -/
theorem armings_same {it' : Item K V} (hit : s.items[i]? = some it)
    (h : s'.items = s.items.set i it' := by rfl) (hsame : it'.arming = it.arming := by rfl) :
    s'.armings = s.armings := by
  obtain ⟨hlt, heq⟩ := List.getElem?_eq_some_iff.mp (armings_of_item hit)
  rw [armings_set h hsame, ← heq, List.set_getElem_self]

/-! ### joinValue -/

/-- What a step of `joinValue` with outcome `o` does to the arming of the items and to the expiry
    coroutines. -/
inductive JoinMove (s : State K V) (j : JoinCall K V) (o : Outcome V) (s' : State K V)
    (j' : JoinCall K V) : Prop
  /-- The call arms nothing and goes on arming nothing. -/
  | idle : j.pc.arms = none → j'.pc.arms = none →
      (∀ deadline, j'.pc = .inserting deadline → j'.ttl > 0 → deadline.isSome) →
      s'.armings = s.armings → s'.expiryTasks = s.expiryTasks → JoinMove s j o s' j'
  | create (deadline : Option Time) : j.pc = .inserting deadline →
      s.findItemLocked j.key = none → o.fails = false →
      j'.pc = (if deadline.isSome then .subscribing s.armings.length .creation
        else .inspecting s.armings.length true) →
      s'.armings = s.armings ++
        [⟨deadline, if deadline.isSome then 1 else 0, 0, 0, none, false⟩] →
      s'.expiryTasks = s.expiryTasks → JoinMove s j o s' j'
  /-- The item is marked, or was. -/
  | mark (i : ItemId) (a a' : Arming) : s.armings[i]? = some a →
      s'.armings = s.armings.set i a' → j.pc.arms = none ∨ j.pc.unspawned = some i →
      j'.pc.arms = none → (∀ deadline, j'.pc ≠ .inserting deadline) → a'.processed →
      a.generation ≤ a'.generation → a'.deadline = a.deadline →
      s'.expiryTasks = s.expiryTasks → JoinMove s j o s' j'
  | renew (i : ItemId) (a : Arming) (deadline : Time) : s.armings[i]? = some a →
      a.processed = false → j.pc = .inspecting i false →
      j'.pc = .renewing i
        ⟨a.deadline, a.generation, a.armedGeneration, a.cancelledGeneration⟩ →
      s'.armings = s.armings.set i
        { a with deadline := some deadline, generation := a.generation + 1 } →
      s'.expiryTasks = s.expiryTasks → JoinMove s j o s' j'
  | reset (i : ItemId) (a : Arming) (saved : Saved) : s.armings[i]? = some a →
      j.pc = .renewing i saved → j'.pc = .subscribing i (.renewal saved) →
      s'.armings = s.armings.set i { a with cancelCallback := none } →
      s'.expiryTasks = s.expiryTasks → JoinMove s j o s' j'
  /-- The stop callback is registered, or invoked at once. -/
  | subscribe (i : ItemId) (p : ArmFor) (a : Arming) (pc : SubPc) (cancelled : Nat) :
      s.armings[i]? = some a → j.pc = .subscribing i p →
      (pc = .waiting ∧ cancelled = a.cancelledGeneration ∧ j'.pc = .spawning i p) ∨
        (pc = .finished ∧ cancelled = max a.cancelledGeneration a.generation ∧
          j'.pc = if a.generation ≤ a.armedGeneration then .inlineScheduling i p
            else .spawning i p) →
      s'.armings = s.armings.set i { a with
        cancelCallback := some ⟨j.ctx.stopToken, a.generation, pc⟩
        cancelledGeneration := cancelled } →
      s'.expiryTasks = s.expiryTasks → JoinMove s j o s' j'
  /-- A renewal fails in `armExpiryLocked`. -/
  | fail (i : ItemId) (saved : Saved) (e : JoinError) :
      (j.pc = .subscribing i (.renewal saved) ∧ o.fails) ∨
        (j.pc = .spawning i (.renewal saved) ∧
          (o.fails ∨ (s.lifeState ≠ .running ∧ s.lifeState ≠ .stopping))) →
      j'.pc = .restoring i saved e → s'.armings = s.armings →
      s'.expiryTasks = s.expiryTasks → JoinMove s j o s' j'
  | inline (i : ItemId) (p : ArmFor) (a : Arming) : s.armings[i]? = some a →
      j.pc = .inlineScheduling i p → j'.pc = .spawning i p → s'.armings = s.armings →
      s'.expiryTasks = s.expiryTasks ∨
        s'.expiryTasks = s.expiryTasks ++ [⟨i, a.generation, .woken⟩] → JoinMove s j o s' j'
  | spawn (i : ItemId) (p : ArmFor) (a : Arming) (deadline : Time) : s.armings[i]? = some a →
      j.pc = .spawning i p → j'.pc = .arming i p → s'.armings = s.armings →
      s'.expiryTasks = s.expiryTasks ++ [⟨i, a.generation, .sleeping deadline⟩] →
      JoinMove s j o s' j'
  | arm (i : ItemId) (p : ArmFor) (a : Arming) : s.armings[i]? = some a →
      j.pc = .arming i p → j'.pc = .rechecking i p →
      s'.armings = s.armings.set i { a with armedGeneration := a.generation } →
      s'.expiryTasks = s.expiryTasks → JoinMove s j o s' j'
  | recheck (i : ItemId) (p : ArmFor) (a : Arming) : s.armings[i]? = some a →
      j.pc = .rechecking i p →
      j'.pc = (if a.generation ≤ a.cancelledGeneration then .scheduling i p
        else State.armed i p) →
      s'.armings = s.armings → s'.expiryTasks = s.expiryTasks → JoinMove s j o s' j'
  | schedule (i : ItemId) (p : ArmFor) (a : Arming) : s.armings[i]? = some a →
      j.pc = .scheduling i p → j'.pc = State.armed i p → s'.armings = s.armings →
      s'.expiryTasks = (if s.lifeState = .running ∧ o.fails = false then
        s.expiryTasks ++ [⟨i, a.generation, .woken⟩] else s.expiryTasks) → JoinMove s j o s' j'
  | restore (i : ItemId) (saved : Saved) (e : JoinError) (a : Arming) : s.armings[i]? = some a →
      j.pc = .restoring i saved e → j'.pc = .leaving (some e) →
      s'.armings = s.armings.set i { a with
        cancelCallback := none
        deadline := saved.deadline
        generation := saved.generation
        armedGeneration := saved.armedGeneration
        cancelledGeneration := saved.cancelledGeneration } →
      s'.expiryTasks = s.expiryTasks → JoinMove s j o s' j'

/-- What a step of call `c` does, with the call as it is afterwards. -/
def CallMoved (s : State K V) (c : CallId) (j : JoinCall K V) (o : Outcome V)
    (s' : State K V) : Prop :=
  ∃ j', s'.calls = s.calls.set c j' ∧ j'.ctx = j.ctx ∧
    s'.expiryCancelled = s.expiryCancelled ∧ JoinMove s j o s' j'

/-- A step that only moves the program point. -/
theorem CallMoved.of_pc {pc : JoinPc} (hcalls : s'.calls = s.calls.set c { j with pc := pc })
    (h : JoinMove s j o s' { j with pc := pc })
    (hcancel : s'.expiryCancelled = s.expiryCancelled := by rfl) : CallMoved s c j o s' :=
  ⟨_, hcalls, rfl, hcancel, h⟩

/-- `scheduleExpiryNow` leaves everything but the coroutines. -/
theorem scheduleExpiryNow_eq (s : State K V) (i : ItemId) (generation : Nat) (fails : Bool) :
    s.scheduleExpiryNow i generation fails = { s with
      expiryTasks := if s.lifeState = .running ∧ fails = false then
        s.expiryTasks ++ [⟨i, generation, .woken⟩] else s.expiryTasks } := by
  unfold State.scheduleExpiryNow State.spawnExpiry
  by_cases hrun : s.lifeState = .running
  · rw [if_neg (fun h => h hrun)]
    cases fails with
    | true => rw [if_pos rfl, if_neg (fun h => nomatch h.2)]
    | false => rw [if_neg Bool.false_ne_true, if_pos ⟨hrun, rfl⟩]
  · rw [if_pos hrun, if_neg (fun h => hrun h.1)]

/-! ### Coroutines that have still to look -/

/-- Whether an expiry coroutine is awake and has still to look at its item. -/
def ExpiryPc.firing : ExpiryPc → Bool
  | .woken | .upgrading | .locking | .inspecting => true
  | _ => false

/-- Whether it has still to look at its item, awake or not. -/
def ExpiryPc.armed : ExpiryPc → Bool
  | .sleeping _ => true
  | pc => pc.firing

theorem ExpiryPc.armed_of_firing {pc : ExpiryPc} (h : pc.firing) : pc.armed := by
  cases pc <;> first | rfl | cases h

/-! ### Stop callbacks and coroutines -/

/-- What a step of the stop callback of item `i` does. -/
inductive CancelMove (s : State K V) (i : ItemId) (fails : Bool) (s' : State K V) : Prop
  | publish (a : Arming) (b : Subscription) : s.armings[i]? = some a →
      a.cancelCallback = some b → b.pc = .waiting →
      s'.armings = s.armings.set i { a with
        cancelledGeneration := max a.cancelledGeneration b.generation
        cancelCallback := some { b with pc := .checking } } →
      s'.expiryTasks = s.expiryTasks → CancelMove s i fails s'
  /-- The item is gone. -/
  | gone (a : Arming) (b : Subscription) : s.armings[i]? = some a →
      a.cancelCallback = some b → s.alive i = false →
      s'.armings = s.armings.set i { a with
        cancelCallback := some { b with pc := .finished } } →
      s'.expiryTasks = s.expiryTasks → CancelMove s i fails s'
  | check (a : Arming) (b : Subscription) : s.armings[i]? = some a →
      a.cancelCallback = some b → b.pc = .checking →
      s'.armings = s.armings.set i { a with cancelCallback := some { b with
        pc := if b.generation ≤ a.armedGeneration then .scheduling else .finished } } →
      s'.expiryTasks = s.expiryTasks → CancelMove s i fails s'
  | schedule (a : Arming) (b : Subscription) : s.armings[i]? = some a →
      a.cancelCallback = some b → b.pc = .scheduling →
      s'.armings = s.armings.set i { a with
        cancelCallback := some { b with pc := .finished } } →
      s'.expiryTasks = (if s.lifeState = .running ∧ fails = false then
        s.expiryTasks ++ [⟨i, b.generation, .woken⟩] else s.expiryTasks) →
      CancelMove s i fails s'

/-- What a step of expiry coroutine `x` to `pc` does. -/
inductive ExpiryMove (s : State K V) (x : ExpiryTask) (pc : ExpiryPc) (s' : State K V) : Prop
  /-- It comes closer to looking at its item. -/
  | advance : x.pc.armed → pc.firing → s'.armings = s.armings →
      ExpiryMove s x pc s'
  | quit : s.expiryCancelled ∨ s.alive x.item = false → s'.armings = s.armings →
      ExpiryMove s x pc s'
  /-- The item is not its own any more. -/
  | skip (a : Arming) : x.pc = .inspecting → s.armings[x.item]? = some a →
      a.processed ∨ a.generation ≠ x.generation → s'.armings = s.armings →
      ExpiryMove s x pc s'
  | mark (a : Arming) : x.pc = .inspecting → s.armings[x.item]? = some a →
      a.generation = x.generation →
      s'.armings = s.armings.set x.item { a with processed := true } → ExpiryMove s x pc s'
  | release (a : Arming) : x.pc.armed = false → s.armings[x.item]? = some a →
      a.processed → s'.armings = s.armings.set x.item { a with cancelCallback := none } →
      ExpiryMove s x pc s'
  /-- What follows once the item is marked. -/
  | finish : x.pc.armed = false → s'.armings = s.armings → ExpiryMove s x pc s'

end ServiceLib.Join
