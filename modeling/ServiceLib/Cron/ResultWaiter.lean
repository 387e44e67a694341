import Mathlib.Logic.Function.Basic
import ServiceLib.Lib.Transition

namespace ServiceLib.Cron.ResultWaiter

open Function (update)

/-!
# The cron result waiter

`ResultWaiter` of `datasource/cron/libcron.hpp`: `begin` registers an activation under its stream
ID, `complete` looks it up and ends it once, `wait` sleeps until then and unregisters it.

* A `Pending` is known by the number of its `begin`, which tells two activations under one stream
  ID apart.
* The lookup of `complete` and its `exchange` are separate steps, and so are the end of the wait
  and the erasure; `Send` comes with the return that follows it.
* The event resets itself when a wait consumes it, as `SingleConsumerEvent` does; a wait may also
  end without it, when its task is cancelled.
-/

open Option Function

inductive Completion
  | completed | missing | duplicate
  deriving DecidableEq, Repr

/-- An activation; `done` also says which call set the flag. -/
structure Pending where
  done : Option Nat := none
  completed : Bool := false
  deriving DecidableEq, Repr

/-- Where a call of `complete` or of `wait` is. -/
inductive Call
  | idle
  | completing (streamId : String)
  | found (i : Nat)
  | sending (i : Nat)
  | completeReturned (entry : Option Nat) (result : Completion)
  | waiting (streamId : String) (i : Nat)
  | erasing (streamId : String) (i : Nat) (completed : Bool)
  | waitReturned (i : Nat) (completed : Bool)
  deriving DecidableEq, Repr

/-- The map of the waiter, the activations `begin` has made, and every call. -/
structure State where
  pending : String → Option Nat := fun _ => none
  begun : Nat := 0
  pendings : Nat → Pending := fun _ => {}
  calls : Nat → Call := fun _ => .idle

inductive Action
  | begin (streamId : String)
  | complete (t : Nat) (streamId : String)
  | wait (t : Nat) (streamId : String) (i : Nat)
  | cancel (streamId : String) (i : Nat)
  | move (t : Nat)
  | interrupt (t : Nat)
  deriving DecidableEq, Repr

/-! ### The operations -/

/-- `begin`; a call that throws changes nothing. -/
def State.begin (s : State) (streamId : String) : State :=
  if streamId = "" ∨ (s.pending streamId).isSome then s
  else { s with pending := update s.pending streamId (some s.begun), begun := s.begun + 1 }

def State.erase (s : State) (streamId : String) (i : Nat) : State :=
  if s.pending streamId = some i then { s with pending := update s.pending streamId none } else s

def State.goto (s : State) (t : Nat) (c : Call) : State := { s with calls := update s.calls t c }

def State.write (s : State) (i : Nat) (p : Pending) : State :=
  { s with pendings := update s.pendings i p }

variable {s s' : State} {t i : Nat} {a c : Call}

@[simp] theorem goto_calls (u : Nat) :
    (s.goto t c).calls u = if u = t then c else s.calls u := update_apply ..

@[simp] theorem write_pendings (p : Pending) (j : Nat) :
    (s.write i p).pendings j = if j = i then p else s.pendings j := update_apply ..

/-- The next step of call `t`. -/
def State.move (s : State) (t : Nat) : Option State :=
  match s.calls t with
  | .completing streamId =>
    match s.pending streamId with
    | none => some (s.goto t (.completeReturned none .missing))
    | some i => some (s.goto t (.found i))
  | .found i =>
    if (s.pendings i).done.isSome then some (s.goto t (.completeReturned (some i) .duplicate))
    else some ((s.write i { s.pendings i with done := some t }).goto t (.sending i))
  | .sending i =>
    some ((s.goto t (.completeReturned (some i) .completed)).write i
      { s.pendings i with completed := true })
  | .waiting streamId i =>
    if (s.pendings i).completed then
      some ((s.goto t (.erasing streamId i true)).write i { s.pendings i with completed := false })
    else none
  | .erasing streamId i completed => some ((s.goto t (.waitReturned i completed)).erase streamId i)
  | .idle | .completeReturned .. | .waitReturned .. => none

def step (s : State) : Action → Option State
  | .begin streamId => some (s.begin streamId)
  | .complete t streamId =>
    if s.calls t = .idle then some (s.goto t (.completing streamId)) else none
  | .wait t streamId i =>
    if s.calls t = .idle ∧ i < s.begun then some (s.goto t (.waiting streamId i)) else none
  | .cancel streamId i => if i < s.begun then some (s.erase streamId i) else none
  | .move t => s.move t
  | .interrupt t =>
    match s.calls t with
    | .waiting streamId i => some (s.goto t (.erasing streamId i false))
    | _ => none

def waiterSystem : System State Action := ⟨{}, step⟩

/-! ### Who ends an activation -/

/-- Some `complete` reported that it completed activation `i`. -/
def State.Reported (s : State) (i : Nat) : Prop :=
  ∃ t, s.calls t = .completeReturned (some i) .completed

/-- What is known about call `t`. -/
def State.Good (s : State) (t : Nat) : Call → Prop
  | .sending i => (s.pendings i).done = some t
  | .completeReturned (some i) result =>
    result ≠ .missing ∧ (result = .completed → (s.pendings i).done = some t)
  | .erasing _ i completed | .waitReturned i completed => completed → s.Reported i
  | _ => True

/-- Whose `exchange` ended an activation, and that the event comes from there. -/
structure Inv (s : State) : Prop where
  calls : ∀ t, s.Good t (s.calls t)
  events : ∀ i, (s.pendings i).completed → s.Reported i

theorem State.Good.mono (hdone : ∀ i, (s.pendings i).done = some t → (s'.pendings i).done = some t)
    (hreported : ∀ i, s.Reported i → s'.Reported i) (h : s.Good t c) : s'.Good t c := by
  cases c with
  | sending i => exact hdone i h
  | completeReturned entry result =>
    cases entry with
    | none => trivial
    | some i => exact ⟨h.1, fun hr => hdone i (h.2 hr)⟩
  | erasing _ i _ | waitReturned i _ => exact fun hc => hreported i (h hc)
  | idle | completing | found | waiting => trivial

section

variable (h : Inv s)
include h

/-- An activation changes, and keeps who ended it; its event is reported. -/
theorem Inv.write {p : Pending} (hdone : ∀ t, (s.pendings i).done = some t → p.done = some t)
    (hevent : p.completed → s.Reported i) : Inv (s.write i p) where
  calls t := by
    refine State.Good.mono (s := s) (fun j hj => ?_) (fun _ => id) (h.calls t)
    rw [write_pendings]
    split
    next hji => exact hdone t (hji ▸ hj)
    next => exact hj
  events j hj := by
    rw [write_pendings] at hj
    split at hj
    next hji => exact hji ▸ hevent hj
    next => exact h.events j hj

/-- A call that has not returned yet moves; no report is lost. -/
theorem Inv.goto (ht : s.calls t = a)
    (ha : ∀ entry result, a ≠ .completeReturned entry result) (hc : s.Good t c) :
    Inv (s.goto t c) := by
  have hreported : ∀ i, s.Reported i → (s.goto t c).Reported i := by
    rintro i ⟨u, hu⟩
    have hne : u ≠ t := by
      rintro rfl
      exact ha _ _ (ht.symm.trans hu)
    exact ⟨u, by rw [goto_calls, if_neg hne, hu]⟩
  refine ⟨fun u => ?_, fun i hi => hreported i (h.events i hi)⟩
  rw [goto_calls]
  split
  next hut =>
    subst hut
    exact State.Good.mono (s := s) (fun _ => id) hreported hc
  next => exact State.Good.mono (s := s) (fun _ => id) hreported (h.calls u)

/-- The map is not part of it. -/
theorem Inv.setPending (pending : String → Option Nat) (begun : Nat) :
    Inv { s with pending, begun } :=
  ⟨fun t => State.Good.mono (s := s) (fun _ => id) (fun _ => id) (h.calls t), h.events⟩

theorem Inv.erase (streamId : String) (i : Nat) : Inv (s.erase streamId i) := by
  unfold State.erase
  split
  · exact h.setPending _ _
  · exact h

theorem Inv.begin (streamId : String) : Inv (s.begin streamId) := by
  unfold State.begin
  split
  · exact h
  · exact h.setPending _ _

/-- A step of a thread inside the waiter. -/
theorem Inv.move (hs : s.move t = some s') : Inv s' := by
  have hgood := h.calls t
  unfold State.move at hs
  cases ht : s.calls t with
  | completing streamId =>
    rw [ht] at hs
    dsimp only at hs
    split at hs <;> cases hs <;> exact h.goto ht (by rintro _ _ ⟨⟩) trivial
  | found i =>
    rw [ht] at hs
    dsimp only at hs
    split at hs <;> cases hs
    · exact h.goto ht (by rintro _ _ ⟨⟩) ⟨by rintro ⟨⟩, by rintro ⟨⟩⟩
    next hdone =>
    have hwrite := h.write (i := i) (p := { s.pendings i with done := some t })
      (fun u hu => absurd (by rw [hu]; rfl) hdone) (h.events i)
    refine hwrite.goto ht (by rintro _ _ ⟨⟩) ?_
    rw [State.Good, write_pendings, if_pos rfl]
  | sending i =>
    rw [ht] at hs hgood
    cases hs
    have hgoto := h.goto (c := .completeReturned (some i) .completed) ht (by rintro _ _ ⟨⟩)
      ⟨by rintro ⟨⟩, fun _ => hgood⟩
    exact hgoto.write (fun _ => id) (fun _ => ⟨t, by rw [goto_calls, if_pos rfl]⟩)
  | waiting streamId i =>
    rw [ht] at hs
    dsimp only at hs
    split at hs <;> cases hs
    next hsent =>
    have hgoto := h.goto (c := .erasing streamId i true) ht (by rintro _ _ ⟨⟩)
      (fun _ => h.events i hsent)
    exact hgoto.write (fun _ => id) (by simp)
  | erasing streamId i completed =>
    rw [ht] at hs hgood
    cases hs
    exact (h.goto (c := .waitReturned i completed) ht (by rintro _ _ ⟨⟩) hgood).erase streamId i
  | idle | completeReturned | waitReturned =>
    simp [ht] at hs

/-- Every step keeps the invariant. -/
theorem Inv.step {a : Action} (hs : step s a = some s') : Inv s' := by
  cases a with
  | begin streamId =>
    cases hs
    exact h.begin streamId
  | complete t streamId =>
    simp only [ResultWaiter.step] at hs
    split at hs <;> cases hs
    next ht => exact h.goto ht (by rintro _ _ ⟨⟩) trivial
  | wait t streamId i =>
    simp only [ResultWaiter.step] at hs
    split at hs <;> cases hs
    next ht => exact h.goto ht.1 (by rintro _ _ ⟨⟩) trivial
  | cancel streamId i =>
    simp only [ResultWaiter.step] at hs
    split at hs <;> cases hs
    exact h.erase streamId i
  | move t => exact h.move hs
  | interrupt t =>
    simp only [ResultWaiter.step] at hs
    split at hs <;> cases hs
    next ht => exact h.goto ht (by rintro _ _ ⟨⟩) (by rintro ⟨⟩)

end

/-- The invariant, in every run. -/
theorem inv_of_reachable (h : waiterSystem.Reachable s) : Inv s :=
  h.invariant (S := waiterSystem) ⟨fun _ => trivial, by rintro _ ⟨⟩⟩ (fun _ ih _ hs => ih.step hs)

/-! ### Who erases an entry -/

/-- `erase` removes the registration it is called for. -/
theorem erase_pending {streamId id : String} {j : Nat} (hs : s.pending id = some i)
    (hs' : (s.erase streamId j).pending id ≠ some i) : id = streamId ∧ i = j := by
  unfold State.erase at hs'
  split at hs'
  next hj =>
    by_cases hid : id = streamId
    · subst hid
      exact ⟨rfl, some.inj (hs.symm.trans hj)⟩
    · dsimp only at hs'
      exact absurd (by rw [update_of_ne hid, hs]) hs'
  next => exact absurd hs hs'

/-- `begin` replaces no registration. -/
theorem begin_pending {streamId id : String} (hs : s.pending id = some i) :
    (s.begin streamId).pending id = some i := by
  unfold State.begin
  split
  · exact hs
  next hfree =>
    have hid : id ≠ streamId := by
      rintro rfl
      exact hfree (.inr (by rw [hs]; rfl))
    dsimp only
    rw [update_of_ne hid, hs]

/-- Moving, a call leaves the map alone or erases what it waited for. -/
theorem move_pending (hs : s.move t = some s') : s'.pending = s.pending ∨
    ∃ id i completed, s.calls t = .erasing id i completed ∧
      s' = (s.goto t (.waitReturned i completed)).erase id i := by
  unfold State.move at hs
  split at hs
  case h_5 ht => exact .inr ⟨_, _, _, ht, (some.inj hs).symm⟩
  all_goals try split at hs
  all_goals cases hs
  all_goals exact .inl rfl

/-- An entry goes away only when the call that it belongs to erases it. -/
theorem step_erases {a : Action} {id : String} (hstep : step s a = some s')
    (hs : s.pending id = some i) (hs' : s'.pending id ≠ some i) :
    a = .cancel id i ∨ ∃ t completed, a = .move t ∧ s.calls t = .erasing id i completed := by
  cases a with
  | begin streamId =>
    cases hstep
    exact absurd (begin_pending hs) hs'
  | cancel streamId j =>
    simp only [step] at hstep
    split at hstep <;> cases hstep
    obtain ⟨rfl, rfl⟩ := erase_pending hs hs'
    exact .inl rfl
  | move t =>
    rcases move_pending hstep with heq | ⟨streamId, j, completed, ht, rfl⟩
    · exact absurd (heq ▸ hs) hs'
    · obtain ⟨rfl, rfl⟩ := erase_pending (s := s.goto t _) hs hs'
      exact .inr ⟨t, completed, rfl, ht⟩
  | complete | wait | interrupt =>
    simp only [step] at hstep
    split at hstep <;> cases hstep
    exact absurd hs hs'

/-- **Cron result waiter.**  In every run at most one `complete` reports an activation completed
    and every other one that found it reports a duplicate; a wait that returned normally belongs to
    an activation that was reported completed; and an entry goes away only when its own wait ends
    or is cancelled. -/
theorem resultWaiter_owned (h : waiterSystem.Reachable s) :
    (∀ i t r u, s.calls t = .completeReturned (some i) r →
      s.calls u = .completeReturned (some i) .completed → u ≠ t → r = .duplicate) ∧
    (∀ i t r, s.calls t = .completeReturned (some i) r → r = .completed ∨ r = .duplicate) ∧
    (∀ i t, s.calls t = .waitReturned i true →
      ∃ u, s.calls u = .completeReturned (some i) .completed) ∧
    ∀ a s' id i, waiterSystem.step s a = some s' → s.pending id = some i →
      s'.pending id ≠ some i →
      a = .cancel id i ∨ ∃ t completed, a = .move t ∧ s.calls t = .erasing id i completed := by
  have hinv := inv_of_reachable h
  have hresult : ∀ i t r, s.calls t = .completeReturned (some i) r →
      r ≠ .missing ∧ (r = .completed → (s.pendings i).done = some t) := fun i t r ht => by
    have hgood := hinv.calls t
    rwa [ht] at hgood
  refine ⟨fun i t r u ht hu hne => ?_, fun i t r ht => ?_, fun i t ht => ?_, ?_⟩
  · cases r with
    | completed =>
      -- the flag remembers one call only
      have hdone := ((hresult i u _ hu).2 rfl).symm.trans ((hresult i t _ ht).2 rfl)
      exact absurd (some.inj hdone) hne
    | missing => exact absurd rfl (hresult i t _ ht).1
    | duplicate => rfl
  · cases r with
    | completed => exact .inl rfl
    | missing => exact absurd rfl (hresult i t _ ht).1
    | duplicate => exact .inr rfl
  · have hgood := hinv.calls t
    rw [ht] at hgood
    exact hgood rfl
  · exact fun a s' id i hstep hs hs' => step_erases hstep hs hs'

/-- One stream ID used twice: the first wait erases its entry only after the second began. -/
theorem resultWaiter_owned_reused :
    ∃ s, waiterSystem.Reachable s ∧ s.calls 2 = .waitReturned 0 true ∧ s.pending "a" = some 1 ∧
      ∃ u, s.calls u = .completeReturned (some 0) .completed := by
  obtain ⟨s, hs, hwait, hpending⟩ := waiterSystem.exists_reachable_of_run
    [.begin "a", .complete 0 "a", .complete 1 "a", .move 0, .move 1, .wait 2 "a" 0, .move 1,
      .move 0, .move 1, .cancel "a" 0, .begin "a", .move 2, .move 2]
    (fun s => s.calls 2 = .waitReturned 0 true ∧ s.pending "a" = some 1) (by decide)
  exact ⟨s, hs, hwait, hpending, (resultWaiter_owned hs).2.2.1 0 2 hwait⟩

end ServiceLib.Cron.ResultWaiter
