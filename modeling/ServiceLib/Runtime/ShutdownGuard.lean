import ServiceLib.Lib.Transition

namespace ServiceLib.ShutdownGuard

/-!
# The process shutdown guard — the deadline its waiter acts on

`ProcessShutdownGuard` of `runtime/process_shutdown.hpp`: any thread may `arm` the guard with a
deadline, a native thread sleeps on a copy of the effective one and ends the process when it has
passed.  Everything happens under the guard's mutex, so a critical section is one step; `arm` and
the two ends of the guard's life also exclude each other through the registry mutex.

* A wait returns at any time (spuriously or notified); a wait with a deadline reports a time-out
  only once the clock has reached that deadline.  Either way the predicate is looked at again.
* Points in time are integers, and the clock never goes back.
-/

/-- The life of the guard; `instance_` is set while it is `installed`.  The destructor holds the
    registry mutex while it is `unregistered`. -/
inductive Phase
  | constructing | installed | unregistered | destroyed
  deriving DecidableEq, Repr

/-- Where the waiter thread is. -/
inductive WaiterPc
  | loop
  | waiting
  | waitingUntil (deadline : Int)
  | returned
  deriving DecidableEq, Repr

structure State where
  phase : Phase := .constructing
  deadline : Option Int := none
  finished : Bool := false
  exitCode : Int := 0
  waiter : WaiterPc := .loop
  now : Int := 0
  /-- The code `std::_Exit` was called with. -/
  exited : Option Int := none
  deriving DecidableEq, Repr

/-! ### The operations -/

/-- `deadline_` after a call of `arm`. -/
def earlier : Option Int → Option Int → Option Int
  | some deadline, some current => if deadline < current then some deadline else some current
  | some deadline, none => some deadline
  | none, current => current

/-- `arm`, with the deadline it returns. -/
def State.arm (s : State) (deadline : Option Int) (exitCode : Int) : State × Option Int :=
  if s.phase ≠ .installed then (s, deadline)
  else
    ({ s with
        deadline := earlier deadline s.deadline
        exitCode := if exitCode ≠ 0 then exitCode else s.exitCode },
      earlier deadline s.deadline)

/-- The waiter up to its next wait, or one return from the wait it is in. -/
def State.wait (s : State) (timedOut : Bool) : Option State :=
  match s.waiter with
  | .loop =>
    if s.finished then some { s with waiter := .returned }
    else match s.deadline with
      | none => some { s with waiter := .waiting }
      | some deadline => some { s with waiter := .waitingUntil deadline }
  | .waiting =>
    if s.finished || s.deadline.isSome then some { s with waiter := .loop } else some s
  | .waitingUntil deadline =>
    if timedOut && decide (s.now < deadline) then none
    else if s.finished || s.deadline ≠ some deadline then some { s with waiter := .loop }
    else if timedOut then some { s with exited := some s.exitCode }
    else some s
  | .returned => none

inductive Action
  | tick (elapsed : Nat)
  | install
  | arm (deadline : Option Int) (exitCode : Int)
  | unregister
  | finish
  | wait (timedOut : Bool)
  deriving DecidableEq, Repr

def step (s : State) (a : Action) : Option State :=
  -- nothing runs after `std::_Exit`
  if s.exited.isSome then none
  else match a with
  | .tick elapsed => some { s with now := s.now + elapsed }
  | .install => if s.phase = .constructing then some { s with phase := .installed } else none
  | .arm deadline exitCode =>
    if s.phase = .unregistered then none else some (s.arm deadline exitCode).1
  | .unregister => if s.phase = .installed then some { s with phase := .unregistered } else none
  | .finish =>
    if s.phase = .unregistered then some { s with phase := .destroyed, finished := true } else none
  | .wait timedOut => s.wait timedOut

def guardSystem : System State Action := ⟨{}, step⟩

/-! ### The effective deadline -/

/-- The deadline an action arms the guard with. -/
def armedBy (s : State) : Action → Option Int
  | .arm deadline _ => if s.phase = .installed then deadline else none
  | _ => none

variable {s s' : State} {a : Action}

/-- The process ends only when the deadline that is current has passed, with the guard not yet
    finished. -/
structure State.Exits (s s' : State) : Prop where
  due : ∃ d, s.deadline = some d ∧ d ≤ s.now
  notFinished : s.finished = false
  exited : s'.exited = some s.exitCode

/-- A step of the waiter keeps the deadline, and it ends the process or moves the waiter. -/
theorem wait_effect {timedOut : Bool} (h : s.wait timedOut = some s') :
    s'.deadline = s.deadline ∧ (s'.exited = s.exited ∨ s.Exits s') := by
  unfold State.wait at h
  split at h
  case h_1 => repeat' split at h
              all_goals cases h; exact ⟨rfl, .inl rfl⟩
  case h_2 => split at h <;> cases h <;> exact ⟨rfl, .inl rfl⟩
  case h_3 deadline _ =>
    split at h
    · cases h
    next hdue =>
    split at h
    · cases h
      exact ⟨rfl, .inl rfl⟩
    next hpred =>
    split at h <;> cases h
    · -- the time-out was real, and the predicate under the lock says that nothing changed
      simp only [*, Bool.true_and, decide_eq_true_eq, Bool.or_eq_true, not_or, Bool.not_eq_true,
        ne_eq, not_not, Int.not_lt] at hdue hpred
      exact ⟨rfl, .inr ⟨⟨deadline, hpred.2, hdue⟩, hpred.1, rfl⟩⟩
    · exact ⟨rfl, .inl rfl⟩
  case h_4 => cases h

/-- **One step.**  Only `arm` changes the deadline, to the earlier one, and only the waiter ends
    the process. -/
theorem step_effect (h : step s a = some s') :
    s'.deadline = earlier (armedBy s a) s.deadline ∧
      ∀ code, s'.exited = some code → s.Exits s' := by
  unfold step at h
  split at h
  · cases h
  next hexited =>
  have hkeeps : s'.exited = s.exited → ∀ code, s'.exited = some code → s.Exits s' :=
    fun he code hcode => absurd (by rw [← he, hcode]; rfl) hexited
  cases a with
  | wait timedOut =>
    obtain ⟨hdeadline, he | he⟩ := wait_effect h
    · exact ⟨hdeadline, hkeeps he⟩
    · exact ⟨hdeadline, fun _ _ => he⟩
  | arm deadline exitCode =>
    dsimp only at h
    split at h <;> cases h
    unfold State.arm at hkeeps ⊢
    by_cases hphase : s.phase = .installed
    · rw [if_neg (not_not.mpr hphase)] at hkeeps ⊢
      exact ⟨by rw [armedBy, if_pos hphase], hkeeps rfl⟩
    · rw [if_pos hphase] at hkeeps ⊢
      exact ⟨by rw [armedBy, if_neg hphase]; rfl, hkeeps rfl⟩
  | tick elapsed =>
    cases h
    exact ⟨rfl, hkeeps rfl⟩
  | install | unregister | finish =>
    dsimp only at h
    split at h <;> cases h
    exact ⟨rfl, hkeeps rfl⟩

theorem earlier_le (deadline : Option Int) (d : Int) :
    ∃ d', earlier deadline (some d) = some d' ∧ d' ≤ d := by
  cases deadline with
  | none => exact ⟨d, rfl, Int.le_refl d⟩
  | some deadline =>
    unfold earlier
    by_cases hlt : deadline < d
    · exact ⟨deadline, if_pos hlt, Int.le_of_lt hlt⟩
    · exact ⟨d, if_neg hlt, Int.le_refl d⟩

/-- The earlier one of a new deadline and of the earliest so far. -/
theorem earlier_min? (deadline : Option Int) (armed : List Int) :
    earlier deadline armed.min? = (deadline.toList ++ armed).min? := by
  cases deadline with
  | none => rfl
  | some deadline =>
    rw [Option.toList_some, List.singleton_append, List.min?_cons]
    cases armed.min? with
    | none => rfl
    | some current =>
      simp only [earlier, Option.elim_some]
      split <;> congr 1 <;> omega

/-! ### Whole runs -/

/-- The guard with the deadlines it was armed with, the latest call first. -/
def armedSystem : System (State × List Int) Action :=
  guardSystem.withHistory [] (fun s a armed => (armedBy s a).toList ++ armed)

theorem armed_deadline {p : State × List Int} (h : armedSystem.Reachable p) :
    p.1.deadline = p.2.min? := by
  refine h.invariant (I := fun p => p.1.deadline = p.2.min?) rfl ?_
  rintro p a p' - ih - hstep
  obtain ⟨s', hs', rfl⟩ := Option.map_eq_some_iff.mp hstep
  rw [(step_effect hs').1, ih]
  exact earlier_min? _ _

/-- Along a run the deadline never moves later. -/
theorem steps_deadline_le {t : State} {d : Int} (h : guardSystem.Steps (fun _ _ => True) s t)
    (hs : s.deadline = some d) : ∃ d', t.deadline = some d' ∧ d' ≤ d := by
  refine h.preserves (I := fun t => ∃ d', t.deadline = some d' ∧ d' ≤ d) ?_ ⟨d, hs, Int.le_refl d⟩
  rintro t a t' ⟨d', ht, hle⟩ - hstep
  obtain ⟨d'', ht', hle'⟩ := earlier_le (armedBy t a) d'
  rw [← ht, ← (step_effect hstep).1] at ht'
  exact ⟨d'', ht', Int.le_trans hle' hle⟩

/-- **Shutdown guard deadline.**  In every run the effective deadline is the earliest one the guard
    was armed with and it never moves later; `arm` returns the earliest one, its own included; and
    a step that ends the process finds that deadline passed and the guard not finished. -/
theorem shutdownGuard_deadline {p : State × List Int} (h : armedSystem.Reachable p) :
    p.1.deadline = p.2.min? ∧
      (∀ t d, guardSystem.Steps (fun _ _ => True) p.1 t → p.1.deadline = some d →
        ∃ d', t.deadline = some d' ∧ d' ≤ d) ∧
      (∀ deadline exitCode, p.1.phase = .installed →
        (p.1.arm deadline exitCode).2 = (deadline.toList ++ p.2).min?) ∧
      ∀ a s' code, guardSystem.step p.1 a = some s' → s'.exited = some code →
        ∃ d, p.2.min? = some d ∧ d ≤ p.1.now ∧ p.1.finished = false := by
  have hdeadline := armed_deadline h
  refine ⟨hdeadline, fun t d ht hd => steps_deadline_le ht hd, ?_, ?_⟩
  · intro deadline exitCode hphase
    rw [State.arm, if_neg (not_not.mpr hphase), hdeadline]
    exact earlier_min? _ _
  · intro a s' code hstep hcode
    have hexits := (step_effect hstep).2 code hcode
    obtain ⟨d, hd, hle⟩ := hexits.due
    exact ⟨d, hdeadline ▸ hd, hle, hexits.notFinished⟩

/-- Armed twice, asleep on the first deadline: the second, earlier one counts. -/
theorem shutdownGuard_deadline_shortened :
    ∃ p, armedSystem.Reachable p ∧ p.1.waiter = .waitingUntil 9 ∧ p.2 = [4, 9] ∧
      p.1.deadline = p.2.min? := by
  obtain ⟨p, hp, hwaiter, harmed⟩ := armedSystem.exists_reachable_of_run
    [.install, .arm (some 9) 1, .wait false, .arm (some 4) 0]
    (fun p => p.1.waiter = .waitingUntil 9 ∧ p.2 = [4, 9]) (by decide)
  exact ⟨p, hp, hwaiter, harmed, (shutdownGuard_deadline hp).1⟩

end ServiceLib.ShutdownGuard
