import ServiceLib.Pool.ExactlyOnce

namespace ServiceLib.Pool

/-!
# Pool — the executor counter over whole runs

`allocatedExecutors_` is changed from four places: the manager claims a slot without `mu_`,
takes it back when the coroutine cannot be created, an excess executor gives its slot up
with a compare-exchange, and the slot guard of every other executor releases it on the way
out.  `executor_accounting` says what holds over any interleaving of these.
-/

variable {Q R : Type}

/-! ### What one step does to the counter -/

/-- Nothing left the pool between `s` and `s'`, and the counter did not grow. -/
structure NoExit (s s' : State Q R) : Prop where
  allocated : s'.allocatedExecutors ≤ s.allocatedExecutors
  finished : ∀ (e : Nat) (x' : Executor), s'.executors[e]? = some x' → x'.pc = .finished →
    ∃ x : Executor, s.executors[e]? = some x ∧ x.pc = .finished

variable {s s' : State Q R} {e : Nat} {x : Executor}

section

variable (halloc : s'.allocatedExecutors = s.allocatedExecutors)
include halloc

/-- Steps that leave counter and executors alone. -/
theorem NoExit.of_eq (hexec : s'.executors = s.executors) : NoExit s s' where
  allocated := Int.le_of_eq halloc
  finished := by
    intro e x' hx' hpc
    rw [hexec] at hx'
    exact ⟨x', hx', hpc⟩

/-- A notification wakes executors; it finishes none. -/
theorem NoExit.of_notifyAll (hexec : s'.executors = s.executors.map State.wakeExecutor) :
    NoExit s s' where
  allocated := Int.le_of_eq halloc
  finished := by
    intro e x' hx' hpc
    rw [hexec, List.getElem?_map] at hx'
    obtain ⟨x, hx, rfl⟩ := Option.map_eq_some_iff.mp hx'
    refine ⟨x, hx, ?_⟩
    unfold State.wakeExecutor at hpc
    split at hpc
    · cases hpc
    · exact hpc

/-- One executor is replaced by a record that is not `finished`. -/
theorem NoExit.of_set (hexec : s'.executors = s.executors.set e x) (hx : x.pc ≠ .finished) :
    NoExit s s' where
  allocated := Int.le_of_eq halloc
  finished := by
    rw [hexec]
    exact forall_getElem?_set (fun _ x' hx' hpc => ⟨x', hx', hpc⟩) (fun hpc => absurd hpc hx)

end

theorem Notified.noExit (h : Notified s s') : NoExit s s' := by
  cases h with
  | nobody | stop => exact .of_eq rfl rfl
  | executor e c hx => exact .of_set rfl rfl (by simp)

theorem stopStep_noExit (hs : s.stopStep = some s') : NoExit s s' := by
  cases stopStep_effect hs with
  | control => exact .of_eq rfl rfl
  | notify => exact .of_notifyAll rfl rfl

/-- The manager finishes no executor, and the counter grows only when it claims a slot. -/
theorem managerStep_noExit {n : Option Int} {hw : Int} {f : Bool} [WaitQueue Q R]
    (hs : s.managerStep n hw f = some s') :
    NoExit s s' ∨ s'.executors = s.executors ∧ ∃ k, s'.ctl.manager = .claimed k := by
  cases managerStep_effect hs with
  | control | retarget => exact .inl (.of_eq rfl rfl)
  | drain | shrink => exact .inl (.of_notifyAll rfl rfl)
  | claim k hpc => exact .inr ⟨rfl, k, rfl⟩
  | unclaim k hpc =>
    -- The coroutine could not be created: the claim is taken back.
    exact .inl ⟨by show s.allocatedExecutors - 1 ≤ _; omega, fun e x hx hfin => ⟨x, hx, hfin⟩⟩
  | spawn k hpc =>
    exact .inl ⟨Int.le_refl _,
      forall_getElem?_concat (fun _ x hx hfin => ⟨x, hx, hfin⟩) (by rintro ⟨⟩)⟩

variable [WaitQueue Q R]

theorem AddMove.noExit {i : TaskId} {c : AddCall R} (h : AddMove s i c s') : NoExit s s' := by
  cases h with
  | subscribeFired _ rest hpc _ f =>
    unfold State.onCancel
    split <;> exact .of_eq rfl rfl
  | notify _ s₁ hn => exact ⟨hn.noExit.allocated, hn.noExit.finished⟩
  | _ => exact .of_eq rfl rfl

theorem WatchMove.noExit {k : Nat} (h : WatchMove s k s') : NoExit s s' := by
  cases h with
  | notify _ s₁ hn => exact ⟨hn.noExit.allocated, hn.noExit.finished⟩
  | _ => exact .of_eq rfl rfl

/-- An executor finishes in two ways: as excess, straight after its wait, or by releasing
    its slot. -/
theorem ExecMove.exit (h : ExecMove s e x s') :
    NoExit s s' ∨
    s'.executors = s.executors.set e { x with pc := .finished } ∧
      s'.allocatedExecutors = s.allocatedExecutors - 1 ∧
      s'.targetExecutors = s.targetExecutors ∧
      (x.pc = .woken → s.targetExecutors < s.allocatedExecutors) := by
  cases h with
  | excess hpc hlt => exact .inr ⟨rfl, rfl, rfl, fun _ => hlt⟩
  | release hpc => exact .inr ⟨rfl, rfl, rfl, fun hw => by rw [hpc] at hw; cases hw⟩
  | _ => exact .inl (.of_set rfl rfl (by simp))

/-- An executor that gave its slot up between its wait and its dequeue, in the step from `s`
    to `s'`. -/
def ExcessExit (s s' : State Q R) (e : Nat) : Prop :=
  ∃ x x' : Executor, s.executors[e]? = some x ∧ x.pc = .woken ∧
    s'.executors[e]? = some x' ∧ x'.pc = .finished

omit [WaitQueue Q R] in
theorem NoExit.not_excessExit (h : NoExit s s') : ¬ ExcessExit s s' e := by
  rintro ⟨x, x', hx, hpc, hx', hfin⟩
  obtain ⟨y, hy, hyfin⟩ := h.finished e x' hx' hfin
  rw [hx] at hy
  cases hy
  simp [hpc] at hyfin

/-- What one step may do to the counter: only the manager's claim raises it, and where an
    executor leaves as excess it is lowered by one and was above the target. -/
structure Ledger (s s' : State Q R) : Prop where
  raised : s.allocatedExecutors < s'.allocatedExecutors → ∃ n, s'.ctl.manager = .claimed n
  excess : ∀ e, ExcessExit s s' e → s.targetExecutors < s.allocatedExecutors ∧
    s'.allocatedExecutors = s.allocatedExecutors - 1 ∧ s'.targetExecutors = s.targetExecutors

omit [WaitQueue Q R] in
theorem NoExit.ledger (h : NoExit s s') : Ledger s s' where
  raised := fun hlt => absurd h.allocated (Int.not_le.mpr hlt)
  excess := fun _ he => absurd he h.not_excessExit

/-- A step of an executor. -/
theorem ExecMove.ledger (hx : s.executors[e]? = some x) (hm : ExecMove s e x s') : Ledger s s' := by
  rcases hm.exit with h | ⟨hset, halloc, htarget, hwoken⟩
  · exact h.ledger
  · refine ⟨fun hlt => by omega, ?_⟩
    rintro e' ⟨y, y', hy, hpc, hy', hfin⟩
    rw [hset] at hy'
    rcases getElem?_set_cases hy' with ⟨rfl, -⟩ | ⟨-, hy'⟩
    · rw [hx] at hy
      cases hy
      exact ⟨hwoken hpc, halloc, htarget⟩
    · -- Another executor moved: this one cannot have finished.
      rw [hy] at hy'
      cases hy'
      simp [hpc] at hfin

/-- **Every change of the counter** follows the ledger. -/
theorem step_ledger {a : Action R} (hs : step s a = some s') : Ledger s s' := by
  cases move_of_step hs with
  | background | waiters | callStart | start | callAdd => exact NoExit.ledger (.of_eq rfl rfl)
  | claimStop => exact NoExit.ledger (.of_notifyAll rfl rfl)
  | cancel e x hx =>
    refine ⟨fun hlt => absurd hlt (Int.lt_irrefl _), ?_⟩
    rintro e' ⟨y, y', hy, hpc, hy', hfin⟩
    rcases getElem?_set_cases hy' with ⟨rfl, rfl⟩ | ⟨-, hy'⟩
    · rw [hx] at hy
      cases hy
      simp [hpc] at hfin
    · rw [hy] at hy'
      cases hy'
      simp [hpc] at hfin
  | stop s' hs => exact (stopStep_noExit hs).ledger
  | manager n hw f s' hs =>
    rcases managerStep_noExit hs with h | ⟨hsame, k, hk⟩
    · exact h.ledger
    · refine ⟨fun _ => ⟨k, hk⟩, ?_⟩
      rintro e ⟨x, x', hx, hpc, hx', hfin⟩
      rw [hsame, hx] at hx'
      cases hx'
      simp [hpc] at hfin
  | executor e x s' hx hm | cancelled e x s' hx hc hm => exact hm.ledger hx
  | spurious e s' hn => exact hn.noExit.ledger
  | add i c f g w s' hc hm | watch k alive w s' hm => exact hm.noExit.ledger

/-! ### The accounting -/

omit [WaitQueue Q R] in
/-- An executor in its loop owns a slot. -/
theorem live_le_slots (s : State Q R) : s.live ≤ s.slots := by
  refine List.countP_mono_left (fun x _ hlive => ?_)
  unfold Executor.live at hlive
  unfold Executor.hasSlot
  split at hlive <;> simp_all

/-- **Executor accounting.**  In every reachable state of a pool,
    the counter is the number of executors that own a slot plus the slot claimed for the one
    about to be created;
    a step that raises it leaves it within the target;
    a step in which an executor leaves as excess leaves it at the target or above;
    and, as long as nobody outside the pool cancels its executors, it is at least one while
    the pool is running. -/
theorem executor_accounting [LawfulWaitQueue Q] {s : State Q R} (h : (system Q).Reachable s) :
    s.allocatedExecutors = s.slots + s.ctl.manager.reserved ∧
    (∀ a s', step s a = some s' → s.allocatedExecutors < s'.allocatedExecutors →
      s'.allocatedExecutors ≤ s'.targetExecutors) ∧
    (∀ a s' e, step s a = some s' → ExcessExit s s' e →
      s'.targetExecutors ≤ s'.allocatedExecutors) ∧
    ((system Q).ReachableIf noOutsideCancel s → s.ctl.state = .running →
      1 ≤ s.allocatedExecutors) := by
  have hroster := reachable_roster h
  refine ⟨hroster.allocated, ?_, ?_, ?_⟩
  · intro a s' hs hlt
    -- The step was a claim, and the manager claims only what the target leaves room for.
    obtain ⟨n, hn⟩ := (step_ledger hs).raised hlt
    have hroom := (reachable_roster (h.step trivial hs)).room n (by rw [hn]; rfl)
    omega
  · intro a s' e hs hexit
    obtain ⟨hlt, halloc, htarget⟩ := (step_ledger hs).excess e hexit
    omega
  · intro hr hrun
    have hwf := reachable_wellFormed hr
    have hopen : s.ctl.done = false := by rw [hwf.done_eq, hrun]; rfl
    have hlive : 1 ≤ s.live := by
      rcases (reachable_staffed hr).ready (.inl (hwf.running hrun).1) with hdone | hlive
      · simp [hopen] at hdone
      · exact hlive
    have hslots := live_le_slots s
    have hcount := hroster.allocated
    omega

/-- A pool of two executors is resized to one; the spare executor leaves. -/
def resizeSchedule : List (Action Bool) :=
  [ startUp 2, List.replicate 4 (.manager (some 1) 1 false), [.executor 0, .executor 0] ].flatten

theorem executor_accounting_resized :
    ∃ s : State TaskQueue Bool, (system TaskQueue).Reachable s ∧ s.executors.length = 2 ∧
      s.ctl.state = .running ∧ s.allocatedExecutors = s.slots + s.ctl.manager.reserved ∧
      s.slots = 1 := by
  obtain ⟨s, hs, hlen, hrun, hslots⟩ := (system TaskQueue).exists_reachable_of_run
    resizeSchedule (fun s => s.executors.length = 2 ∧ s.ctl.state = .running ∧ s.slots = 1)
    (by decide +kernel)
  exact ⟨s, hs, hlen, hrun, (executor_accounting hs).1, hslots⟩

end ServiceLib.Pool
