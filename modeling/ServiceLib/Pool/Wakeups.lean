import ServiceLib.Pool.ExactlyOnce

namespace ServiceLib.Pool

/-!
# Pool — no wake-up is lost

`addTask` and a cancellation watch wake one waiter of `cv_` after they have released `mu_`.
Executors and the `stop` calls that wait for another one share that condition variable, and
an executor that is woken may leave as excess instead of taking the task.  Neither loses a
task, because of what holds whenever an executor is parked:

* `WakeInv.closed` — the pool is open, so no `stop` waits beside it (`WakeInv.waiters`);
* `WakeInv.excess` — there are no more executors than the target asks for, so whoever is
  woken does not leave;
* `WakeInv.queued` — while tasks wait, another executor is awake or a notification is due.

`no_lost_wakeup` is the consequence for the whole pool.
-/

open List Option State WaitQueue

variable {Q R : Type}

open LawfulWaitQueue

/-! ### Who sleeps and who will wake them -/

/-- No executor is parked without having been notified. -/
def State.NoneParked (s : State Q R) : Prop := ∀ x ∈ s.executors, x.pc ≠ .parked

/-- Some executor is in its loop and not parked. -/
def State.SomeAwake (s : State Q R) : Prop :=
  ∃ x ∈ s.executors, x.live ∧ x.pc ≠ .parked

/-- Some `addTask` call or cancellation watch is in front of its `cv_.NotifyOne()`. -/
def State.AboutToNotify (s : State Q R) : Prop :=
  (∃ c ∈ s.adds, c.pc = .notifying) ∨ .notifying ∈ s.watches

/-- What a parked executor may rely on. -/
structure WakeInv [WaitQueue Q R] (s : State Q R) : Prop where
  closed : s.ctl.done → s.NoneParked
  excess : s.targetExecutors < s.allocatedExecutors → s.NoneParked
  waiters : s.stopWaiters ≠ [] → s.ctl.done
  queued : size s.queue ≠ 0 → s.NoneParked ∨ s.SomeAwake ∨ s.AboutToNotify

theorem notifyAll_noneParked (s : State Q R) : s.notifyAll.NoneParked := by
  intro x' hx'
  obtain ⟨x, -, rfl⟩ := mem_map.mp hx'
  unfold wakeExecutor
  split
  · exact nofun
  · assumption

variable {x : Executor} {s s' : State Q R} {e : Nat} {w : Option Waiter} {i : TaskId} {k : Nat}

theorem State.NoneParked.set (h : s.NoneParked) (e : Nat) (hpc : x.pc ≠ .parked) :
    ∀ y ∈ s.executors.set e x, y.pc ≠ .parked :=
  forall_mem_set h hpc

/-- An executor that has just moved and stays in its loop is awake. -/
theorem someAwake_set {y : Executor} (hx : s.executors[e]? = some x) (hlive : y.live)
    (hpc : y.pc ≠ .parked) : ∃ z ∈ s.executors.set e y, z.live ∧ z.pc ≠ .parked := by
  have he : e < s.executors.length := lt_of_getElem? hx
  exact ⟨y, mem_set he y, hlive, hpc⟩

/-- A call that moves, and was not in front of its notification, takes none away. -/
theorem aboutToNotify_setAdd {c : AddCall R} (pc : AddPc) (hc : s.adds[i]? = some c)
    (hpc : c.pc ≠ .notifying) (h : s.AboutToNotify) : (s.setAdd i c pc).AboutToNotify := by
  rcases h with hadd | hw
  · exact .inl (exists_mem_set hc (fun hn => absurd hn hpc) hadd)
  · exact .inr hw

theorem aboutToNotify_setWatch {w : WatchPc} (pc : WatchPc) (hw : s.watches[k]? = some w)
    (hpc : w ≠ .notifying) (h : s.AboutToNotify) :
    (∃ c ∈ s.adds, c.pc = .notifying) ∨ .notifying ∈ s.watches.set k pc := by
  rcases h with hadd | hmem
  · exact .inl hadd
  · exact .inr (mem_set_of_ne hw hmem hpc.symm)

theorem aboutToNotify_onCancel (t : TaskId) (f : Bool) (h : s.AboutToNotify) :
    (s.onCancel t f).AboutToNotify := by
  unfold onCancel
  split
  · exact h
  · exact h.imp_right (mem_append_left _)

variable [WaitQueue Q R]

/-! ### Frame rules -/

/-- The control record may change while `done_` stays as it is. -/
theorem WakeInv.setCtl (h : WakeInv s) (c : Control) (hdone : c.done = s.ctl.done) :
    WakeInv { s with ctl := c } :=
  { h with
    closed := fun hd => h.closed (hdone.symm.trans hd)
    waiters := fun hne => hdone.trans (h.waiters hne) }

/-- Calls and watches may move while they keep their notifications. -/
theorem WakeInv.setNotifiers (h : WakeInv s) (adds : List (AddCall R)) (watches : List WatchPc)
    (hnotify : s.AboutToNotify → (∃ c ∈ adds, c.pc = .notifying) ∨ .notifying ∈ watches) :
    WakeInv { s with adds := adds, watches := watches } :=
  { h with queued := fun hne => (h.queued hne).imp_right (Or.imp_right hnotify) }

/-- The queue may change while its size stays as it is. -/
theorem WakeInv.setQueue (h : WakeInv s) (q : Q)
    (hsize : size q = size s.queue) : WakeInv { s with queue := q } :=
  { h with queued := fun hne => h.queued (hsize ▸ hne) }

/-- While no executor is parked nobody needs to be woken. -/
theorem WakeInv.of_noneParked (h : s.NoneParked) (hwait : s.stopWaiters ≠ [] → s.ctl.done) :
    WakeInv s :=
  ⟨fun _ => h, fun _ => h, hwait, fun _ => .inl h⟩

theorem WakeInv.of_notifyAll (hexec : s'.executors = s.notifyAll.executors)
    (hwait : s'.stopWaiters ≠ [] → s'.ctl.done) : WakeInv s' := by
  refine .of_noneParked ?_ hwait
  unfold State.NoneParked
  rw [hexec]
  exact notifyAll_noneParked s

theorem WakeInv.waiters_notifyAll (h : WakeInv s) (hne : s.notifyAll.stopWaiters ≠ []) :
    s.ctl.done := by
  apply h.waiters
  intro hnil
  apply hne
  change s.stopWaiters.map wakeStop = []
  rw [hnil, map_nil]

/-- An executor moves and stays awake in its loop. -/
theorem WakeInv.awake (h : WakeInv s) (pc : ExecPc) (hx : s.executors[e]? = some x)
    (hlive : Executor.live ⟨pc, x.cancelled⟩ = true) (hpc : pc ≠ .parked) :
    WakeInv (s.setExecutor e x pc) where
  closed hd := (h.closed hd).set e hpc
  excess hlt := (h.excess hlt).set e hpc
  waiters := h.waiters
  queued _ := .inr (.inl (someAwake_set hx hlive hpc))

/-- An executor leaves while nobody is parked. -/
theorem WakeInv.leave (h : WakeInv s) (hnone : s.NoneParked) (pc : ExecPc) (hpc : pc ≠ .parked)
    (hexec : s'.executors = (s.setExecutor e x pc).executors) (hctl : s'.ctl = s.ctl)
    (hwait : s'.stopWaiters = s.stopWaiters) : WakeInv s' := by
  refine .of_noneParked ?_ ?_
  · unfold State.NoneParked
    rw [hexec]
    exact hnone.set e hpc
  · rw [hwait, hctl]
    exact h.waiters

theorem init_wakeInv : WakeInv (init Q : State Q R) := by
  refine .of_noneParked ?_ ?_
  · simp [State.NoneParked, init]
  · simp [init]

/-! ### Notifications -/

section

variable (h : WakeInv s)
include h

/-- **A notification is never wasted while an executor is parked.**  A `stop` call can take
    it only in a closed pool, where no executor is parked. -/
theorem WakeInv.notifyOne {s₁ : State Q R} (hs : s.notifyOne w = some s₁) :
    WakeInv s₁ ∧ (s₁.NoneParked ∨ s₁.SomeAwake) := by
  unfold State.notifyOne at hs
  split at hs
  · split at hs <;> cases hs
    rename_i hnobody
    have hnone : s.NoneParked := by
      simp only [Bool.and_eq_true, List.all_eq_true, decide_eq_true_eq] at hnobody
      exact hnobody.1
    exact ⟨h, .inl hnone⟩
  · split at hs <;> cases hs
    rename_i e c hx
    exact ⟨h.awake .notified hx rfl nofun, .inr (someAwake_set hx rfl nofun)⟩
  · split at hs <;> cases hs
    rename_i i hw
    have hne : s.stopWaiters ≠ [] := ne_nil_of_mem (mem_of_getElem? hw)
    have hnone : s.NoneParked := h.closed (h.waiters hne)
    refine ⟨.of_noneParked hnone (fun _ => h.waiters hne), .inl hnone⟩

/-! ### start, stop and the manager -/

theorem callStop_wakeInv (hwf : s.ctl.WellFormed) (hs : s.callStop = some s') : WakeInv s' := by
  -- A `stop` that finds another one at work finds the pool closed.
  have happend : ∀ w, s.ctl.done →
      WakeInv { s with stopWaiters := s.stopWaiters ++ [w] } :=
    fun w hd => ⟨h.closed, h.excess, fun _ => hd, h.queued⟩
  unfold callStop at hs
  split at hs
  · cases hs
  · split at hs <;> cases hs
    next hst =>
      exact happend _ (by rw [hwf.done_eq, hst]; rfl)
    next hst =>
      exact happend _ (by rw [hwf.done_eq, hst]; rfl)
    · exact .of_notifyAll rfl (fun _ => rfl)

theorem stopWaiterStep_wakeInv {i : Nat} (hs : s.stopWaiterStep i = some s') : WakeInv s' := by
  have hset : ∀ w, WakeInv { s with stopWaiters := s.stopWaiters.set i w } :=
    fun w => { h with waiters := fun hne => h.waiters (fun hnil => hne (by simp [hnil])) }
  unfold stopWaiterStep at hs
  split at hs
  · split at hs
    · cases hs
    · split at hs <;> cases hs <;> apply hset
  · cases hs

/-- A step of `stop`. -/
theorem stopStep_wakeInv (hs : s.stopStep = some s') : WakeInv s' := by
  cases stopStep_effect hs with
  | control c handles hdone => exact { h.setCtl c hdone with }
  | notify c hdone hst => exact .of_notifyAll rfl (fun hw => hdone.trans (h.waiters_notifyAll hw))

/-- Whoever makes executors excess, in the first critical section of `reconcileExecutors`, wakes
    all of them. -/
theorem managerStep_wakeInv {n : Option Int} {hw : Int} {f : Bool} (hr : Roster s)
    (hs : s.managerStep n hw f = some s') : WakeInv s' := by
  cases managerStep_effect hs with
  | control c handles newExecutors hdone => exact { h.setCtl c hdone with }
  | drain => exact .of_notifyAll rfl (fun _ => rfl)
  | shrink => exact .of_notifyAll rfl h.waiters_notifyAll
  | retarget target handles m hmu hle =>
    exact { h with excess := fun hlt => absurd hlt (Int.not_lt.mpr hle) }
  | claim k hpc =>
    -- The slot claimed is one the target has room for.
    have hroom := hr.room (k + 1) (by rw [hpc]; rfl)
    refine { h with excess := fun hlt => h.excess ?_ }
    change s.targetExecutors < s.allocatedExecutors + 1 at hlt
    omega
  | unclaim k hpc =>
    refine { h with excess := fun hlt => h.excess ?_ }
    change s.targetExecutors < s.allocatedExecutors - 1 at hlt
    omega
  | spawn k hpc =>
    -- The executor just created is awake.
    have hnone : s.NoneParked → ∀ x ∈ s.executors ++ [⟨.loopHead, false⟩], x.pc ≠ .parked :=
      fun hn => forall_mem_concat hn (by rintro ⟨⟩)
    refine ⟨fun hd => hnone (h.closed hd), fun hlt => hnone (h.excess hlt), h.waiters,
      fun _ => .inr (.inl ?_)⟩
    exact ⟨⟨.loopHead, false⟩, mem_append_right _ (mem_singleton.mpr rfl), rfl, by rintro ⟨⟩⟩

/-! ### Executors, callers and watches -/

/-- A step of an executor. -/
theorem execMove_wakeInv [LawfulWaitQueue Q] (hst : Staffed s) (hx : s.executors[e]? = some x)
    (hm : ExecMove s e x s') : WakeInv s' := by
  cases hm with
  | park hpc hmu hpred =>
    -- An executor parks only in an open pool without tasks and without excess.
    rw [wakePredicate, Bool.or_eq_false_iff, Bool.or_eq_false_iff] at hpred
    obtain ⟨⟨hsize, hdone⟩, hcount⟩ := hpred
    refine ⟨fun hd => ?_, fun hlt => ?_, h.waiters, fun hne => ?_⟩
    · exact absurd (hdone.symm.trans hd) nofun
    · exact absurd hlt (of_decide_eq_false hcount)
    · exact absurd hne (of_decide_eq_false hsize)
  | wake hpc hmu hpred => exact { h.awake .woken hx rfl nofun with }
  | idleExit hpc hc hmu hpred =>
    simp [hst.uncancelled x (mem_of_getElem? hx)] at hc
  | excess hpc hlt => exact h.leave (h.excess hlt) .finished nofun rfl rfl rfl
  | drained hpc hsize hdone => exact h.leave (h.closed hdone) .leaving nofun rfl rfl rfl
  | proceed hpc hle hwork => exact h.awake .dequeuing hx rfl nofun
  | dequeue hpc t q hpop =>
    exact { h.awake (.dequeued t) hx rfl nofun with
      queued := fun _ => .inr (.inl (someAwake_set hx rfl nofun)) }
  | run t hpc => exact { h.awake (.running t) hx rfl nofun with }
  | finish t hpc => exact { h.awake .loopHead hx rfl nofun with }
  | release hpc =>
    have hdone := (hst.leaving x (mem_of_getElem? hx) hpc).1
    exact h.leave (h.closed hdone) .finished nofun rfl rfl rfl

/-- A step of `addTask`, which notifies after it has queued. -/
theorem addStep_wakeInv [LawfulWaitQueue Q] {f g : Bool} (ht : TaskInv s)
    (hs : s.addStep i f g w = some s') : WakeInv s' := by
  obtain ⟨c, hc, hm⟩ := addMove_of_addStep hs
  -- The moves that only change the program counter of the call.
  have hmove : ∀ pc, c.pc ≠ .notifying → WakeInv (s.setAdd i c pc) :=
    fun pc hpc => h.setNotifiers _ _ (aboutToNotify_setAdd pc hc hpc)
  cases hm with
  | enter hpc | pass hpc => exact hmove _ (by simp [hpc])
  | reject e hpc => exact hmove _ (by rcases hpc with hpc | hpc | hpc <;> simp [hpc])
  | lock hpc | subscribe τ rest hpc | registerFail rest hpc | unwind hpc =>
    exact { hmove _ (by simp [hpc]) with }
  | subscribeFired τ rest hpc hτ spawnFails =>
    have h' := hmove (.registering rest) (by simp [hpc])
    have hkeep := aboutToNotify_onCancel (s := s.setAdd i c (.registering rest)) i spawnFails
    unfold onCancel at hkeep ⊢
    split <;> rename_i hf
    · exact h'
    · rw [if_neg hf] at hkeep
      exact h'.setNotifiers _ _ hkeep
  | insert hpc q hpush =>
    -- The task is in the queue, and the notification for it is due.
    have hi : i < s.adds.length := lt_of_getElem? hc
    exact { h with queued := fun _ => .inr (.inr (.inl ⟨_, mem_set hi _, rfl⟩)) }
  | insertFail hpc q hpush =>
    obtain ⟨l, hl, hbal⟩ := ht.balance
    have hil := not_waiting_of_not_accepted hbal (ht.fresh hc (by rw [hpc]; rfl))
    refine { (hmove .unwinding (by simp [hpc])).setQueue q ?_ with }
    change size q = size s.queue
    rw [holds_size hl, holds_size (holds_push_fail hl hil hpush)]
  | notify hpc s₁ hn =>
    simp only [addStep, hc, hpc] at hs
    obtain ⟨s₂, hs₂, heq⟩ := map_eq_some_iff.mp hs
    obtain ⟨h₂, hawake⟩ := h.notifyOne hs₂
    rw [← heq]
    exact { h₂ with queued := fun _ => hawake.imp_right .inl }

/-- A step of a stop callback. -/
theorem watchStep_wakeInv [LawfulWaitQueue Q] {alive : Bool} (ht : TaskInv s)
    (hs : s.watchStep k alive w = some s') : WakeInv s' := by
  cases watchMove_of_watchStep hs with
  | dead t hw => exact h.setNotifiers _ _ (aboutToNotify_setWatch .finished hw nofun)
  | promote t hw hmu pc hpc =>
    obtain ⟨l, hl, -⟩ := ht.balance
    refine { (h.setNotifiers _ _ (aboutToNotify_setWatch pc hw nofun)).setQueue _ ?_ with }
    change size (promote s.queue t s.world.now).1 = size s.queue
    rw [holds_size hl, holds_size (holds_promote t s.world.now hl)]
  | notify hw s₁ hn =>
    simp only [watchStep, hw] at hs
    obtain ⟨s₂, hs₂, heq⟩ := map_eq_some_iff.mp hs
    obtain ⟨h₂, hawake⟩ := h.notifyOne hs₂
    rw [← heq]
    exact { h₂ with queued := fun _ => hawake.imp_right .inl }

/-! ### Every step -/

/-- **The wake-up invariant is kept by every step of a pool whose executors nobody cancels.** -/
theorem step_wakeInv [LawfulWaitQueue Q] {a : Action R} (hwf : s.ctl.WellFormed) (hr : Roster s)
    (ht : TaskInv s) (hst : Staffed s) (hok : noOutsideCancel s a) (hs : step s a = some s') :
    WakeInv s' := by
  cases a with
  | tick now =>
    simp only [step] at hs
    split at hs <;> cases hs
    exact { h with }
  | fire τ => cases hs; exact { h with }
  | callStart ctx =>
    cases hs
    refine h.setCtl _ ?_
    unfold Control.callStart
    split <;> rfl
  | start fails =>
    obtain ⟨c, hc, rfl⟩ := map_eq_some_iff.mp hs
    exact h.setCtl c (startStep_state hc).1
  | callStop => exact callStop_wakeInv h hwf hs
  | stop => exact stopStep_wakeInv h hs
  | stopWaiter i => exact stopWaiterStep_wakeInv h hs
  | manager n hw fails => exact managerStep_wakeInv h hr hs
  | executor e =>
    obtain ⟨x, hx, hm⟩ := execMove_of_executorStep hs
    exact execMove_wakeInv h hst hx hm
  | cancelledWake e =>
    obtain ⟨x, hx, -, hm⟩ := execMove_of_cancelledWake hs
    exact execMove_wakeInv h hst hx hm
  | cancelExecutor e =>
    -- A cancelled executor could leave with a notification that was meant for another.
    cases hok
  | spuriousWake e =>
    simp only [step, spuriousWake] at hs
    split at hs <;> cases hs
    rename_i c hx
    exact h.awake .notified hx rfl (by simp)
  | callAdd ctx request =>
    cases hs
    refine h.setNotifiers _ _ (Or.imp_left ?_)
    rintro ⟨c, hc, hpc⟩
    exact ⟨c, mem_append_left _ hc, hpc⟩
  | add i fails spawnFails wake => exact addStep_wakeInv h ht hs
  | callback k spawnFails =>
    simp only [step, runCallback] at hs
    split at hs
    · cases hs
    · split at hs <;> cases hs
      rename_i t _ _
      have hkeep := aboutToNotify_onCancel (s := { s with subs := s.subs.eraseIdx k }) t spawnFails
      unfold onCancel at hkeep ⊢
      split <;> rename_i hf
      · exact { h with }
      · rw [if_neg hf] at hkeep
        exact { h.setNotifiers _ _ hkeep with }
  | watch k alive wake => exact watchStep_wakeInv h ht hs

end

theorem reachable_wakeInv [LawfulWaitQueue Q] (h : (system Q).ReachableIf noOutsideCancel s) :
    WakeInv s :=
  h.invariant init_wakeInv (fun hr hi hok hs =>
    step_wakeInv hi (reachable_wellFormed hr) (reachable_roster hr) (reachable_taskInv hr)
      (reachable_staffed hr) hok hs)

/-- **No lost wake-up.**  In every state a pool reaches while nobody outside cancels its
    executors, under any mix of calls, resizing and stopping:
    if tasks wait, some executor is in its loop and not parked, or some thread is about to
    notify;
    once the pool is closed, no executor is parked.
    In particular the executors are never all parked with work to do and nobody to wake
    them. -/
theorem no_lost_wakeup [LawfulWaitQueue Q] {s : State Q R}
    (h : (system Q).ReachableIf noOutsideCancel s) :
    (size s.queue ≠ 0 →
      (∃ x ∈ s.executors, x.live = true ∧ x.pc ≠ .parked) ∨ s.AboutToNotify) ∧
    (s.ctl.done = true → ∀ x ∈ s.executors, x.pc ≠ .parked) := by
  have hinv := reachable_wakeInv h
  refine ⟨fun hne => ?_, hinv.closed⟩
  rcases hinv.queued hne with hnone | hawake | hnotify
  · -- A pool with tasks has an executor in its loop, and none of them is parked.
    obtain ⟨x, hx, hlive⟩ := countP_pos_iff.mp ((reachable_staffed h).waiting hne)
    exact .inl ⟨x, hx, hlive, hnone x hx⟩
  · exact .inl hawake
  · exact .inr hnotify

/-- One of two parked executors becomes excess; a task arrives while the resizing is under
    way, and its notification is still due. -/
def resizedWhileAdding : List (Action Bool) :=
  [ startUp 2, [.executor 0, .executor 1, .callAdd {} true],
    replicate 4 (.add 0 false false none), replicate 4 (.manager (some 1) 1 false) ].flatten

theorem no_lost_wakeup_resized :
    ∃ s : State TaskQueue Bool, (system TaskQueue).ReachableIf noOutsideCancel s ∧
      s.targetExecutors < s.allocatedExecutors ∧ size s.queue ≠ 0 ∧
      ((∃ x ∈ s.executors, x.live = true ∧ x.pc ≠ .parked) ∨ s.AboutToNotify) := by
  obtain ⟨s, hs, hlt, hne⟩ := (system TaskQueue).exists_reachableIf_of_run noOutsideCancel
    resizedWhileAdding
    (fun s => s.targetExecutors < s.allocatedExecutors ∧ size s.queue ≠ 0)
    (by decide +kernel)
  exact ⟨s, hs, hlt, hne, (no_lost_wakeup hs).1 hne⟩

end ServiceLib.Pool
