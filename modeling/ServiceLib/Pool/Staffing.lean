import ServiceLib.Pool.Mutex
import ServiceLib.Pool.Roster
import ServiceLib.Pool.Tasks

namespace ServiceLib.Pool

/-!
# Pool — a queue with tasks has an executor

As long as nobody outside cancels executors, an executor leaves its loop for one of two
reasons only: the pool is closed and its queue empty, or there are more executors than the
target asks for.  The second kind of exit never takes the last one, because the target is at
least one and the counter it is compared with counts no executor that is about to leave.

`Staffed.waiting` is the consequence that draining rests on: tasks never wait in a pool
without executors.
-/

open List Function State WaitQueue ManagerPc

variable {Q R : Type}

open LawfulWaitQueue

/-! ### Live executors -/

/-- A manager whose last reconciliation left an executor alive. -/
def ManagerPc.staffed : ManagerPc → Bool
  | .spawning 0 | .adopting false | .checkCancelled | .resolveReady => true
  | _ => false

/-- The pool is, or is about to be declared, ready. -/
def Control.expectsStaff (c : Control) : Prop :=
  c.startupResult = .ready ∨ c.manager.staffed

/-- What is known about the executors while nobody outside cancels them. -/
structure Staffed [WaitQueue Q R] (s : State Q R) : Prop where
  uncancelled : ∀ x ∈ s.executors, x.cancelled = false
  leaving : ∀ x ∈ s.executors, x.pc = .leaving →
    s.ctl.done ∧ size s.queue = 0
  ready : s.ctl.expectsStaff → s.ctl.done ∨ 1 ≤ s.live
  waiting : size s.queue ≠ 0 → 1 ≤ s.live

variable {e : Nat} {s s' : State Q R} {x : Executor}

theorem live_setExecutor (hx : s.executors[e]? = some x) (pc : ExecPc) :
    (s.setExecutor e x pc).live + (if x.live then 1 else 0) =
      s.live + (if Executor.live ⟨pc, x.cancelled⟩ then 1 else 0) :=
  countP_set Executor.live hx _

@[simp] theorem wakeExecutor_live (x : Executor) : (wakeExecutor x).live = x.live := by
  unfold wakeExecutor
  split
  next hpc =>
    simp [Executor.live, hpc]
  · rfl

@[simp] theorem notifyAll_live (s : State Q R) : s.notifyAll.live = s.live := by
  simp [live, notifyAll, countP_map, comp_def]

theorem wakeExecutor_leaving (h : (wakeExecutor x).pc = .leaving) : x.pc = .leaving := by
  unfold wakeExecutor at h
  split at h
  · cases h
  · exact h

/-- Without an executor about to leave, every slot belongs to a live executor. -/
theorem live_eq_slots (h : ∀ x ∈ s.executors, x.pc ≠ .leaving) : s.live = s.slots := by
  refine countP_congr (fun x hx => ?_)
  have hne := h x hx
  unfold Executor.live Executor.hasSlot
  cases hpc : x.pc <;> simp_all

variable [WaitQueue Q R] {c : Control}

theorem init_staffed [LawfulWaitQueue Q] : Staffed (init Q) where
  uncancelled := by simp [init]
  leaving := by simp [init]
  ready := by simp [init, Control.init, Control.expectsStaff, staffed]
  waiting := by
    intro hne
    exact absurd (holds_size (holds_empty : Holds (empty : Q) [])) hne

section

variable (h : Staffed s)
include h

namespace Staffed

/-- Every slot belongs to a live executor, or the pool is closed and empty. -/
theorem live_eq : (s.ctl.done ∧ size s.queue = 0) ∨ s.live = s.slots := by
  by_cases hl : ∃ x ∈ s.executors, x.pc = .leaving
  · obtain ⟨x, hx, hpc⟩ := hl
    exact .inl (h.leaving x hx hpc)
  · right
    exact live_eq_slots (fun x hx hpc => hl ⟨x, hx, hpc⟩)

/-! ### Frame rules -/

/-- Executors may move as long as they are as live as before. -/
theorem congr {executors : List Executor} (hexec : ∀ x' ∈ executors, ∃ x ∈ s.executors,
    x'.cancelled = x.cancelled ∧ (x'.pc = .leaving → x.pc = .leaving))
    (hlive : executors.countP Executor.live = s.live) :
    Staffed { s with executors := executors } where
  uncancelled := by
    intro x' hx'
    obtain ⟨x, hx, hc, -⟩ := hexec x' hx'
    rw [hc]
    exact h.uncancelled x hx
  leaving := by
    intro x' hx' hpc
    obtain ⟨x, hx, -, hl⟩ := hexec x' hx'
    exact h.leaving x hx (hl hpc)
  ready hexp := (h.ready hexp).imp_right (fun hl => Nat.le_trans hl (Nat.le_of_eq hlive.symm))
  waiting hne := Nat.le_trans (h.waiting hne) (Nat.le_of_eq hlive.symm)

/-- A pool that is closed needs no executor to be declared ready. -/
theorem close (c : Control) (hdone : c.done) : Staffed { s with ctl := c } :=
  { h with
    leaving := fun x hx hpc => ⟨hdone, (h.leaving x hx hpc).2⟩
    ready := fun _ => .inl hdone }

/-- The queue may change as long as nobody has to notice. -/
theorem setQueue (q : Q) (hsize : size q = size s.queue) : Staffed { s with queue := q } :=
  { h with
    leaving := fun x hx hpc => ⟨(h.leaving x hx hpc).1, hsize.trans (h.leaving x hx hpc).2⟩
    waiting := fun hne => h.waiting (hsize ▸ hne) }

theorem notifyAll : Staffed s.notifyAll := by
  refine { (h.congr ?_ (notifyAll_live s) :
    Staffed { s with executors := s.executors.map wakeExecutor }) with }
  intro x' hx'
  obtain ⟨x, hx, rfl⟩ := mem_map.mp hx'
  refine ⟨x, hx, ?_, wakeExecutor_leaving⟩
  unfold wakeExecutor
  split <;> rfl

/-- A move of an executor that stays in its loop. -/
theorem setExecutor (hx : s.executors[e]? = some x) (pc : ExecPc) (hold : x.live)
    (hnew : Executor.live ⟨pc, x.cancelled⟩ = true) : Staffed (s.setExecutor e x pc) := by
  have hlive := live_setExecutor hx pc
  rw [hold, hnew] at hlive
  refine h.congr ?_ (Nat.add_right_cancel hlive)
  refine forall_mem_set (fun x' hx' => ⟨x', hx', rfl, id⟩) ⟨x, mem_of_getElem? hx, rfl, ?_⟩
  intro hpc
  have hpc : pc = .leaving := hpc
  rw [hpc] at hnew
  cases hnew

theorem notified (hn : Notified s s') : Staffed s' := by
  cases hn with
  | nobody => exact h
  | executor e c hx => exact h.setExecutor hx .notified rfl rfl
  | stop i hw => exact { h with }

/-! ### The manager -/

/-- A reconciled pool has an executor, or is closed. -/
theorem of_slots (hslots : 1 ≤ s.slots) : s.ctl.done ∨ 1 ≤ s.live := by
  rcases h.live_eq with ⟨hd, -⟩ | hl
  · exact .inl hd
  · right
    omega

/-- The frame rule for a manager that touches no executor. -/
theorem setManager
    (hstaff : c.manager.staffed → s.ctl.done ∨ 1 ≤ s.live := by rintro ⟨⟩)
    (hresult : c.startupResult = .ready →
      s.ctl.startupResult = .ready ∨ s.ctl.manager.staffed := by exact .inl)
    (hdone : c.done = s.ctl.done := by first | rfl | simp) : Staffed { s with ctl := c } where
  uncancelled := h.uncancelled
  leaving := by
    intro x hx hpc
    show c.done ∧ _
    rw [hdone]
    exact h.leaving x hx hpc
  ready := by
    intro hexp
    show c.done ∨ 1 ≤ s.live
    rw [hdone]
    rcases hexp with hr | hm
    · exact h.ready (hresult hr)
    · exact hstaff hm
  waiting := h.waiting

end Staffed

end

theorem resolveStartup_ready {r : StartupResult}
    (h : (c.resolveStartup r).startupResult = .ready) (hr : r ≠ .ready := by simp) :
    c.startupResult = .ready := by
  unfold Control.resolveStartup at h
  split at h
  · exact absurd h hr
  · exact h

section

variable (h : Staffed s)
include h

/-- The end of the first critical section of `reconcileExecutors` without anything to
    spawn: the counter is at least the target, so somebody is there. -/
theorem reconcile_staffed (hr : Roster s) (hpc : s.ctl.manager = .reconcile) (target : Int)
    (hpos : 1 ≤ target) (fails : Bool) : Staffed (s.reconcile target fails) := by
  have halloc := hr.allocated
  rw [hpc] at halloc
  simp only [reserved] at halloc
  have hstaff : target ≤ s.allocatedExecutors → s.ctl.done ∨ 1 ≤ s.live := by
    intro hle
    exact h.of_slots (by omega)
  have hframe : Staffed { s with
      targetExecutors := target
      handles := s.handles.filter (fun e => !s.executorFinished e) } := { h with }
  unfold State.reconcile
  dsimp only
  split
  next hlt =>
    refine hframe.notifyAll.setManager (fun _ => ?_)
    rw [notifyAll_live]
    exact hstaff (by omega)
  · split
    · exact hframe.setManager (fun _ => hstaff (by omega))
    · split <;> exact hframe.setManager

/-- The executor just created is live. -/
theorem Staffed.spawn (m : ManagerPc) : Staffed { s.spawnExecutor with ctl.manager := m } := by
  have hlive : s.spawnExecutor.live = s.live + 1 := by
    show (s.executors ++ [_]).countP Executor.live = _
    rw [countP_append]
    rfl
  have hpos : 1 ≤ s.spawnExecutor.live := by omega
  refine ⟨?_, ?_, fun _ => .inr hpos, fun _ => hpos⟩
  · simpa [spawnExecutor, or_imp, forall_and] using h.uncancelled
  · simpa [spawnExecutor, or_imp, forall_and] using h.leaving

/-- Startup was resolved: by this manager, which is still here, or by `stop`. -/
theorem Staffed.of_resolved (hwf : s.ctl.WellFormed) (hpc : s.ctl.manager = .spawnFailed)
    (hres : s.ctl.startupResult ≠ .pending) : s.ctl.done ∨ 1 ≤ s.live := by
  cases hsr : s.ctl.startupResult with
  | pending => exact absurd hsr hres
  | ready => exact h.ready (.inl hsr)
  | stopped => exact .inl (hwf.result_stopped hsr)
  | cancelled =>
    have := hwf.result_final (.inl hsr)
    rw [hpc] at this
    cases this
  | failed =>
    have := hwf.result_final (.inr hsr)
    rw [hpc] at this
    cases this

/-- Every step of the manager. -/
theorem managerStep_staffed {n : Option Int} {hw : Int} {f : Bool} (hr : Roster s)
    (hwf : s.ctl.WellFormed) (hs : s.managerStep n hw f = some s') : Staffed s' := by
  -- While the manager was in a staffed phase, the claim was already there.
  have hprev : s.ctl.manager.staffed → s.ctl.done ∨ 1 ≤ s.live :=
    fun hm => h.ready (.inr hm)
  cases hpc : s.ctl.manager <;> simp only [managerStep, hpc] at hs
  case reconcile =>
    split at hs <;> cases hs
    exact reconcile_staffed h hr hpc _ (newTarget_pos n hw) f
  case drain =>
    split at hs <;> cases hs
    unfold requestDrain
    split
    · exact h.notifyAll.close _ rfl
    · exact h.setManager
  case reserving k =>
    cases hs
    refine h.setManager (fun hm => ?_)
    have hk := hr.reserving k hpc
    split at hm
    · cases hm
    · cases k with
      | zero => exact absurd hk (by omega)
      | succ k => cases hm
  case spawning k =>
    cases k with
    | zero =>
      cases hs
      exact h.setManager (fun _ => hprev (by rw [hpc]; rfl))
    | succ k =>
      cases hs
      exact { h.setManager (c := { s.ctl with manager := .claimed k }) with }
  case claimed k =>
    split at hs <;> cases hs
    · exact { h.setManager (c := { s.ctl with manager := .adopting true }) with }
    · exact h.spawn (.spawning k)
  case adopting b =>
    split at hs <;> cases hs
    cases b with
    | true => exact { h.setManager (c := { s.ctl with manager := .spawnFailed }) with }
    | false =>
      have h' := h.setManager (c := { s.ctl with manager := .checkCancelled })
        (fun _ => hprev (by rw [hpc]; rfl))
      exact { h' with }
  case spawnFailed =>
    cases hs
    refine h.setManager (fun hm => ?_)
    split at hm
    · cases hm
    next hres => exact h.of_resolved hwf hpc hres
  case spawnFailedPending =>
    cases hs
    refine h.setManager (fun hm => ?_)
    split at hm
    · cases hm
    next hne =>
      have halloc := hr.allocated
      rw [hpc] at halloc
      simp only [reserved] at halloc
      exact h.of_slots (by omega)
  case checkDone =>
    split at hs
    · cases hs
    · split at hs <;> cases hs
      · exact h.setManager (by rintro ⟨⟩) (fun hres => .inl (resolveStartup_ready hres))
      · exact h.setManager
  case resolveFailed =>
    cases hs
    exact h.setManager (by rintro ⟨⟩) (fun hres => .inl (resolveStartup_ready hres))
  case resolveReady =>
    cases hs
    exact h.setManager (by rintro ⟨⟩) (fun _ => .inr (by rw [hpc]; rfl))
  case resolveCancelled =>
    split at hs <;> cases hs
    · exact h.setManager (by rintro ⟨⟩) (by simp)
    · exact h.setManager
  case checkCancelled =>
    cases hs
    exact h.setManager (fun _ => hprev (by rw [hpc]; rfl))
  case loopHead =>
    cases hs
    refine h.setManager (fun hm => ?_)
    split at hm <;> cases hm
  case sendReady | sleeping | exiting =>
    cases hs
    exact h.setManager
  all_goals cases hs

/-! ### Executors, callers and the rest -/

/-- An excess executor returns; at least one other stays, or the pool is closed and empty. -/
theorem Staffed.excess (hr : Roster s) (hx : s.executors[e]? = some x) (hpc : x.pc = .woken)
    (hlt : s.targetExecutors < s.allocatedExecutors) :
    Staffed { s.setExecutor e x .finished with
      allocatedExecutors := s.allocatedExecutors - 1, mu := none } := by
  have hpos := hr.target_pos (length_pos_of_mem (mem_of_getElem? hx))
  have halloc := hr.allocated
  -- A claimed slot would mean that the counter is within the target.
  have hres : s.ctl.manager.reserved = 0 := by
    cases hm : s.ctl.manager with
    | claimed n =>
      have := hr.room n (by rw [hm]; rfl)
      omega
    | _ => rfl
  have hlive : (s.setExecutor e x .finished).live + 1 = s.live := by
    have := live_setExecutor hx .finished
    simpa [Executor.live, hpc] using this
  have hstill : (s.ctl.done ∧ size s.queue = 0) ∨
      1 ≤ (s.setExecutor e x .finished).live := by
    rcases h.live_eq with hd | hl
    · exact .inl hd
    · right
      omega
  refine ⟨forall_mem_set h.uncancelled (h.uncancelled x (mem_of_getElem? hx)),
    forall_mem_set h.leaving (by simp), fun _ => hstill.imp_left And.left, fun hne => ?_⟩
  exact hstill.resolve_left (fun hz => hne hz.2)

/-- An executor of a closed and empty pool leaves its loop. -/
theorem Staffed.drained (pc : ExecPc) (hx : s.executors[e]? = some x)
    (hsize : size s.queue = 0) (hdone : s.ctl.done) : Staffed (s.setExecutor e x pc) where
  uncancelled := forall_mem_set h.uncancelled (h.uncancelled x (mem_of_getElem? hx))
  leaving _ _ _ := ⟨hdone, hsize⟩
  ready _ := .inl hdone
  waiting hne := absurd hsize hne

/-- A step of an executor. -/
theorem execMove_staffed [LawfulWaitQueue Q] (hr : Roster s) (ht : TaskInv s)
    (hx : s.executors[e]? = some x) (hm : ExecMove s e x s') : Staffed s' := by
  obtain ⟨pc, cancelled⟩ := x
  cases hm with
  | park hpc => rcases hpc with rfl | rfl <;> exact h.setExecutor hx _ rfl rfl
  | wake hpc =>
    rcases hpc with rfl | rfl | rfl <;> exact { h.setExecutor hx .woken rfl rfl with }
  | idleExit hpc hc =>
    -- Nobody cancels executors.
    rw [h.uncancelled _ (mem_of_getElem? hx)] at hc
    cases hc
  | excess hpc hlt => exact h.excess hr hx hpc hlt
  | drained hpc hsize hdone => exact { h.drained .leaving hx hsize hdone with }
  | proceed hpc =>
    cases hpc
    exact h.setExecutor hx _ rfl rfl
  | dequeue hpc t q hpop =>
    cases hpc
    obtain ⟨l, hl, -⟩ := ht.balance
    obtain ⟨htl, hl'⟩ := holds_pop hl hpop
    have hpos : size s.queue ≠ 0 := by
      rw [holds_size hl]
      exact Nat.ne_of_gt (length_pos_of_mem htl)
    have h' := h.setExecutor hx (.dequeued t) rfl rfl
    refine ⟨h'.uncancelled, ?_, h'.ready, fun _ => h'.waiting hpos⟩
    -- Nobody is leaving, since the queue was not empty.
    intro x' hx' hpc'
    exact absurd (h'.leaving x' hx' hpc').2 hpos
  | run t hpc =>
    cases hpc
    exact { h.setExecutor hx (.running t) rfl rfl with }
  | finish t hpc =>
    cases hpc
    exact { h.setExecutor hx .loopHead rfl rfl with }
  | release hpc =>
    obtain ⟨hdone, hsize⟩ := h.leaving _ (mem_of_getElem? hx) hpc
    exact { h.drained .finished hx hsize hdone with }

/-- A step of `addTask`. -/
theorem addMove_staffed [LawfulWaitQueue Q] {i : TaskId} {c : AddCall R} (hwf : s.ctl.WellFormed)
    (hmx : MutexInv s) (ht : TaskInv s) (hc : s.adds[i]? = some c) (hm : AddMove s i c s') :
    Staffed s' := by
  cases hm with
  | subscribeFired τ rest hpc hτ f =>
    unfold onCancel
    split <;> exact { h with }
  | notify hpc s₁ hn => exact { h.notified hn with }
  | insert hpc q hpush =>
    -- The pool is running, hence open and staffed.
    obtain ⟨-, hrun⟩ := hmx.add i c hc (by rw [hpc]; rfl)
    have hopen : s.ctl.done = false := by rw [hwf.done_eq, hrun]; rfl
    have hlive : 1 ≤ s.live := by
      rcases h.ready (.inl (hwf.running hrun).1) with hd | hl
      · simp [hopen] at hd
      · exact hl
    refine ⟨h.uncancelled, ?_, h.ready, fun _ => hlive⟩
    intro x hx hl
    have := (h.leaving x hx hl).1
    simp [hopen] at this
  | insertFail hpc q hpush =>
    obtain ⟨l, hl, hbal⟩ := ht.balance
    have hil := not_waiting_of_not_accepted hbal (ht.fresh hc (by rw [hpc]; rfl))
    exact { h.setQueue q (by rw [holds_size hl, holds_size (holds_push_fail hl hil hpush)]) with }
  | _ => exact { h with }

theorem watchMove_staffed [LawfulWaitQueue Q] {k : Nat} (ht : TaskInv s) (hm : WatchMove s k s') :
    Staffed s' := by
  cases hm with
  | dead t hw ht => exact { h with }
  | promote t hw hmu pc hpc =>
    obtain ⟨l, hl, -⟩ := ht.balance
    exact { h.setQueue _ (by rw [holds_size hl, holds_size (holds_promote t s.world.now hl)]) with }
  | notify hw s₁ hn => exact { h.notified hn with }

/-- `start` neither closes the pool nor declares it ready. -/
theorem startStep_staffed {f : Bool} (hs : s.ctl.startStep f = some c) :
    Staffed { s with ctl := c } := by
  have hkeep : c.done = s.ctl.done → c.startupResult = s.ctl.startupResult →
      (c.manager.staffed → s.ctl.manager.staffed) → Staffed { s with ctl := c } := by
    intro hd hres hman
    exact h.setManager (fun hm => h.ready (.inr (hman hm))) (fun hr => .inl (hres ▸ hr)) hd
  unfold Control.startStep at hs
  split at hs
  all_goals apply hkeep <;> grind [Control.resolveStart, staffed]

/-- A step of `stop`. -/
theorem stopStep_staffed (hs : s.stopStep = some s') : Staffed s' := by
  cases hpc : s.ctl.stopper <;> simp only [stopStep, hpc] at hs
  case notifyStopped =>
    split at hs <;> cases hs
    exact { h.notifyAll with }
  case joinManager =>
    split at hs <;> cases hs
    · exact h.setManager (fun hm => h.ready (.inr (by simpa using hm)))
        (fun hres => .inl (resolveStartup_ready hres))
    · exact { h with }
  case signalReady | cancelManager | storeStopped => cases hs; exact { h with }
  case awaitFields | awaitManager | takeExecutors | awaitExecutors | awaitWatches =>
    split at hs <;> cases hs
    exact { h with }
  all_goals cases hs

/-- **Staffing is kept by every step of a pool whose executors nobody cancels.** -/
theorem step_staffed [LawfulWaitQueue Q] {a : Action R} (hwf : s.ctl.WellFormed) (hmx : MutexInv s)
    (hr : Roster s) (ht : TaskInv s) (hok : noOutsideCancel s a) (hs : step s a = some s') :
    Staffed s' := by
  cases move_of_step hs with
  | background | waiters | callAdd => exact { h with }
  | callStart ctx =>
    unfold Control.callStart
    split <;> exact { h with }
  | start fails c hc => exact startStep_staffed h hc
  | claimStop hmu hst hst' =>
    exact h.notifyAll.close _ rfl
  | stop s' hs => exact stopStep_staffed h hs
  | manager n hw f s' hs => exact managerStep_staffed h hr hwf hs
  | executor e x s' hx hm | cancelled e x s' hx hc hm => exact execMove_staffed h hr ht hx hm
  | cancel e x hx => cases hok
  | spurious e s' hn => exact h.notified hn
  | add i c f g w s' hc hm => exact addMove_staffed h hwf hmx ht hc hm
  | watch k alive w s' hm => exact watchMove_staffed h ht hm

end

theorem reachable_staffed [LawfulWaitQueue Q] (h : (system Q).ReachableIf noOutsideCancel s) :
    Staffed s :=
  h.invariant init_staffed (fun hr hi hok hs =>
    step_staffed hi (reachable_wellFormed hr) (reachable_mutexInv hr) (reachable_roster hr)
      (reachable_taskInv hr) hok hs)

end ServiceLib.Pool
