import ServiceLib.Pool.PriorityQueue
import ServiceLib.Pool.Staffing
import ServiceLib.Pool.TaskQueue

namespace ServiceLib.Pool

/-!
# Pool — dequeuing from an empty queue

`executorLoop` reads `allocatedExecutors_` twice: in its wait predicate, and in
`shouldExitAsExcess`.  Both reads happen with `mu_` held, but `ExecutorSlotGuard` decrements
the counter without it.  When the counter is all that made the predicate true, a decrement
between the two reads lets the executor go on to dequeue from an empty queue.
-/

open List State WaitQueue

variable {Q R : Type} [WaitQueue Q R]

open LawfulWaitQueue

/-! ### The harmful step -/

/-- Some executor was woken, and the only reason left to it is one excess slot. -/
def State.barelyExcess (s : State Q R) : Bool :=
  s.executors.any (fun x => x.pc = .woken) && size s.queue = 0 && !s.ctl.done &&
    s.allocatedExecutors = s.targetExecutors + 1

/-- Executor `e` is about to release its slot. -/
def State.releases (s : State Q R) (e : Nat) : Bool :=
  s.executors[e]?.any (fun x => x.pc = .leaving)

/-- A slot is released between the two reads of an executor that is barely excess. -/
def lateRelease (s : State Q R) : Action R → Bool
  | .executor e => s.releases e && s.barelyExcess
  | _ => false

/-- No slot is released too late. -/
def noLateRelease (s : State Q R) (a : Action R) : Prop := lateRelease s a = false

instance (s : State Q R) (a : Action R) : Decidable (noLateRelease s a) :=
  inferInstanceAs (Decidable (lateRelease s a = false))

/-! ### The invariant -/

/-- A woken executor still has its reason, and one that is about to dequeue has a task. -/
structure DequeueInv (s : State Q R) : Prop where
  woken : ∀ x ∈ s.executors, x.pc = .woken → s.wakePredicate
  dequeuing : ∀ x ∈ s.executors, x.pc = .dequeuing → size s.queue ≠ 0

theorem wakePredicate_iff (s : State Q R) :
    s.wakePredicate ↔ size s.queue ≠ 0 ∨ s.ctl.done ∨
      s.targetExecutors < s.allocatedExecutors := by
  simp [wakePredicate, or_assoc]

theorem init_dequeueInv : DequeueInv (init Q) where
  woken := by simp [init]
  dequeuing := by simp [init]

variable {s s' : State Q R} {e : Nat} {x : Executor} {a : Action R} {x' : Executor} {pc : ExecPc}

/-- With nobody inside there is nothing to prove. -/
theorem dequeueInv_of_outside (h : ∀ x ∈ s.executors, x.pc.inside = false) : DequeueInv s where
  woken := by
    intro x hx hpc
    have := h x hx
    rw [hpc] at this
    cases this
  dequeuing := by
    intro x hx hpc
    have := h x hx
    rw [hpc] at this
    cases this

/-- The frame rule: nobody gets inside, the queue keeps its size, and reasons last. -/
theorem DequeueInv.congr (h : DequeueInv s)
    (hexec : ∀ x' ∈ s'.executors, x'.pc.inside → ∃ x ∈ s.executors, x.pc = x'.pc)
    (hsize : size s'.queue = size s.queue)
    (hpred : s.wakePredicate → s'.wakePredicate) : DequeueInv s' where
  woken := by
    intro x' hx' hpc
    obtain ⟨x, hx, hxpc⟩ := hexec x' hx' (by rw [hpc]; rfl)
    exact hpred (h.woken x hx (hxpc.trans hpc))
  dequeuing := by
    intro x' hx' hpc
    obtain ⟨x, hx, hxpc⟩ := hexec x' hx' (by rw [hpc]; rfl)
    rw [hsize]
    exact h.dequeuing x hx (hxpc.trans hpc)

/-- The control record may change while `done_` stays as it is. -/
theorem DequeueInv.setCtl (h : DequeueInv s) (c : Control) (hdone : c.done = s.ctl.done) :
    DequeueInv { s with ctl := c } := by
  refine h.congr (fun x hx _ => ⟨x, hx, rfl⟩) rfl (fun hpred => ?_)
  rw [wakePredicate] at hpred ⊢
  rw [hdone]
  exact hpred

omit [WaitQueue Q R] in
theorem mem_notifyAll_inside (hx' : x' ∈ s.notifyAll.executors)
    (hin : x'.pc.inside) : ∃ x ∈ s.executors, x.pc = x'.pc := by
  obtain ⟨x, hx, rfl⟩ := mem_map.mp hx'
  unfold wakeExecutor at hin ⊢
  split
  next hpc =>
    rw [if_pos hpc] at hin
    cases hin
  · exact ⟨x, hx, rfl⟩

omit [WaitQueue Q R] in
/-- An executor that moves to a place outside. -/
theorem mem_setExecutor_inside (hpc : pc.inside = false)
    (hx' : x' ∈ (s.setExecutor e x pc).executors) (hin : x'.pc.inside) :
    ∃ y ∈ s.executors, y.pc = x'.pc := by
  rcases mem_or_eq_of_mem_set hx' with h | h
  · exact ⟨x', h, rfl⟩
  · subst h
    simp [hpc] at hin

omit [WaitQueue Q R] in
theorem MutexInv.outside (h : MutexInv s) (hmu : s.mu = none) :
    ∀ x ∈ s.executors, x.pc.inside = false := by
  intro x hx
  obtain ⟨e, he⟩ := mem_iff_getElem?.mp hx
  exact h.free_executor hmu he

omit [WaitQueue Q R] in
/-- When the one executor inside gets out, nobody is inside. -/
theorem MutexInv.outside_set (h : MutexInv s) (hx : s.executors[e]? = some x)
    (hin : x.pc.inside) (hpc : pc.inside = false) :
    ∀ y ∈ (s.setExecutor e x pc).executors, y.pc.inside = false := by
  intro y hy
  obtain ⟨e', he'⟩ := mem_iff_getElem?.mp hy
  rcases getElem?_set_cases he' with ⟨-, rfl⟩ | ⟨hne, hy'⟩
  · exact hpc
  · cases hyin : y.pc.inside with
    | false => rfl
    | true => exact absurd (h.executor_unique hx hy' hin hyin) hne

section

variable (h : DequeueInv s)
include h

theorem DequeueInv.notified (hn : Notified s s') : DequeueInv s' := by
  cases hn with
  | nobody => exact h
  | stop => exact { h with }
  | executor e c hx =>
    refine h.congr (fun x' hx' hin => ?_) rfl id
    exact mem_setExecutor_inside (x := ⟨.parked, c⟩) (rfl : ExecPc.inside .notified = false)
      hx' hin

/-! ### Steps of the executors -/

/-- A released slot takes nobody's reason away, unless somebody is barely excess. -/
theorem DequeueInv.release (hbare : s.barelyExcess = false) :
    DequeueInv { s.setExecutor e x .finished with
      allocatedExecutors := s.allocatedExecutors - 1 } where
  woken := by
    intro x' hx' hpc
    obtain ⟨y, hy, hypc⟩ := mem_setExecutor_inside rfl hx' (by rw [hpc]; rfl)
    have hw : y.pc = .woken := hypc.trans hpc
    have hpred := (wakePredicate_iff s).mp (h.woken y hy hw)
    have hany : s.executors.any (fun x => x.pc = .woken) :=
      any_eq_true.mpr ⟨y, hy, decide_eq_true hw⟩
    refine (wakePredicate_iff _).mpr ?_
    show size s.queue ≠ 0 ∨ s.ctl.done ∨
      s.targetExecutors < s.allocatedExecutors - 1
    rcases hpred with hsize | hdone | hlt
    · exact .inl hsize
    · exact .inr (.inl hdone)
    · by_contra hno
      push Not at hno
      obtain ⟨hsize, hdone, hle⟩ := hno
      have heq : s.allocatedExecutors = s.targetExecutors + 1 := by omega
      simp [barelyExcess, hany, hsize, hdone, heq] at hbare
  dequeuing := by
    intro x' hx' hpc
    obtain ⟨y, hy, hypc⟩ := mem_setExecutor_inside rfl hx' (by rw [hpc]; rfl)
    exact h.dequeuing y hy (hypc.trans hpc)

/-- A step of an executor. -/
theorem execMove_dequeueInv (hmx : MutexInv s) (hx : s.executors[e]? = some x)
    (hm : ExecMove s e x s') (hlate : x.pc = .leaving → s.barelyExcess = false) :
    DequeueInv s' := by
  have hmem := mem_of_getElem? hx
  cases hm with
  | park | idleExit | run | finish =>
    exact h.congr (fun _ hx' hin => mem_setExecutor_inside rfl hx' hin) rfl id
  | wake hpc hmu hpred =>
    -- Nobody else is inside, and this executor has just evaluated the predicate.
    refine ⟨fun _ _ _ => hpred, forall_mem_set (fun x' hx' hpc' => ?_) (by rintro ⟨⟩)⟩
    have hout := hmx.outside hmu x' hx'
    rw [hpc'] at hout
    cases hout
  | excess hpc | drained hpc | dequeue hpc =>
    exact dequeueInv_of_outside (hmx.outside_set hx (by rw [hpc]; rfl) rfl)
  | proceed hpc hle hwork =>
    -- The excess reason is refuted by the second read, the other one by the check after it.
    have hsize : size s.queue ≠ 0 := by
      intro hzero
      rcases (wakePredicate_iff s).mp (h.woken x hmem hpc) with hne | hdone | hlt
      · exact hne hzero
      · simp [hwork hzero] at hdone
      · omega
    exact ⟨forall_mem_set h.woken (by rintro ⟨⟩), fun _ _ _ => hsize⟩
  | release hpc => exact h.release (hlate hpc)

/-! ### Steps of everybody else -/

/-- A step of `addTask`. -/
theorem addMove_dequeueInv {i : TaskId} {c : AddCall R} (hmx : MutexInv s)
    (hc : s.adds[i]? = some c) (hm : AddMove s i c s') : DequeueInv s' := by
  -- A call that inserts holds `mu_`, so no executor is inside.
  have hout : c.pc.inside → ∀ x ∈ s.executors, x.pc.inside = false := by
    intro hin x hx
    obtain ⟨e, he⟩ := mem_iff_getElem?.mp hx
    cases hxin : x.pc.inside with
    | false => rfl
    | true => simp [hmx.add_outside he hxin hc] at hin
  cases hm with
  | enter | pass | reject | lock | subscribe | registerFail | unwind =>
    exact { h with }
  | subscribeFired _ _ _ _ f =>
    unfold onCancel
    split <;> exact { h with }
  | insert hpc | insertFail hpc => exact dequeueInv_of_outside (hout (by rw [hpc]; rfl))
  | notify hpc s₁ hn => exact { h.notified hn with }

theorem watchMove_dequeueInv {k : Nat} (hmx : MutexInv s) (hm : WatchMove s k s') :
    DequeueInv s' := by
  cases hm with
  | dead => exact { h with }
  | promote t hw hmu => exact dequeueInv_of_outside (hmx.outside hmu)
  | notify hw s₁ hn => exact { h.notified hn with }

theorem stopStep_dequeueInv (hs : s.stopStep = some s') : DequeueInv s' := by
  cases stopStep_effect hs with
  | control c handles hdone => exact { h.setCtl c hdone with }
  | notify c hdone hst =>
    have h' : DequeueInv s.notifyAll :=
      h.congr (fun _ hx' hin => mem_notifyAll_inside hx' hin) rfl id
    exact h'.setCtl c hdone

/-- A step of the manager. -/
theorem managerStep_dequeueInv {n : Option Int} {hw : Int} {f : Bool} (hmx : MutexInv s)
    (hr : Roster s) (hs : s.managerStep n hw f = some s') : DequeueInv s' := by
  cases managerStep_effect hs with
  | control c handles new hdone hst => exact { h.setCtl c hdone with }
  | drain hmu =>
    refine h.congr (fun _ hx' hin => mem_notifyAll_inside hx' hin) rfl (fun _ => ?_)
    exact (wakePredicate_iff _).mpr (.inr (.inl rfl))
  | shrink target handles m hmu =>
    -- The target changes under `mu_`, when nobody is between the two reads.
    have hout := hmx.outside hmu
    refine dequeueInv_of_outside (fun x' hx' => ?_)
    cases hin : x'.pc.inside with
    | false => rfl
    | true =>
      obtain ⟨x, hx, hxpc⟩ := mem_notifyAll_inside hx' hin
      simp [← hxpc, hout x hx] at hin
  | retarget target handles m hmu hle => exact dequeueInv_of_outside (hmx.outside hmu)
  | claim k hpc =>
    refine h.congr (fun x hx _ => ⟨x, hx, rfl⟩) rfl (fun hpred => ?_)
    refine (wakePredicate_iff _).mpr (((wakePredicate_iff s).mp hpred).imp id (Or.imp id ?_))
    intro hlt
    show s.targetExecutors < s.allocatedExecutors + 1
    omega
  | unclaim k hpc =>
    -- The manager gives a slot back only while it is growing, when nobody is excess.
    have hroom := hr.room k (by rw [hpc]; rfl)
    refine h.congr (fun x hx _ => ⟨x, hx, rfl⟩) rfl (fun hpred => ?_)
    refine (wakePredicate_iff _).mpr (((wakePredicate_iff s).mp hpred).imp id (Or.imp id ?_))
    intro hlt
    omega
  | spawn k hpc =>
    exact h.congr (forall_mem_concat (fun x hx _ => ⟨x, hx, rfl⟩) (by rintro ⟨⟩)) rfl id

/-- **Every step but a late release keeps the invariant.** -/
theorem step_dequeueInv (hmx : MutexInv s) (hr : Roster s) (hok : noLateRelease s a)
    (hs : step s a = some s') : DequeueInv s' := by
  cases move_of_step hs with
  | background | waiters | callAdd => exact { h with }
  | callStart ctx =>
    refine h.setCtl _ ?_
    unfold Control.callStart
    split <;> rfl
  | start fails c hc => exact h.setCtl c (startStep_state hc).1
  | claimStop =>
    refine h.congr (fun _ hx' hin => mem_notifyAll_inside hx' hin) rfl (fun _ => ?_)
    exact (wakePredicate_iff _).mpr (.inr (.inl rfl))
  | stop s' hs => exact stopStep_dequeueInv h hs
  | manager n hw f s' hs => exact managerStep_dequeueInv h hmx hr hs
  | executor e x s' hx hm =>
    refine execMove_dequeueInv h hmx hx hm (fun hpc => ?_)
    simpa [noLateRelease, lateRelease, releases, hx, hpc] using hok
  | cancelled e x s' hx hc hm =>
    refine execMove_dequeueInv h hmx hx hm (fun hpc => ?_)
    -- Only a waiting executor comes back from a cancelled wait.
    obtain ⟨pc, c⟩ := x
    subst hpc
    simp [step, cancelledWake, hx] at hs
  | cancel e x hx =>
    exact h.congr (forall_mem_set (fun x' hx' _ => ⟨x', hx', rfl⟩)
      (fun _ => ⟨x, mem_of_getElem? hx, rfl⟩)) rfl id
  | spurious e s' hn => exact h.notified hn
  | add i c f g w s' hc hm => exact addMove_dequeueInv h hmx hc hm
  | watch k alive w s' hm => exact watchMove_dequeueInv h hmx hm

end

theorem reachable_dequeueInv (h : (system Q).ReachableIf noLateRelease s) : DequeueInv s := by
  refine h.invariant init_dequeueInv ?_
  intro s a s' hr hi hok hs
  exact step_dequeueInv hi (reachable_mutexInv hr) (reachable_roster hr) hok hs

/-! ### The late release does harm -/

/-- Some executor is about to dequeue from an empty queue. -/
def State.dequeuesEmpty (s : State Q R) : Bool :=
  s.executors.any (fun x => x.pc = .dequeuing) && size s.queue = 0

theorem dequeuesEmpty_iff (s : State Q R) :
    s.dequeuesEmpty ↔
      (∃ x ∈ s.executors, x.pc = .dequeuing) ∧ size s.queue = 0 := by
  simp [dequeuesEmpty]

theorem DequeueInv.not_dequeuesEmpty (h : DequeueInv s) : s.dequeuesEmpty = false := by
  refine Bool.eq_false_iff.mpr (fun hempty => ?_)
  obtain ⟨⟨x, hx, hpc⟩, hsize⟩ := (dequeuesEmpty_iff s).mp hempty
  exact h.dequeuing x hx hpc hsize

/-- A woken executor that has lost its only reason goes on to dequeue from the empty queue. -/
theorem dequeuesEmpty_of_proceed {y : Executor} (hy : s.executors[e]? = some y)
    (hpc : y.pc = .woken) (hle : s.allocatedExecutors ≤ s.targetExecutors)
    (hsize : size s.queue = 0) (hdone : s.ctl.done = false) :
    ∃ s', step s (.executor e) = some s' ∧ s'.dequeuesEmpty := by
  have hlt : e < s.executors.length := lt_of_getElem? hy
  refine ⟨s.setExecutor e y .dequeuing, ?_, (dequeuesEmpty_iff _).mpr
    ⟨⟨{ y with pc := .dequeuing }, ?_, rfl⟩, hsize⟩⟩
  · simp [step, executorStep, hy, hpc, exitOrDequeue, Int.not_lt.mpr hle, hsize, hdone]
  · exact mem_of_getElem? (getElem?_set_self hlt)

/-- After a late release, the executor that was barely excess dequeues from the empty queue
    as soon as it runs. -/
theorem lateRelease_harms (hlate : lateRelease s a) (hs : step s a = some s') :
    ∃ e s'', step s' (.executor e) = some s'' ∧ s''.dequeuesEmpty := by
  cases a with
  | executor e =>
    simp only [lateRelease, releases, barelyExcess, Bool.and_eq_true,
      Option.any_eq_true, decide_eq_true_eq, any_eq_true, Bool.not_eq_true'] at hlate
    obtain ⟨⟨x, hx, hpc⟩, ⟨⟨⟨y, hy, hypc⟩, hsize⟩, hdone⟩, heq⟩ := hlate
    obtain ⟨e', hy⟩ := mem_iff_getElem?.mp hy
    simp only [step, executorStep, hx, hpc, Option.some.injEq] at hs
    subst hs
    have hne : e ≠ e' := by
      rintro rfl
      rw [hx] at hy
      cases hy
      simp [hpc] at hypc
    have hle : s.allocatedExecutors - 1 ≤ s.targetExecutors := by omega
    refine ⟨e', dequeuesEmpty_of_proceed (y := y) ?_ hypc hle hsize hdone⟩
    show (s.executors.set e _)[e']? = some y
    rw [getElem?_set_ne hne]
    exact hy
  | _ => cases hlate

/-! ### Both pools -/

/-- Two executors, one of them cancelled from outside while the pool shrinks to one.  The
    other is woken by the excess slot; the cancelled one releases that slot before the other
    has looked at the counter again. -/
def lateReleaseSchedule (R : Type) : List (Action R) :=
  [ startUp 2,
    -- Both executors wait; executor 1 is cancelled and leaves its loop.
    [.executor 0, .executor 1, .cancelExecutor 1, .cancelledWake 1],
    -- The target falls to one while two slots are allocated.
    replicate 4 (.manager (some 1) 1 false),
    -- Executor 0 is woken, the slot is released, executor 0 decides.
    [.executor 0, .executor 1, .executor 0] ].flatten

/-- **Both pools can dequeue from an empty queue.** -/
theorem executor_dequeues_empty :
    (∃ s, (system TaskQueue).Reachable s ∧ s.dequeuesEmpty = true) ∧
      ∃ s, (system PriorityQueue).Reachable s ∧ s.dequeuesEmpty = true :=
  ⟨System.exists_reachable_of_run _ (lateReleaseSchedule Bool) _ (by decide +kernel),
    System.exists_reachable_of_run _ (lateReleaseSchedule PriorityRequest) _ (by decide +kernel)⟩

/-- **No dequeue from an empty queue without a late release.**  In both pools, every run
    without a late release keeps the queue of a dequeuing executor non-empty, and after a late
    release one step of some executor leads to a dequeue on an empty queue. -/
theorem executor_finds_task (s : State TaskQueue Bool) (p : State PriorityQueue PriorityRequest) :
    (((system TaskQueue).ReachableIf noLateRelease s → s.dequeuesEmpty = false) ∧
      ∀ a s', ¬ noLateRelease s a → step s a = some s' →
        ∃ e t, step s' (.executor e) = some t ∧ t.dequeuesEmpty = true) ∧
    ((system PriorityQueue).ReachableIf noLateRelease p → p.dequeuesEmpty = false) ∧
      ∀ a p', ¬ noLateRelease p a → step p a = some p' →
        ∃ e t, step p' (.executor e) = some t ∧ t.dequeuesEmpty = true := by
  refine ⟨⟨?_, ?_⟩, ?_, ?_⟩
  · intro h
    exact (reachable_dequeueInv h).not_dequeuesEmpty
  · intro a s' hlate hs
    exact lateRelease_harms (Bool.not_eq_false _ ▸ hlate) hs
  · intro h
    exact (reachable_dequeueInv h).not_dequeuesEmpty
  · intro a p' hlate hs
    exact lateRelease_harms (Bool.not_eq_false _ ▸ hlate) hs

/-- One executor and one task, up to the dequeue. -/
def dequeueSchedule {R : Type} (r : R) : List (Action R) :=
  [ startUp 1, [.callAdd {} r], replicate 5 (.add 0 false false none),
    replicate 2 (.executor 0) ].flatten

/-- Whether some executor is about to dequeue. -/
def State.dequeues (s : State Q R) : Bool := s.executors.any (fun x => x.pc = .dequeuing)

theorem executor_finds_task_first :
    (∃ s, (system TaskQueue).ReachableIf noLateRelease s ∧ s.dequeues = true ∧
      s.dequeuesEmpty = false) ∧
    ∃ s, (system PriorityQueue).ReachableIf noLateRelease s ∧ s.dequeues = true ∧
      s.dequeuesEmpty = false := by
  obtain ⟨s, hs, hp⟩ := (system TaskQueue).exists_reachableIf_of_run noLateRelease
    (dequeueSchedule true) (·.dequeues = true) (by decide +kernel)
  obtain ⟨s', hs', hp'⟩ := (system PriorityQueue).exists_reachableIf_of_run noLateRelease
    (dequeueSchedule ⟨0, true, true⟩) (·.dequeues = true) (by decide +kernel)
  obtain ⟨⟨hfifo, -⟩, hpriority, -⟩ := executor_finds_task s s'
  exact ⟨⟨s, hs, hp, hfifo hs⟩, ⟨s', hs', hp', hpriority hs'⟩⟩

end ServiceLib.Pool
