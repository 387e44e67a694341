import ServiceLib.Lib.ThreadList
import ServiceLib.Pool.Lifecycle

namespace ServiceLib.Pool

/-!
# Pool — counting and joining executors

* The counter `allocatedExecutors_` is exactly the number of executors that still own a
  slot, plus the slot the manager has claimed for one it is about to create.
* Growth never overshoots: as long as the manager has executors to spawn, the counter plus
  those stays within the target.
* Every executor that has not returned can be joined: its handle is in `executors_`, in the
  local vector of the manager, or in the vector of the `stop` that waits for it.
-/

open List Option Function State Executor ManagerPc

variable {Q R : Type}

/-! ### The invariant -/

/-- The executors the manager is committed to spawn, beyond a slot already claimed. -/
def ManagerPc.toSpawn : ManagerPc → Option Nat
  | .reserving n | .spawning n | .claimed n => some n
  | _ => none

/-- A manager that may have created handles it has not handed over. -/
def ManagerPc.holdsHandles : ManagerPc → Bool
  | .spawning _ | .claimed _ | .adopting _ => true
  | _ => false

/-- Somebody has the handle of executor `e` and will join it. -/
def State.Joinable (s : State Q R) (e : Nat) : Prop :=
  match s.ctl.stopper with
  | .awaitExecutors toWait => e ∈ toWait
  | .awaitWatches | .storeStopped | .notifyStopped | .returned => False
  | _ => e ∈ s.handles ∨ e ∈ s.newExecutors

/-- The books of the executors. -/
structure Roster (s : State Q R) : Prop where
  allocated : s.allocatedExecutors = s.slots + s.ctl.manager.reserved
  room : ∀ n, s.ctl.manager.toSpawn = some n → s.allocatedExecutors + n ≤ s.targetExecutors
  reserving : ∀ n, s.ctl.manager = .reserving n → 0 < n
  target_pos : 0 < s.executors.length → 1 ≤ s.targetExecutors
  adopted : s.ctl.manager.holdsHandles = false → s.newExecutors = []
  joinable : ∀ e x, s.executors[e]? = some x → x.pc ≠ .finished → s.Joinable e

theorem init_roster [WaitQueue Q R] : Roster (init Q) where
  allocated := rfl
  room := by simp [init, Control.init, toSpawn]
  reserving := by simp [init, Control.init]
  target_pos := by simp [init]
  adopted := by simp [init]
  joinable := by simp [init]

/-! ### Executors that change their program counter -/

variable {e : Nat} {x : Executor} {s s' : State Q R}

/-- A slot count after executor `e` moved. -/
theorem slots_setExecutor (hx : s.executors[e]? = some x) (pc : ExecPc) :
    (s.setExecutor e x pc).slots + (if x.hasSlot then 1 else 0) =
      s.slots + (if hasSlot ⟨pc, x.cancelled⟩ then 1 else 0) :=
  countP_set hasSlot hx _

/-- The frame rule: executors may move as long as slots and counter agree and nobody comes
    back from the dead. -/
theorem Roster.congr (h : Roster s)
    (hslots : s'.allocatedExecutors - s'.slots = s.allocatedExecutors - s.slots)
    (hback : ∀ (e : Nat) (x' : Executor), s'.executors[e]? = some x' → x'.pc ≠ .finished →
      ∃ x : Executor, s.executors[e]? = some x ∧ x.pc ≠ .finished)
    (hlen : s'.executors.length = s.executors.length)
    (halloc : s'.allocatedExecutors ≤ s.allocatedExecutors) (hctl : s'.ctl = s.ctl)
    (htarget : s'.targetExecutors = s.targetExecutors) (hhandles : s'.handles = s.handles)
    (hnew : s'.newExecutors = s.newExecutors) : Roster s' where
  allocated := by
    have := h.allocated
    rw [hctl]
    omega
  room := by
    intro n hn
    rw [hctl] at hn
    have := h.room n hn
    omega
  reserving := by rw [hctl]; exact h.reserving
  target_pos := by rw [hlen, htarget]; exact h.target_pos
  adopted := by rw [hctl, hnew]; exact h.adopted
  joinable := by
    intro e x' hx' hpc
    obtain ⟨x, hx, hpc'⟩ := hback e x' hx' hpc
    have hj := h.joinable e x hx hpc'
    unfold State.Joinable at hj ⊢
    rw [hctl, hhandles, hnew]
    exact hj

/-- A move of an executor that had not returned. -/
theorem Roster.setExecutor (h : Roster s) (hx : s.executors[e]? = some x) (pc : ExecPc)
    (hold : x.hasSlot) (hnew : hasSlot ⟨pc, x.cancelled⟩ = true) :
    Roster (s.setExecutor e x pc) := by
  have hslots := slots_setExecutor hx pc
  rw [hold, hnew] at hslots
  refine h.congr ?_ ?_ (by simp [State.setExecutor]) (Int.le_refl _) rfl rfl rfl rfl
  · show s.allocatedExecutors - _ = _
    omega
  · refine forall_getElem?_set (fun _ x' hx' hpc => ⟨x', hx', hpc⟩) (fun _ => ⟨x, hx, ?_⟩)
    intro hfin
    simp [hasSlot, hfin] at hold

/-- An executor returns and gives its slot back. -/
theorem Roster.release (h : Roster s) (hx : s.executors[e]? = some x) (hold : x.hasSlot) :
    Roster { s.setExecutor e x .finished with
      allocatedExecutors := s.allocatedExecutors - 1 } := by
  have hslots := slots_setExecutor hx .finished
  rw [hold] at hslots
  refine h.congr ?_ ?_ (by simp [State.setExecutor]) (Int.sub_le_self _ (by decide)) rfl rfl
    rfl rfl
  · show s.allocatedExecutors - 1 - ((s.setExecutor e x .finished).slots : Int) = _
    simp only [if_true, hasSlot, Bool.false_eq_true, if_false] at hslots
    omega
  · exact forall_getElem?_set (fun _ x' hx' hpc => ⟨x', hx', hpc⟩) (fun hpc => absurd rfl hpc)

@[simp] theorem wakeExecutor_hasSlot (x : Executor) : (wakeExecutor x).hasSlot = x.hasSlot := by
  unfold wakeExecutor
  split
  next hpc =>
    simp [hasSlot, hpc]
  · rfl

@[simp] theorem notifyAll_slots (s : State Q R) : s.notifyAll.slots = s.slots := by
  simp [slots, notifyAll, countP_map, comp_def]

/-- Waking executors changes nothing the roster speaks about. -/
theorem Roster.notifyAll (h : Roster s) : Roster s.notifyAll := by
  refine h.congr (by rw [notifyAll_slots]; rfl) ?_ (by simp [State.notifyAll]) (Int.le_refl _)
    rfl rfl rfl rfl
  intro e x' hx' hpc
  obtain ⟨x, hx, rfl⟩ : ∃ x, s.executors[e]? = some x ∧ wakeExecutor x = x' := by
    simpa [State.notifyAll] using hx'
  refine ⟨x, hx, ?_⟩
  intro hfin
  apply hpc
  simp [wakeExecutor, hfin]

theorem Roster.notified (h : Roster s) (hn : Notified s s') : Roster s' := by
  cases hn with
  | nobody => exact h
  | executor e c hx => exact h.setExecutor hx .notified rfl rfl
  | stop i hw => exact { h with }

theorem Executor.hasSlot_of_ne (h : x.pc ≠ .finished) : x.hasSlot := by
  unfold hasSlot
  split
  next hpc =>
    exact absurd hpc h
  · rfl

/-! ### The manager -/

/-- The frame rule for a manager that moves on and touches nobody. -/
theorem Roster.setManager (h : Roster s) (c : Control)
    (hstop : c.stopper = s.ctl.stopper) (hres : c.manager.reserved = s.ctl.manager.reserved)
    (hspawn : ∀ n, c.manager.toSpawn = some n → s.ctl.manager.toSpawn = some n)
    (hpos : ∀ n, c.manager = .reserving n → 0 < n)
    (hholds : c.manager.holdsHandles = false → s.newExecutors = []) :
    Roster { s with ctl := c } where
  allocated := by
    show s.allocatedExecutors = (s.slots : Int) + c.manager.reserved
    rw [hres]
    exact h.allocated
  room := fun n hn => h.room n (hspawn n hn)
  reserving := hpos
  target_pos := h.target_pos
  adopted := hholds
  joinable := by
    intro e x hx hpc
    have hj := h.joinable e x hx hpc
    unfold State.Joinable at hj ⊢
    show match c.stopper with
      | .awaitExecutors toWait => e ∈ toWait
      | .awaitWatches | .storeStopped | .notifyStopped | .returned => False
      | _ => e ∈ s.handles ∨ e ∈ s.newExecutors
    rw [hstop]
    exact hj

/-- A manager outside `reconcileExecutors`. -/
def ManagerPc.plain : ManagerPc → Bool
  | .reserving _ | .spawning _ | .claimed _ | .adopting _ => false
  | _ => true

variable {m : ManagerPc} {k : Nat} {c : Control} {f : Bool}

theorem ManagerPc.reserved_of_plain (h : m.plain) : m.reserved = 0 := by
  cases m <;> first | rfl | cases h

theorem ManagerPc.toSpawn_of_plain (h : m.plain) : m.toSpawn = none := by
  cases m <;> first | rfl | cases h

theorem ManagerPc.holdsHandles_of_plain (h : m.plain) : m.holdsHandles = false := by
  cases m <;> first | rfl | cases h

/-- The frame rule for a manager outside `reconcileExecutors`. -/
theorem Roster.setPlain (h : Roster s) {q : ManagerPc} (hpc : s.ctl.manager = q)
    (hstop : c.stopper = s.ctl.stopper := by first | rfl | simp) (hold : q.plain := by rfl)
    (hnew : c.manager.plain := by first | rfl | (dsimp only; split <;> rfl)) :
    Roster { s with ctl := c } := by
  subst hpc
  refine h.setManager c hstop ?_ ?_ ?_ ?_
  · rw [reserved_of_plain hold, reserved_of_plain hnew]
  · intro n hn
    simp [toSpawn_of_plain hnew] at hn
  · intro n hn
    rw [hn] at hnew
    cases hnew
  · intro _
    exact h.adopted (holdsHandles_of_plain hold)

/-- A manager that is still at work keeps `stop` from taking the handles. -/
theorem joinable_of_working (hwf : s.ctl.WellFormed) (hpc : s.ctl.manager = m) (e : Nat)
    (hpres : m ≠ .absent := by simp) (hov : m.over = false := by rfl) :
    s.Joinable e ↔ e ∈ s.handles ∨ e ∈ s.newExecutors := by
  subst hpc
  have hset : s.ctl.stopper.settled = false := by
    cases hc : s.ctl.stopper.settled with
    | false => rfl
    | true =>
      rcases hwf.settled hc with hover | ⟨habs, -⟩
      · simp [hov] at hover
      · exact absurd habs hpres
  unfold State.Joinable
  split <;> first | exact Iff.rfl | (rename_i hpc; rw [hpc] at hset; cases hset)

theorem newTarget_pos (n : Option Int) (hw : Int) : 1 ≤ newTarget n hw := by
  unfold newTarget
  dsimp only
  split <;> omega

section

variable (h : Roster s)
include h

/-- The first critical section of `reconcileExecutors`. -/
theorem reconcile_roster (hwf : s.ctl.WellFormed) (hpc : s.ctl.manager = .reconcile)
    (target : Int) (hpos : 1 ≤ target) (fails : Bool) : Roster (s.reconcile target fails) := by
  -- Pruning drops only handles of executors that have returned.
  have h' : Roster { s with
      targetExecutors := target
      handles := s.handles.filter (fun e => !s.executorFinished e) } := by
    refine ⟨h.allocated, ?_, h.reserving, fun _ => hpos, h.adopted, ?_⟩
    · intro n hn
      simp [hpc, toSpawn] at hn
    · intro e x hx hne
      have hj := (joinable_of_working hwf hpc e).mp (h.joinable e x hx hne)
      refine (joinable_of_working (s := { s with targetExecutors := target, handles := _ }) hwf
        hpc e).mpr ?_
      rcases hj with hj | hj
      · left
        refine mem_filter.mpr ⟨hj, ?_⟩
        simp [executorFinished, show s.executors[e]? = some x from hx, hne]
      · exact .inr hj
  unfold State.reconcile
  dsimp only
  split
  · exact h'.notifyAll.setPlain hpc
  · split
    · exact h'.setPlain hpc
    · split
      · exact h'.setPlain hpc
      next hge hne hf =>
        have hlt : s.allocatedExecutors < target := by omega
        refine { h' with allocated := ?_, room := ?_, reserving := ?_, adopted := fun _ => ?_ }
        · have := h.allocated
          rwa [hpc] at this
        · intro n hn
          obtain rfl : (target - s.allocatedExecutors).toNat = n := some.inj hn
          show s.allocatedExecutors + _ ≤ target
          omega
        · rintro n ⟨⟩
          show 0 < (target - s.allocatedExecutors).toNat
          omega
        · exact h.adopted (by rw [hpc]; rfl)

/-- The manager has room for the handles, or not. -/
theorem Roster.reserve (hpc : s.ctl.manager = .reserving k) (fails : Bool) :
    Roster { s with ctl.manager := if fails then .spawnFailed else .spawning k } := by
  refine h.setManager _ rfl ?_ ?_ ?_ ?_
  · rw [hpc]
    split <;> rfl
  · intro m hm
    rw [hpc]
    split at hm
    · cases hm
    · exact hm
  · intro m hm
    split at hm <;> cases hm
  · intro _
    exact h.adopted (by rw [hpc]; rfl)

/-- The manager claims a slot. -/
theorem Roster.claim (hpc : s.ctl.manager = .spawning (k + 1)) :
    Roster { s with
      allocatedExecutors := s.allocatedExecutors + 1, ctl.manager := .claimed k } := by
  have halloc := h.allocated
  have hroom := h.room (k + 1) (by rw [hpc]; rfl)
  rw [hpc] at halloc
  refine { h with
    allocated := ?_, room := ?_, reserving := by rintro _ ⟨⟩, adopted := by rintro ⟨⟩ }
  · show s.allocatedExecutors + 1 = (s.slots : Int) + (1 : Nat)
    simp only [reserved] at halloc
    omega
  · intro m hm
    obtain rfl : k = m := some.inj hm
    show s.allocatedExecutors + 1 + _ ≤ s.targetExecutors
    omega

/-- The executor cannot be created: the claimed slot is given back. -/
theorem Roster.unclaim (hpc : s.ctl.manager = .claimed k) :
    Roster { s with
      allocatedExecutors := s.allocatedExecutors - 1, ctl.manager := .adopting true } := by
  have halloc := h.allocated
  rw [hpc] at halloc
  simp only [reserved] at halloc
  refine { h with
    allocated := ?_, room := by rintro _ ⟨⟩, reserving := by rintro _ ⟨⟩
    adopted := by rintro ⟨⟩ }
  show s.allocatedExecutors - 1 = (s.slots : Int) + (0 : Nat)
  omega

/-- The executor is created in the claimed slot, its handle in the manager's vector. -/
theorem Roster.spawn (hwf : s.ctl.WellFormed) (hpc : s.ctl.manager = .claimed k) :
    Roster { s.spawnExecutor with ctl.manager := .spawning k } := by
  have halloc := h.allocated
  have hroom := h.room k (by rw [hpc]; rfl)
  rw [hpc] at halloc
  simp only [reserved] at halloc
  refine ⟨?_, ?_, by rintro _ ⟨⟩, ?_, by rintro ⟨⟩, ?_⟩
  · show s.allocatedExecutors = ((s.executors ++ [_]).countP hasSlot : Int) + (0 : Nat)
    rw [countP_append]
    simp only [hasSlot, countP_singleton, if_true]
    have : s.slots = s.executors.countP hasSlot := rfl
    omega
  · intro m hm
    obtain rfl : k = m := some.inj hm
    exact hroom
  · intro _
    show 1 ≤ s.targetExecutors
    omega
  · intro e x hx hne
    refine (joinable_of_working (s := { s.spawnExecutor with ctl.manager := .spawning k })
      (hwf.setManager hpc _) rfl e).mpr ?_
    rcases getElem?_append_singleton_cases hx with hx | ⟨rfl, -⟩
    · rcases (joinable_of_working hwf hpc e).mp (h.joinable e x hx hne) with hj | hj
      · exact .inl hj
      · exact .inr (mem_append_left _ hj)
    · exact .inr (mem_append_right _ (mem_singleton.mpr rfl))

/-- The manager hands its handles over. -/
theorem Roster.adopt {failed : Bool} (hwf : s.ctl.WellFormed)
    (hpc : s.ctl.manager = .adopting failed) (hplain : m.plain) (hpres : m ≠ .absent)
    (hov : m.over = false) :
    Roster { s with
      handles := s.handles ++ s.newExecutors, newExecutors := [], ctl.manager := m } := by
  have halloc := h.allocated
  rw [hpc] at halloc
  refine ⟨?_, ?_, ?_, h.target_pos, fun _ => rfl, fun e x hx hne => ?_⟩
  · show s.allocatedExecutors = (s.slots : Int) + m.reserved
    rw [reserved_of_plain hplain]
    exact halloc
  · intro n hn
    simp [toSpawn_of_plain hplain] at hn
  · rintro n rfl
    cases hplain
  · have hj := (joinable_of_working hwf hpc e).mp (h.joinable e x hx hne)
    exact (joinable_of_working (hwf.setManager hpc m (by simp) hpres) rfl e hpres hov).mpr
      (.inl (mem_append.mpr hj))

/-- Every step of the manager. -/
theorem managerStep_roster {n : Option Int} {hw : Int}
    (hwf : s.ctl.WellFormed) (hs : s.managerStep n hw f = some s') : Roster s' := by
  cases hpc : s.ctl.manager <;> simp only [managerStep, hpc] at hs
  case reconcile =>
    split at hs <;> cases hs
    exact reconcile_roster h hwf hpc _ (newTarget_pos n hw) f
  case reserving k =>
    cases hs
    exact h.reserve hpc f
  case spawning k =>
    cases k with
    | zero =>
      cases hs
      exact h.setManager _ rfl (by rw [hpc]; rfl) (by rintro _ ⟨⟩) (by rintro _ ⟨⟩) (by rintro ⟨⟩)
    | succ k =>
      cases hs
      exact h.claim hpc
  case claimed k =>
    split at hs <;> cases hs
    · exact h.unclaim hpc
    · exact h.spawn hwf hpc
  case adopting failed =>
    split at hs <;> cases hs
    cases failed with
    | true | false => exact h.adopt hwf hpc rfl (by simp) rfl
  case drain =>
    split at hs <;> cases hs
    unfold requestDrain
    split
    · exact h.notifyAll.setPlain hpc
    · exact h.setPlain hpc
  case checkDone =>
    split at hs
    · cases hs
    · split at hs <;> cases hs
      · exact h.setPlain hpc
      · exact h.setPlain hpc
  case resolveCancelled =>
    split at hs <;> cases hs <;> exact h.setPlain hpc
  case resolveFailed | resolveReady | loopHead | spawnFailed | spawnFailedPending
      | checkCancelled | sendReady | sleeping | exiting =>
    cases hs
    exact h.setPlain hpc
  all_goals cases hs

/-! ### start and stop -/

/-- `start` does nothing to executors but create their manager. -/
theorem startStep_roster (hwf : s.ctl.WellFormed)
    (hs : s.ctl.startStep f = some c) : Roster { s with ctl := c } := by
  have hkeep : c.manager = s.ctl.manager → c.stopper = s.ctl.stopper →
    Roster { s with ctl := c } := by
    intro hm hst
    refine h.setManager c hst (by rw [hm]) (by rw [hm]; exact fun _ hn => hn)
      (by rw [hm]; exact h.reserving) (by rw [hm]; exact h.adopted)
  cases hpc : s.ctl.starter <;> simp only [Control.startStep, hpc] at hs
  case spawning =>
    split at hs <;> cases hs
    · exact hkeep rfl rfl
    · -- The manager is created here, and it starts outside `reconcileExecutors`.
      have habs := hwf.noManager (by rw [hpc]; rfl)
      exact h.setPlain habs
  all_goals apply hkeep <;> grind [Control.resolveStart]

/-- The frame rule for a `stop` that moves on without touching handles. -/
theorem Roster.setStopper (c : Control) (hm : c.manager = s.ctl.manager)
    (hj : ∀ e x, s.executors[e]? = some x → x.pc ≠ .finished →
      ({ s with ctl := c } : State Q R).Joinable e) : Roster { s with ctl := c } := by
  cases c
  cases hm
  exact { h with joinable := hj }

/-- A step of `stop`. -/
theorem stopStep_roster (hwf : s.ctl.WellFormed) (hs : s.stopStep = some s') : Roster s' := by
  have hnew : s.ctl.managerGone → s.newExecutors = [] := by
    intro hgone
    refine h.adopted ?_
    rcases hgone with hov | ⟨habs, -⟩
    · cases hm : s.ctl.manager <;> first | rfl | (rw [hm] at hov; cases hov)
    · rw [habs]; rfl
  cases hpc : s.ctl.stopper <;> simp only [stopStep, hpc] at hs
  case takeExecutors =>
    -- The manager is gone, so `executors_` has every handle there is.
    split at hs <;> cases hs
    have hempty := hnew (hwf.settled (by rw [hpc]; rfl))
    have h' := h.setStopper { s.ctl with stopper := .awaitExecutors s.handles } rfl
      (fun e x hx hne => by
        have := h.joinable e x hx hne
        simpa [State.Joinable, hpc, hempty] using this)
    exact { h' with }
  case awaitExecutors toWait =>
    -- All of them have returned.
    split at hs <;> cases hs
    rename_i hall
    refine h.setStopper _ rfl (fun e x hx hne => ?_)
    have hmem : e ∈ toWait := by
      have := h.joinable e x hx hne
      simpa [State.Joinable, hpc] using this
    have hfin := all_eq_true.mp hall e hmem
    simp [executorFinished, hx, hne] at hfin
  case notifyStopped =>
    split at hs <;> cases hs
    refine h.notifyAll.setStopper _ rfl (fun e x hx hne => ?_)
    have := h.notifyAll.joinable e x hx hne
    simp [State.Joinable, notifyAll, hpc] at this
  all_goals
    try split at hs
    all_goals cases hs <;> refine h.setStopper _ (by simp) (fun e x hx hne => ?_) <;>
      simpa [State.Joinable, hpc] using h.joinable e x hx hne

end

variable [WaitQueue Q R]

/-! ### Every step keeps the roster -/

/-- A step of an executor. -/
theorem execMove_roster (h : Roster s) (hx : s.executors[e]? = some x) (hm : ExecMove s e x s') :
    Roster s' := by
  have hmove : ∀ pc, x.pc ≠ .finished → pc ≠ .finished → Roster (s.setExecutor e x pc) :=
    fun pc hold hnew => h.setExecutor hx pc (hasSlot_of_ne hold)
      (hasSlot_of_ne hnew)
  cases hm with
  | park hpc | idleExit hpc =>
    exact hmove _ (by rcases hpc with hpc | hpc <;> simp [hpc]) (by simp)
  | wake hpc =>
    exact { hmove .woken (by rcases hpc with hpc | hpc | hpc <;> simp [hpc]) (by simp) with }
  | excess hpc | release hpc =>
    exact { h.release hx (hasSlot_of_ne (by simp [hpc])) with }
  | drained hpc => exact { hmove .leaving (by simp [hpc]) (by simp) with }
  | proceed hpc => exact hmove _ (by simp [hpc]) (by simp)
  | dequeue hpc t => exact { hmove (.dequeued t) (by simp [hpc]) (by simp) with }
  | run t hpc => exact { hmove (.running t) (by simp [hpc]) (by simp) with }
  | finish t hpc => exact { hmove .loopHead (by simp [hpc]) (by simp) with }

theorem addMove_roster {i : TaskId} {c : AddCall R} (h : Roster s) (hm : AddMove s i c s') :
    Roster s' := by
  cases hm with
  | subscribeFired τ rest hpc hτ f =>
    unfold onCancel
    split <;> exact { h with }
  | notify hpc s₁ hn => exact { h.notified hn with }
  | _ => exact { h with }

theorem watchMove_roster (h : Roster s) (hm : WatchMove s k s') : Roster s' := by
  cases hm with
  | notify hw s₁ hn => exact { h.notified hn with }
  | _ => exact { h with }

/-- **The roster is kept by every step.** -/
theorem step_roster
    {a : Action R} (h : Roster s) (hwf : s.ctl.WellFormed) (hs : step s a = some s') :
    Roster s' := by
  cases move_of_step hs with
  | background | waiters | callAdd => exact { h with }
  | callStart ctx =>
    refine h.setManager _ ?_ ?_ ?_ ?_ ?_ <;> unfold Control.callStart <;> split
    all_goals first | rfl | exact fun _ hn => hn | exact h.reserving | exact h.adopted
  | start fails c hc => exact startStep_roster h hwf hc
  | claimStop hmu hst hst' =>
    refine h.notifyAll.setStopper _ rfl (fun e x hx hne => ?_)
    have hidle : s.ctl.stopper = .idle := hwf.claimed.mp (by
      cases hc : s.ctl.state <;> first | rfl | exact absurd hc ‹_›)
    have := h.notifyAll.joinable e x hx hne
    have hj : e ∈ s.handles ∨ e ∈ s.newExecutors := by
      simpa [State.Joinable, notifyAll, hidle] using this
    unfold State.Joinable Control.claimStop
    dsimp only
    split <;> first | exact hj | (rename_i hc; split at hc <;> cases hc)
  | stop s' hs => exact stopStep_roster h hwf hs
  | manager n hw f s' hs => exact managerStep_roster h hwf hs
  | executor e x s' hx hm | cancelled e x s' hx hc hm => exact execMove_roster h hx hm
  | cancel e x hx =>
    refine h.congr ?_ ?_ length_set (Int.le_refl _) rfl rfl rfl rfl
    · show s.allocatedExecutors - ((s.executors.set e _).countP hasSlot : Int) = _
      rw [countP_set_same hx (b := { x with cancelled := true }) rfl]
      rfl
    · exact forall_getElem?_set (fun _ x' hx' hne => ⟨x', hx', hne⟩) (fun hne => ⟨x, hx, hne⟩)
  | spurious e s' hn => exact h.notified hn
  | add i c f g w s' hc hm => exact addMove_roster h hm
  | watch k alive w s' hm => exact watchMove_roster h hm

/-- The roster is right in every reachable state. -/
theorem reachable_roster {ok : State Q R → Action R → Prop} (h : (system Q).ReachableIf ok s) :
    Roster s :=
  h.invariant init_roster
    (fun hr hi _ hs => step_roster hi (reachable_wellFormed hr) hs)

end ServiceLib.Pool
