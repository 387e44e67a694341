import ServiceLib.Environment.Gate

namespace ServiceLib.Environment

/-!
# Execution environment — the drain handshake

Who tells a parked drain that the environment is empty.  A parallel task takes itself off the
counter and notifies in one section of `parallelMutex_`.  An input invocation does both without
the mutex, so its two steps can fall around the steps of a drain.  They do not if a last release
does not fall into a drain's section of the mutex, and no drain takes the mutex between a last
release and its `NotifyAll` (`FinisherExcluded`).
-/

open List Option State

/-! ### Outstanding notifications -/

/-- Whether an input invocation is about to notify. -/
def InputPc.notifies : InputPc → Bool
  | .notifying => true
  | _ => false

/-- The number of input invocations that have yet to perform their `NotifyAll`. -/
def State.inputNotifiers (s : State) : Nat := s.inputs.countP InputPc.notifies

/-- The number of parallel tasks that have yet to perform their `NotifyAll`. -/
def State.taskNotifiers (s : State) : Nat := s.tasks.countP TaskPc.notifies

/-- What a lock held by input finishers would enforce. -/
def FinisherExcluded (s : State) : Action → Prop
  | .input i _ => s.inputs[i]? = some .live → GateWord.count s.inputInvocations = 1 →
      ∀ x ∈ s.drains, x.pc.holds = false
  | .drain d _ => s.drains[d]?.any (·.pc.locks) → s.inputNotifiers = 0
  | _ => True

instance (s : State) : (a : Action) → Decidable (FinisherExcluded s a)
  | .input _ _ => inferInstanceAs (Decidable (_ → _ → _))
  | .drain _ _ => inferInstanceAs (Decidable (_ → _))
  | .tick _ | .fire _ | .callBegin | .callParallel | .task _ _ | .callDrain _ | .wake _ _
  | .notifier _ | .callStart | .start _ | .release => inferInstanceAs (Decidable True)

/-- A serialised run in which input finishers keep out of the drains' sections. -/
def Handshaken (s : State) (a : Action) : Prop := Serialised s a ∧ FinisherExcluded s a

instance (s : State) (a : Action) : Decidable (Handshaken s a) :=
  inferInstanceAs (Decidable (_ ∧ _))

/-! ### The invariant -/

/-- A drain that is about to park found the environment busy, and it still is; one that is
    parked in an empty environment will be notified. -/
def Watched (s : State) (x : Drain) : Prop :=
  (x.pc = .registering → s.ready = false) ∧
    (x.pc = .parked → s.ready → 0 < s.inputNotifiers + s.taskNotifiers)

/-- What holds between the steps of a handshaken run. -/
structure HandshakeInv (s : State) : Prop where
  drainHolds : ∀ (d : Nat) (x : Drain), s.drains[d]? = some x → x.pc.holds →
    s.mu = some (.drain d)
  taskHolds : ∀ (k : Nat) (pc : TaskPc), s.tasks[k]? = some pc → pc.notifies →
    s.mu = some (.task k)
  excluded : ∀ x ∈ s.drains, x.pc.holds → s.inputNotifiers = 0
  watched : ∀ x ∈ s.drains, Watched s x
  /-- Before the start has returned and after a drain has, nobody has yet to notify. -/
  quiet : s.started = false ∨ s.drained → s.inputNotifiers = 0 ∧ s.taskNotifiers = 0

variable {s s' : State}

theorem watched_of_busy (h : s.ready = false) (x : Drain) : Watched s x :=
  ⟨fun _ => h, fun _ hr => by rw [h] at hr; cases hr⟩

variable {x : Drain} {k : Nat}

theorem watched_of_pending (hpend : 0 < s.inputNotifiers + s.taskNotifiers)
    (hx : x.pc.holds = false) : Watched s x := by
  refine ⟨fun hpc => ?_, fun _ _ => hpend⟩
  rw [hpc] at hx
  cases hx

/-- A drain that is neither about to park nor parked misses nothing. -/
theorem watched_of_ne (hreg : x.pc ≠ .registering := by simp) (hpark : x.pc ≠ .parked := by simp) :
    Watched s x :=
  ⟨fun h => absurd h hreg, fun h => absurd h hpark⟩

theorem watched_wakeDrain (h : x.pc = .registering → s.ready = false) :
    Watched s (wakeDrain x) := by
  unfold wakeDrain
  split
  · exact watched_of_ne
  next hpc =>
    exact ⟨h, fun hp => absurd hp hpc⟩

namespace HandshakeInv

section

variable (h : HandshakeInv s)
include h

/-- A free mutex: no drain is inside a section. -/
theorem no_holder (hmu : ∀ d, s.mu ≠ some (.drain d)) : ∀ x ∈ s.drains, x.pc.holds = false := by
  intro x hx
  obtain ⟨d, hd⟩ := getElem?_of_mem hx
  cases hh : x.pc.holds with
  | false => rfl
  | true => exact absurd (h.drainHolds d x hd hh) (hmu d)

/-- The holder of the mutex is a drain: no task is about to notify. -/
theorem no_taskNotifier (hmu : ∀ k, s.mu ≠ some (.task k)) : s.taskNotifiers = 0 := by
  refine countP_eq_zero.mpr (fun pc hpc hn => ?_)
  obtain ⟨k, hk⟩ := getElem?_of_mem hpc
  exact hmu k (h.taskHolds k pc hk hn)

/-! ### Frame rules -/

/-- A step that leaves the drains, the mutex and the outstanding notifications alone, and
    leaves the predicate alone or the environment busy. -/
theorem silent (hinputs : s'.inputNotifiers = s.inputNotifiers)
    (htasks : s'.taskNotifiers = s.taskNotifiers) (hready : s'.ready = s.ready ∨ s'.ready = false)
    (hholds : ∀ (k : Nat) pc, s'.tasks[k]? = some pc → pc.notifies → s.tasks[k]? = some pc)
    (hdrains : s'.drains = s.drains := by rfl) (hmu : s'.mu = s.mu := by rfl)
    (hstarted : s'.started = s.started := by rfl) (hdrained : s'.drained = s.drained := by rfl) :
    HandshakeInv s' where
  drainHolds := by rw [hdrains, hmu]; exact h.drainHolds
  taskHolds := fun k pc hk hn => hmu.trans (h.taskHolds k pc (hholds k pc hk hn) hn)
  excluded := by rw [hdrains, hinputs]; exact h.excluded
  watched := by
    rw [hdrains]
    intro x hx
    rcases hready with hsame | hbusy
    · rw [Watched, hsame, hinputs, htasks]
      exact h.watched x hx
    · exact watched_of_busy hbusy x
  quiet := by rw [hstarted, hdrained, hinputs, htasks]; exact h.quiet

/-- Waking drains up. -/
theorem drains_wake (ds : List Drain)
    (hds : ∀ (d : Nat) (x : Drain), ds[d]? = some x →
      ∃ y, s.drains[d]? = some y ∧ y.pc = x.pc) :
    HandshakeInv { s with drains := ds.map wakeDrain } := by
  have hhold : ∀ x : Drain, (wakeDrain x).pc.holds = x.pc.holds := by
    intro x
    unfold wakeDrain
    split
    next hpc =>
      rw [hpc]
      rfl
    · rfl
  have hmem : ∀ x ∈ ds, ∃ y ∈ s.drains, y.pc = x.pc := by
    intro x hx
    obtain ⟨d, hd⟩ := getElem?_of_mem hx
    obtain ⟨y, hy, hpc⟩ := hds d x hd
    exact ⟨y, mem_of_getElem? hy, hpc⟩
  refine ⟨fun d x hx hh => ?_, h.taskHolds, fun x hx hh => ?_, fun x hx => ?_, h.quiet⟩
  · rw [getElem?_map] at hx
    obtain ⟨z, hz, rfl⟩ := map_eq_some_iff.mp hx
    obtain ⟨y, hy, hpc⟩ := hds d z hz
    rw [hhold, ← hpc] at hh
    exact h.drainHolds d y hy hh
  · obtain ⟨z, hz, rfl⟩ := mem_map.mp hx
    obtain ⟨y, hy, hpc⟩ := hmem z hz
    rw [hhold, ← hpc] at hh
    exact h.excluded y hy hh
  · obtain ⟨z, hz, rfl⟩ := mem_map.mp hx
    obtain ⟨y, hy, hpc⟩ := hmem z hz
    refine watched_wakeDrain (fun hreg => (h.watched y hy).1 (hpc.trans hreg))

theorem notifyAll : HandshakeInv s.notifyAll :=
  h.drains_wake s.drains (fun _ x hx => ⟨x, hx, rfl⟩)

end

/-- After `NotifyAll` nobody is parked. -/
theorem not_parked_notifyAll : ∀ x ∈ s.notifyAll.drains, x.pc ≠ .parked := by
  intro x hx hpc
  obtain ⟨y, -, rfl⟩ := mem_map.mp hx
  unfold wakeDrain at hpc
  split at hpc
  · cases hpc
  next hne =>
    exact hne hpc

end HandshakeInv

/-! ### Input invocations -/

/-- A step of an input invocation before its last release.  It leaves the predicate alone or
    leaves the environment busy. -/
theorem HandshakeInv.setInput_silent {i : Nat} {pc pc' : InputPc} (h : HandshakeInv s)
    (hi : s.inputs[i]? = some pc) (hpc : pc.notifies = false) (hpc' : pc'.notifies = false)
    (word : InvocationWord)
    (hready : GateWord.count word = GateWord.count s.inputInvocations ∨ GateWord.count word ≠ 0) :
    HandshakeInv { s.setInput i pc' with inputInvocations := word } := by
  refine h.silent (countP_set_same hi (hpc'.trans hpc.symm)) rfl ?_ (fun _ _ hk _ => hk)
  rcases hready with hsame | hbusy
  · exact .inl (by simp [ready, setInput, hsame])
  · exact .inr (by simp [ready, hbusy])

/-- A step of an input; the last one does not leave while a drain holds the mutex. -/
theorem inputMove_handshakeInv {i : Nat} {pc : InputPc} (hg : GateInv s) (h : HandshakeInv s)
    (hi : s.inputs[i]? = some pc)
    (hex : pc = .live → GateWord.count s.inputInvocations = 1 →
      ∀ x ∈ s.drains, x.pc.holds = false)
    (m : InputMove s i pc s') : HandshakeInv s' := by
  have hsilent : pc.entering → pc.notifies = false := by
    intro hpc
    cases pc <;> first | rfl | cases hpc
  cases m with
  | load hpc | refuse e hpc => exact h.setInput_silent hi (hsilent hpc) rfl _ (.inl rfl)
  | enter hpc hopen hroom =>
    refine h.setInput_silent hi (hsilent hpc) rfl _ (.inr ?_)
    rw [(GateWord.enter hroom).1]
    exact Nat.succ_ne_zero _
  | release hpc hmore =>
    subst hpc
    have hpos : 0 < s.liveInputs := countP_pos_iff.mpr ⟨_, mem_of_getElem? hi, rfl⟩
    have hword := hg.inputs
    refine h.setInput_silent hi rfl rfl _ (.inr ?_)
    rw [(GateWord.leave (by omega)).1]
    omega
  | releaseLast hpc hlast =>
    subst hpc
    have hpos : 0 < s.liveInputs := countP_pos_iff.mpr ⟨_, mem_of_getElem? hi, rfl⟩
    have hnone := hex rfl hlast
    have hcount : (s.setInput i .notifying).inputNotifiers = s.inputNotifiers + 1 :=
      countP_set_enter hi rfl rfl
    refine ⟨h.drainHolds, h.taskHolds, fun x hx hh => ?_, fun x hx => ?_, fun hq => ?_⟩
    · simp [hnone x hx] at hh
    · refine watched_of_pending ?_ (hnone x hx)
      show 0 < (s.setInput i .notifying).inputNotifiers + s.taskNotifiers
      omega
    · -- A live invocation: the start has returned, and no drain has.
      have hempty : s.liveInputs = 0 := by
        rcases hq with hst | hd
        · exact liveInputs_eq_zero (hg.unstarted hst).2.1
        · exact (hg.empty_of_drained hd).1
      omega
  | notify hpc =>
    subst hpc
    have hn := h.notifyAll
    have hcount : (s.setInput i .finished).inputNotifiers + 1 = s.inputNotifiers :=
      countP_set_leave hi rfl rfl
    refine ⟨hn.drainHolds, h.taskHolds, fun x hx hh => ?_, fun x hx => ?_, fun hq => ?_⟩
    · have hzero : s.inputNotifiers = 0 := hn.excluded x hx hh
      omega
    · exact ⟨(hn.watched x hx).1, fun hp => absurd hp (HandshakeInv.not_parked_notifyAll x hx)⟩
    · have hzero := (h.quiet hq).1
      omega

/-! ### Parallel tasks -/

/-- A step of a parallel task before its last decrement. -/
theorem HandshakeInv.setTask_silent {pc pc' : TaskPc} (h : HandshakeInv s)
    (hk : s.tasks[k]? = some pc) (hpc : pc.notifies = false) (hpc' : pc'.notifies = false) (n : Nat)
    (hready : n = s.parallelActive ∨ n ≠ 0) :
    HandshakeInv { s.setTask k pc' with parallelActive := n } := by
  refine h.silent rfl (countP_set_same hk (hpc'.trans hpc.symm)) ?_ (fun j pc hj hn => ?_)
  · rcases hready with rfl | hbusy
    · exact .inl rfl
    · exact .inr (by simp [ready, hbusy])
  · rcases getElem?_set_cases hj with ⟨-, rfl⟩ | ⟨-, h0⟩
    · simp [hpc'] at hn
    · exact h0

/-- A step of a task. -/
theorem taskMove_handshakeInv {pc : TaskPc} (hg : GateInv s) (h : HandshakeInv s)
    (hk : s.tasks[k]? = some pc) (m : TaskMove s k pc s') : HandshakeInv s' := by
  have hsilent : ∀ {pc : TaskPc}, pc.active → pc.notifies = false := by
    intro pc hpc
    cases pc <;> first | rfl | cases hpc
  have hended : ∀ f, (ended f).notifies = false := by
    intro f
    cases f <;> rfl
  have hpos : pc.active → 0 < s.activeTasks :=
    fun hpc => countP_pos_iff.mpr ⟨_, mem_of_getElem? hk, hpc⟩
  have hnum := hg.tasks
  cases m with
  | enter hpc hmu hopen =>
    subst hpc
    exact h.setTask_silent hk rfl rfl _ (.inr (Nat.succ_ne_zero _))
  | refuse hpc =>
    subst hpc
    exact h.setTask_silent hk rfl rfl _ (.inl rfl)
  | advance pc' hpc hpc' => exact h.setTask_silent hk (hsilent hpc) (hsilent hpc') _ (.inl rfl)
  | retire failed hpc hmu hmore =>
    have := hpos hpc
    exact h.setTask_silent hk (hsilent hpc) (hended failed) _ (.inr (by omega))
  | retireLast failed hpc hmu hlast =>
    -- It takes the mutex, so no drain is between its look at the counters and its sleep.
    have hactive := hpos hpc
    have hnone : ∀ x ∈ s.drains, x.pc.holds = false :=
      h.no_holder (fun d => by rw [hmu]; nofun)
    have hcount : (s.setTask k (.notifying failed)).taskNotifiers = s.taskNotifiers + 1 :=
      countP_set_enter hk (hsilent hpc) rfl
    refine ⟨fun d x hd hh => ?_, fun j pc hj hn => ?_, h.excluded, fun x hx => ?_, fun hq => ?_⟩
    · simp [hnone x (mem_of_getElem? hd)] at hh
    · rcases getElem?_set_cases hj with ⟨rfl, -⟩ | ⟨-, h0⟩
      · rfl
      · have := h.taskHolds j pc h0 hn
        simp [hmu] at this
    · refine watched_of_pending ?_ (hnone x hx)
      show 0 < s.inputNotifiers + (s.setTask k (.notifying failed)).taskNotifiers
      omega
    · have hempty : s.activeTasks = 0 := by
        rcases hq with hst | hd
        · exact activeTasks_eq_zero (hg.unstarted hst).2.2
        · exact (hg.empty_of_drained hd).2
      omega
  | notify failed hpc =>
    subst hpc
    have hn := h.notifyAll
    have hmu := h.taskHolds k _ hk rfl
    have hnone : ∀ x ∈ s.notifyAll.drains, x.pc.holds = false :=
      hn.no_holder (fun d => by rw [show s.notifyAll.mu = s.mu from rfl, hmu]; nofun)
    have hcount : (s.setTask k (ended failed)).taskNotifiers + 1 = s.taskNotifiers :=
      countP_set_leave hk rfl (hended failed)
    refine ⟨fun d x hd hh => ?_, fun j pc hj hnt => ?_, hn.excluded, fun x hx => ?_, fun hq => ?_⟩
    · simp [hnone x (mem_of_getElem? hd)] at hh
    · -- The mutex had one holder, so no other task is about to notify.
      rcases getElem?_set_cases hj with ⟨-, rfl⟩ | ⟨hne, h0⟩
      · simp [hended] at hnt
      · have hother := h.taskHolds j pc h0 hnt
        rw [hmu] at hother
        cases hother
        exact absurd rfl hne
    · exact watched_of_ne (fun hreg => by have := hnone x hx; rw [hreg] at this; cases this)
        (HandshakeInv.not_parked_notifyAll x hx)
    · have hzero := (h.quiet hq).2
      omega

end ServiceLib.Environment
