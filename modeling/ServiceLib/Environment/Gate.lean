import ServiceLib.Environment.Moves
import ServiceLib.Lib.ThreadList

namespace ServiceLib.Environment

/-!
# Execution environment — the invariant of the two gates

How the counters, the closed bit and the calls in progress are related, and that this holds in every
run in which a start does not overlap other calls.
-/

open List GateWord State InputPc DrainPc

/-! ### What is inside -/

/-- Whether an input invocation is between a successful `beginInputInvocation` and its
    release. -/
def InputPc.isLive : InputPc → Bool
  | .live => true
  | _ => false

/-- Whether an input invocation has neither begun nor is about to. -/
def InputPc.outside (pc : InputPc) : Bool := !pc.entering && !pc.isLive

/-- Whether a parallel task has neither begun nor is about to. -/
def TaskPc.outside (pc : TaskPc) : Bool := pc != .entered && !pc.active

/-- The number of live input invocations. -/
def State.liveInputs (s : State) : Nat := s.inputs.countP isLive

/-- The number of parallel tasks that are scheduled or running. -/
def State.activeTasks (s : State) : Nat := s.tasks.countP TaskPc.active

theorem State.liveInputs_eq_zero {s : State} (h : ∀ x ∈ s.inputs, x.outside) :
    s.liveInputs = 0 := by
  refine countP_eq_zero.mpr (fun x hx hlive => ?_)
  have := h x hx
  simp [outside, hlive] at this

theorem State.activeTasks_eq_zero {s : State} (h : ∀ x ∈ s.tasks, x.outside) :
    s.activeTasks = 0 := by
  refine countP_eq_zero.mpr (fun x hx hact => ?_)
  have := h x hx
  simp [TaskPc.outside, hact] at this

/-! ### The invariant -/

/-- A drain call that is not over belongs to a running lifecycle, and the input gate is closed
    once it has passed `fetch_or`. -/
def Placed (s : State) (x : Drain) : Prop :=
  x.pc.done ∨ (s.starter = .idle ∧ (x.pc ≠ .entered → s.started) ∧
    (x.pc.past → isClosed s.inputInvocations))

/-- What holds between the steps of a serialised run. -/
structure GateInv (s : State) : Prop where
  inputs : GateWord.count s.inputInvocations = s.liveInputs
  tasks : s.parallelActive = s.activeTasks
  starting : s.starter ≠ .idle → s.started = false ∧ s.drained = false
  drains : ∀ x ∈ s.drains, Placed s x
  unstarted : s.started = false → s.activeRuntime = false ∧
    (∀ x ∈ s.inputs, x.outside) ∧ ∀ x ∈ s.tasks, x.outside
  released : s.started → s.activeRuntime = false → s.drained
  /-- After a drain that returned true both gates are shut and nobody is inside. -/
  shut : s.started → s.drained →
    isClosed s.inputInvocations ∧ s.parallelAccepting = false ∧
      s.liveInputs = 0 ∧ s.activeTasks = 0

namespace GateInv

variable {s : State} {i k d : Nat} {pc : InputPc} {x : Drain}

section

variable (h : GateInv s)
include h

/-- Whoever is entering or inside was let in by a start that returned. -/
theorem started_of_input (hi : s.inputs[i]? = some pc) (hin : pc.outside = false) : s.started := by
  cases hst : s.started with
  | true => rfl
  | false =>
    have hout := (h.unstarted hst).2.1 pc (mem_of_getElem? hi)
    simp [hin] at hout

theorem started_of_task {pc : TaskPc} (hk : s.tasks[k]? = some pc) (hin : pc.outside = false) :
    s.started := by
  cases hst : s.started with
  | true => rfl
  | false =>
    have hout := (h.unstarted hst).2.2 pc (mem_of_getElem? hk)
    simp [hin] at hout

/-- After a drain that returned true nobody is inside. -/
theorem empty_of_drained (hd : s.drained) : s.liveInputs = 0 ∧ s.activeTasks = 0 := by
  cases hst : s.started with
  | true => exact (h.shut hst hd).2.2
  | false =>
    obtain ⟨-, hin, htask⟩ := h.unstarted hst
    exact ⟨liveInputs_eq_zero hin, activeTasks_eq_zero htask⟩

section

variable (hd : s.drains[d]? = some x)
include hd

/-- A drain call in progress excludes a start. -/
theorem idle_of_drain (hx : x.pc.done = false) : s.starter = .idle := by
  rcases h.drains x (mem_of_getElem? hd) with hdone | hrest
  · simp [hx] at hdone
  · exact hrest.1

theorem started_of_drain (hx : x.pc.done = false) (hent : x.pc ≠ .entered) : s.started := by
  rcases h.drains x (mem_of_getElem? hd) with hdone | hrest
  · simp [hx] at hdone
  · exact hrest.2.1 hent

theorem closed_of_drain (hx : x.pc.past) : isClosed s.inputInvocations := by
  rcases h.drains x (mem_of_getElem? hd) with hdone | hrest
  · simp [not_done_of_past hx] at hdone
  · exact hrest.2.2 hx

end

/-! ### Frame rules -/

/-- A step that only moves drain calls, to places they may stand at. -/
theorem of_drains (ds : List Drain) (mu : Option Holder) (hds : ∀ x ∈ ds, Placed s x) :
    GateInv { s with drains := ds, mu := mu } :=
  { h with drains := hds }

/-- A step of drain `d` that has closed the gate before and after it. -/
theorem of_past (hd : s.drains[d]? = some x) (hx : x.pc.past) (x' : Drain)
    (mu : Option Holder) (hx' : x'.pc.done ∨ x'.pc.past) :
    GateInv { s with drains := s.drains.set d x', mu := mu } := by
  refine h.of_drains _ mu (forall_mem_set h.drains ?_)
  rcases hx' with hdone | _
  · exact .inl hdone
  · have hlive := not_done_of_past hx
    have hent : x.pc ≠ .entered := by
      intro he
      rw [he] at hx
      cases hx
    exact .inr ⟨h.idle_of_drain hd hlive, fun _ => h.started_of_drain hd hlive hent,
      fun _ => h.closed_of_drain hd hx⟩

end

theorem placed_wakeDrain (h : Placed s x) : Placed s (wakeDrain x) := by
  unfold wakeDrain
  split
  next hpc =>
    rcases h with hdone | ⟨hidle, hstart, hclosed⟩
    · rw [hpc] at hdone
      cases hdone
    · rw [hpc] at hstart hclosed
      exact .inr ⟨hidle, fun _ => hstart nofun, fun _ => hclosed rfl⟩
  · exact h

section

variable (h : GateInv s)
include h

theorem notifyAll : GateInv s.notifyAll := by
  refine h.of_drains _ s.mu (fun x hx => ?_)
  obtain ⟨y, hy, rfl⟩ := mem_map.mp hx
  exact placed_wakeDrain (h.drains y hy)

/-- A step of an input invocation keeps the closed bit and the count exact. -/
theorem of_inputs (ins : List InputPc) (word : InvocationWord)
    (hcount : GateWord.count word = ins.countP isLive)
    (hclosed : isClosed word = isClosed s.inputInvocations)
    (hout : s.started = false → ∀ x ∈ ins, x.outside)
    (hshut : s.started → s.drained → ins.countP isLive = 0) :
    GateInv { s with inputs := ins, inputInvocations := word } :=
  { h with
    inputs := hcount
    drains := fun x hx => (h.drains x hx).imp id
      (fun hrest => ⟨hrest.1, hrest.2.1, fun hp => hclosed.trans (hrest.2.2 hp)⟩)
    unstarted := fun hst => ⟨(h.unstarted hst).1, hout hst, (h.unstarted hst).2.2⟩
    shut := by
      intro hst hd
      obtain ⟨hc, hacc, -, htask⟩ := h.shut hst hd
      exact ⟨hclosed.trans hc, hacc, hshut hst hd, htask⟩ }

/-- A step of an input invocation that changes neither the word nor the count. -/
theorem of_inputs_same {ins : List InputPc} (hcount : ins.countP isLive = s.liveInputs)
    (hout : s.started = false → ∀ x ∈ ins, x.outside) : GateInv { s with inputs := ins } :=
  h.of_inputs ins s.inputInvocations (h.inputs.trans hcount.symm) rfl hout
    (fun hst hd => hcount.trans (h.shut hst hd).2.2.1)

/-- A step of a parallel task keeps the count exact. -/
theorem of_tasks (ts : List TaskPc) (n : Nat) (mu : Option Holder)
    (hcount : n = ts.countP TaskPc.active) (hout : s.started = false → ∀ x ∈ ts, x.outside)
    (hshut : s.started → s.drained → ts.countP TaskPc.active = 0) :
    GateInv { s with tasks := ts, parallelActive := n, mu := mu } :=
  { h with
    tasks := hcount
    unstarted := fun hst => ⟨(h.unstarted hst).1, (h.unstarted hst).2.1, hout hst⟩
    shut := by
      intro hst hd
      obtain ⟨hc, hacc, hin, -⟩ := h.shut hst hd
      exact ⟨hc, hacc, hin, hshut hst hd⟩ }

/-- A step of a parallel task that does not change the count. -/
theorem of_tasks_same {ts : List TaskPc} (mu : Option Holder)
    (hcount : ts.countP TaskPc.active = s.activeTasks)
    (hout : s.started = false → ∀ x ∈ ts, x.outside) : GateInv { s with tasks := ts, mu := mu } :=
  h.of_tasks ts s.parallelActive mu (h.tasks.trans hcount.symm) hout
    (fun hst hd => hcount.trans (h.shut hst hd).2.2.2)

end

end GateInv

/-! ### Each kind of step -/

variable {s s' : State} {i k d : Nat} {pc : InputPc} {x : Drain} {pc' : InputPc}

/-- A step of an input invocation that keeps the word: one that does not succeed in
    `beginInputInvocation`, or comes after the release. -/
theorem GateInv.setInput_uncounted (h : GateInv s) (hi : s.inputs[i]? = some pc)
    (hpc : pc.isLive = false) (hpc' : pc'.isLive = false)
    (hout : s.started = false → pc'.outside) : GateInv (s.setInput i pc') :=
  h.of_inputs_same (countP_set_same hi (hpc'.trans hpc.symm))
    (fun hf => forall_mem_set (h.unstarted hf).2.1 (hout hf))

/-- `finishInputInvocation` takes the invocation off the counter. -/
theorem GateInv.release (h : GateInv s) (hi : s.inputs[i]? = some .live)
    (hpc' : pc'.isLive = false) :
    GateInv { s.setInput i pc' with inputInvocations := s.inputInvocations - 1 } := by
  have hst : s.started := h.started_of_input hi rfl
  have hcount : (s.setInput i pc').inputs.countP isLive + 1 = s.liveInputs :=
    countP_set_leave hi rfl hpc'
  have hword := h.inputs
  have hne : GateWord.count s.inputInvocations ≠ 0 := by omega
  obtain ⟨hsub, hclosed⟩ := leave hne
  refine h.of_inputs _ (s.inputInvocations - 1) ?_ hclosed (fun hf => ?_) (fun _ hd => ?_)
  · omega
  · simp [hst] at hf
  · have hzero := (h.shut hst hd).2.2.1
    omega

theorem InputPc.not_live_of_entering (h : pc.entering) : pc.isLive = false := by
  cases pc <;> first | rfl | cases h

/-- A step of an input. -/
theorem inputMove_gateInv (h : GateInv s) (hi : s.inputs[i]? = some pc) (m : InputMove s i pc s') :
    GateInv s' := by
  have hentered : pc.entering → s.started :=
    fun hpc => h.started_of_input hi (by simp [outside, hpc])
  cases m with
  | load hpc =>
    refine h.setInput_uncounted hi (not_live_of_entering hpc) rfl (fun hf => ?_)
    simp [hentered hpc] at hf
  | refuse _ hpc =>
    exact h.setInput_uncounted hi (not_live_of_entering hpc) rfl (fun _ => rfl)
  | enter hpc hopen hroom =>
    have hcount : (s.setInput i .live).inputs.countP isLive = s.liveInputs + 1 :=
      countP_set_enter hi (not_live_of_entering hpc) rfl
    obtain ⟨hadd, hclosed⟩ := enter hroom
    refine h.of_inputs _ (s.inputInvocations + 1) ?_ hclosed (fun hf => ?_) (fun hst hd => ?_)
    · rw [hadd, hcount, h.inputs]
    · simp [hentered hpc] at hf
    · -- The gate is shut, so the compare-exchange cannot have succeeded.
      simp [(h.shut hst hd).1] at hopen
  | release hpc _ | releaseLast hpc _ =>
    subst hpc
    exact h.release hi rfl
  | notify hpc =>
    subst hpc
    exact h.notifyAll.setInput_uncounted hi rfl rfl (fun _ => rfl)

/-- A step of a parallel task that is not counted before or after it. -/
theorem GateInv.setTask_uncounted {pc pc' : TaskPc} (mu : Option Holder) (h : GateInv s)
    (hk : s.tasks[k]? = some pc) (hpc : pc.active = false) (hpc' : pc'.outside) :
    GateInv { s.setTask k pc' with mu := mu } := by
  have hnot : pc'.active = false := by
    cases pc' <;> first | rfl | cases hpc'
  exact h.of_tasks_same mu (countP_set_same hk (hnot.trans hpc.symm))
    (fun hf => forall_mem_set (h.unstarted hf).2.2 hpc')

/-- A counted task takes itself off the counter. -/
theorem GateInv.retire {pc pc' : TaskPc} (mu : Option Holder) (h : GateInv s)
    (hk : s.tasks[k]? = some pc) (hpc : pc.active) (hpc' : pc'.active = false) :
    GateInv { s.setTask k pc' with parallelActive := s.parallelActive - 1, mu := mu } := by
  have hst : s.started := h.started_of_task hk (by simp [TaskPc.outside, hpc])
  have hcount : (s.setTask k pc').tasks.countP TaskPc.active + 1 = s.activeTasks :=
    countP_set_leave hk hpc hpc'
  have hnum := h.tasks
  refine h.of_tasks _ (s.parallelActive - 1) mu ?_ (fun hf => ?_) (fun _ hd => ?_)
  · omega
  · simp [hst] at hf
  · have hzero := (h.shut hst hd).2.2.2
    omega

section

variable (h : GateInv s)
include h

/-- A step of a task. -/
theorem taskMove_gateInv {pc : TaskPc} (hk : s.tasks[k]? = some pc)
    (m : TaskMove s k pc s') : GateInv s' := by
  cases m with
  | enter hpc hmu hopen =>
    subst hpc
    have hst : s.started := h.started_of_task hk rfl
    have hcount : (s.setTask k .spawning).tasks.countP TaskPc.active = s.activeTasks + 1 :=
      countP_set_enter hk rfl rfl
    refine h.of_tasks _ (s.parallelActive + 1) s.mu ?_ (fun hf => ?_) (fun _ hd => ?_)
    · rw [hcount, h.tasks]
    · simp [hst] at hf
    · simp [(h.shut hst hd).2.1] at hopen
  | refuse hpc =>
    subst hpc
    exact h.setTask_uncounted s.mu hk rfl rfl
  | advance pc' hpc hpc' =>
    have hst : s.started := h.started_of_task hk (by simp [TaskPc.outside, hpc])
    refine h.of_tasks_same s.mu (countP_set_same hk (hpc'.trans hpc.symm)) (fun hf => ?_)
    simp [hst] at hf
  | retire failed hpc hmu hmore =>
    refine h.retire s.mu hk hpc ?_
    cases failed <;> rfl
  | retireLast failed hpc hmu hlast =>
    have hzero : 0 = s.parallelActive - 1 := by omega
    rw [hzero]
    exact h.retire _ hk hpc rfl
  | notify failed hpc =>
    subst hpc
    refine h.notifyAll.setTask_uncounted none hk rfl ?_
    cases failed <;> rfl

/-- The two counters behind the predicate of a drain. -/
theorem GateInv.empty_of_ready (hr : s.ready) : s.liveInputs = 0 ∧ s.activeTasks = 0 := by
  simp only [ready, Bool.and_eq_true, beq_iff_eq] at hr
  exact ⟨h.inputs ▸ hr.1, h.tasks ▸ hr.2⟩

/-- A step of a drain. -/
theorem drainMove_gateInv (hd : s.drains[d]? = some x) (m : DrainMove s d x s') : GateInv s' := by
  cases m with
  | absent hpc hnull =>
    have hx : x.pc.done = false := by rw [hpc]; rfl
    have hidle := h.idle_of_drain hd hx
    have hshut : s.started → s.drained := fun hst => h.released hst hnull
    exact { h with
      starting := fun hne => absurd hidle hne
      drains := forall_mem_set h.drains (.inl rfl)
      released := fun _ _ => rfl
      shut := fun hst _ => h.shut hst (hshut hst) }
  | begin hpc hrun =>
    have hx : x.pc.done = false := by rw [hpc]; rfl
    refine h.of_drains _ s.mu (forall_mem_set h.drains (.inr ⟨h.idle_of_drain hd hx, ?_, nofun⟩))
    intro _
    cases hst : s.started with
    | true => rfl
    | false =>
      simp [(h.unstarted hst).1] at hrun
  | close hpc =>
    have hx : x.pc.done = false := by rw [hpc]; rfl
    have hst : s.started := h.started_of_drain hd hx (by rw [hpc]; nofun)
    obtain ⟨hcount, hclosed⟩ := close s.inputInvocations
    exact { h with
      inputs := hcount.trans h.inputs
      drains := by
        refine forall_mem_set (fun y hy => ?_)
          (.inr ⟨h.idle_of_drain hd hx, fun _ => hst, fun _ => hclosed⟩)
        rcases h.drains y hy with hdone | hrest
        · exact .inl hdone
        · exact .inr ⟨hrest.1, hrest.2.1, fun _ => hclosed⟩
      shut := fun _ hdr => ⟨hclosed, (h.shut hst hdr).2⟩ }
  | lock pc' hpc hmu hpc' hreg =>
    have hpast : x.pc.past := by
      cases hp : x.pc <;> rw [hp] at hpc <;> first | rfl | cases hpc
    exact h.of_past hd hpast _ _ (.inr (past_of_holds hpc'))
  | within x' pc' hpc hpc' hreg =>
    exact h.of_past hd (past_of_holds hpc) _ s.mu (.inr (past_of_holds hpc'))
  | wait hpc hbusy | join hpc => exact h.of_past hd (by rw [hpc]; rfl) _ s.mu (.inr rfl)
  | register hpc => exact h.of_past hd (by rw [hpc]; rfl) _ none (.inr rfl)
  | unlock hpc => exact h.of_past hd (past_of_holds hpc) _ none (.inr rfl)
  | fail hpc => exact h.of_past hd (past_of_holds hpc) _ none (.inl rfl)
  | finish r hpc hr =>
    have hpast := past_of_holds hpc
    have hbase := h.of_past hd hpast { x with pc := .returned r } none (.inl rfl)
    cases r with
    | false =>
      have hsame : s.finishDrain d x false =
          { s with drains := s.drains.set d { x with pc := .returned false }, mu := none } := by
        simp [finishDrain, setDrain]
      rw [hsame]
      exact hbase
    | true =>
      -- The predicate and the two flags change in one section of the mutex.
      have hidle := h.idle_of_drain hd (not_done_of_past hpast)
      exact { h with
        starting := fun hne => absurd hidle hne
        drains := hbase.drains
        released := fun _ _ => Bool.or_true _
        shut := fun _ _ => ⟨h.closed_of_drain hd hpast, Bool.and_false _,
          h.empty_of_ready (hr rfl)⟩ }

/-! ### Whole runs -/

/-- While `start` runs, the environment is neither started nor drained, and every `drain` that was
    called before is over. -/
theorem GateInv.of_starting (hpc : s.starter ≠ .idle) :
    (s.started = false ∧ s.drained = false) ∧ ∀ x ∈ s.drains, x.pc.done :=
  ⟨h.starting hpc, fun x hx => (h.drains x hx).resolve_right (fun hrest => hpc hrest.1)⟩

/-- **One step of a serialised run keeps the invariant.** -/
theorem step_gateInv {a : Action} (hok : Serialised s a)
    (hs : step s a = some s') : GateInv s' := by
  cases move_of_step hs with
  | world _ w => exact { h with }
  | callBegin =>
    have hst : s.started := hok.1
    exact h.of_inputs_same (by simp [liveInputs, isLive]) (by simp [hst])
  | input i f pc hi _ m => exact inputMove_gateInv h hi m
  | callParallel =>
    have hst : s.started := hok.1
    exact h.of_tasks_same s.mu (by simp [activeTasks, TaskPc.active]) (by simp [hst])
  | task k f pc hk _ m => exact taskMove_gateInv h hk m
  | callDrain ctx =>
    exact h.of_drains _ s.mu (forall_mem_concat h.drains
      (.inr ⟨hok.2, fun hne => absurd rfl hne, (by rintro ⟨⟩)⟩))
  | drain d f x hd _ m => exact drainMove_gateInv h hd m
  | wake d f x pc' hd hpc hpc' =>
    refine h.of_past hd (by rw [hpc]; rfl) _ s.mu (.inr ?_)
    cases pc' <;> first | rfl | cases hpc'
  | notifier d x hd hmu =>
    refine h.of_drains _ s.mu (fun y hy => ?_)
    obtain ⟨z, hz, rfl⟩ := mem_map.mp hy
    refine GateInv.placed_wakeDrain (forall_mem_set h.drains ?_ z hz)
    exact h.drains x (mem_of_getElem? hd)
  | callStart hidle hnull =>
    -- A start comes only after the drain, when nobody is inside.
    obtain ⟨hdone, hent, htask⟩ := hok.2
    have hdr : s.drained := hok.1
    obtain ⟨hlive, hact⟩ := h.empty_of_drained hdr
    exact { h with
      starting := fun _ => ⟨rfl, rfl⟩
      drains := fun x hx => .inl (hdone x hx)
      unstarted := by
        refine fun _ => ⟨hnull, fun x hx => ?_, fun x hx => ?_⟩
        · have hne : isLive x ≠ true := countP_eq_zero.mp hlive x hx
          simpa [outside, hent x hx] using hne
        · have hna : TaskPc.active x ≠ true := countP_eq_zero.mp hact x hx
          simpa [TaskPc.outside, htask x hx] using hna
      released := by rintro ⟨⟩
      shut := by rintro ⟨⟩ }
  | alreadyStarted hrun => exact h
  | reset o hpc =>
    obtain ⟨hst, hdone⟩ := h.of_starting (by rw [hpc]; rintro ⟨⟩)
    obtain ⟨hnull, hin, htask⟩ := h.unstarted hst.1
    exact { h with
      inputs := count_zero.trans (liveInputs_eq_zero hin).symm
      starting := fun _ => hst
      drains := fun x hx => .inl (hdone x hx)
      shut := fun hf => absurd (hst.1.symm.trans hf) Bool.false_ne_true }
  | notDrained o hpc | topologyThrew o hpc | initThrew o hpc =>
    obtain ⟨hst, hdone⟩ := h.of_starting (by rw [hpc]; rintro ⟨⟩)
    exact { h with starting := fun _ => hst, drains := fun x hx => .inl (hdone x hx) }
  | accept o hpc hmu hzero | startFailed o hpc hmu =>
    obtain ⟨hst, hdone⟩ := h.of_starting (by rw [hpc]; rintro ⟨⟩)
    exact { h with
      starting := fun _ => hst
      drains := fun x hx => .inl (hdone x hx)
      shut := fun hf => absurd (hst.1.symm.trans hf) Bool.false_ne_true }
  | initialised o hpc =>
    obtain ⟨hst, hdone⟩ := h.of_starting (by rw [hpc]; rintro ⟨⟩)
    exact { h with
      starting := fun hne => absurd rfl hne
      drains := fun x hx => .inl (hdone x hx)
      unstarted := by rintro ⟨⟩
      released := by rintro - ⟨⟩
      shut := fun _ hf => absurd (hst.2.symm.trans hf) Bool.false_ne_true }
  | release =>
    have hdr : s.drained := hok.1
    exact { h with
      unstarted := fun hst => ⟨rfl, (h.unstarted hst).2⟩
      released := fun _ _ => hdr }

end

theorem gateInv_init : GateInv init where
  inputs := rfl
  tasks := rfl
  starting := fun h => absurd rfl h
  drains := nofun
  unstarted := fun _ => ⟨rfl, nofun, nofun⟩
  released := nofun
  shut := nofun

theorem reachable_gateInv (hr : system.ReachableIf Serialised s) : GateInv s :=
  hr.invariant gateInv_init (fun _ hi hok hs => step_gateInv hi hok hs)

end ServiceLib.Environment
