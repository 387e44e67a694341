import ServiceLib.Environment.Gate

namespace ServiceLib.Environment

/-!
# Execution environment — what a drain guarantees

The counters over whole runs (`drain_gate_accounting`), and why a start must not overlap a drain
(`drain_returns_true_reopened`).
-/

open GateWord

variable {s s' : State} {a : Action}

/-! ### The closed bit -/

/-- **Only `fetch_or` and the store of a start write the closed bit.**  In particular no
    increment carries into it and no decrement borrows from it. -/
theorem closedBit_kept (h : GateInv s) (hs : step s a = some s')
    (hne : isClosed s'.inputInvocations ≠ isClosed s.inputInvocations) :
    (∃ d f x, a = .drain d f ∧ s.drains[d]? = some x ∧ x.pc = .closing) ∨
      ∃ o, a = .start o ∧ s.starter = .resetting := by
  cases move_of_step hs with
  | input i f pc hi _ m =>
    cases m with
    | enter _ _ hroom => exact absurd (enter hroom).2 hne
    | release hpc _ | releaseLast hpc _ =>
      subst hpc
      have hpos : 0 < s.liveInputs :=
        List.countP_pos_iff.mpr ⟨_, List.mem_of_getElem? hi, rfl⟩
      have hcount : count s.inputInvocations ≠ 0 := by
        rw [h.inputs]
        exact Nat.pos_iff_ne_zero.mp hpos
      exact absurd (leave hcount).2 hne
    | load | refuse | notify => exact absurd rfl hne
  | task k f pc hk _ m => cases m <;> exact absurd rfl hne
  | drain d f x hd _ m =>
    cases m with
    | close hpc => exact .inl ⟨d, f, x, rfl, hd, hpc⟩
    | absent | begin | lock | within | wait | register | unlock | join | fail | finish =>
      exact absurd rfl hne
  | reset o hpc => exact .inr ⟨o, rfl, hpc⟩
  | _ => exact absurd rfl hne

/-! ### A drain that returns true -/

/-- The step in which drain `d` returns true. -/
def DrainsAt (d : Nat) (s s' : State) : Prop :=
  (∃ x, s'.drains[d]? = some x ∧ x.pc = .returned true) ∧
    ∀ x, s.drains[d]? = some x → x.pc ≠ .returned true

instance (d : Nat) (s s' : State) : Decidable (DrainsAt d s s') :=
  decidable_of_iff
    ((s'.drains[d]?.any (fun x => x.pc = .returned true)) ∧
      s.drains[d]?.all (fun x => x.pc ≠ .returned true)) (by
    unfold DrainsAt
    cases s'.drains[d]? <;> cases s.drains[d]? <;> simp)

/-- A drain returns true by recording it. -/
theorem drained_of_drainsAt {d : Nat} (hs : step s a = some s') (hd : DrainsAt d s s') :
    s'.drained := by
  obtain ⟨⟨x', hx', hpc'⟩, hold⟩ := hd
  -- A move that leaves entry `d` alone, or sets another one, returns nothing.
  have hsame : s'.drains = s.drains → s'.drained := by
    intro he
    rw [he] at hx'
    exact absurd hpc' (hold x' hx')
  have hset : ∀ e y, s'.drains = s.drains.set e y → y.pc ≠ .returned true →
      s'.drained := by
    intro e y he hy
    rw [he] at hx'
    rcases getElem?_set_cases hx' with ⟨-, rfl⟩ | ⟨-, h0⟩
    · exact absurd hpc' hy
    · exact absurd hpc' (hold x' h0)
  have hwake : ∀ l : List Drain, s'.drains = l.map State.wakeDrain →
      (∀ y, l[d]? = some y → y.pc ≠ .returned true) → s'.drained := by
    intro l he hl
    rw [he, List.getElem?_map] at hx'
    obtain ⟨y, hy, rfl⟩ := Option.map_eq_some_iff.mp hx'
    unfold State.wakeDrain at hpc'
    split at hpc'
    · cases hpc'
    · exact absurd hpc' (hl y hy)
  cases move_of_step hs with
  | input i f pc hi _ m =>
    cases m with
    | notify => exact hwake s.drains rfl hold
    | load | refuse | enter | release | releaseLast => exact hsame rfl
  | task k f pc hk _ m =>
    cases m with
    | notify => exact hwake s.drains rfl hold
    | enter | refuse | advance | retire | retireLast => exact hsame rfl
  | callDrain ctx =>
    rcases getElem?_append_singleton_cases hx' with h0 | ⟨-, rfl⟩
    · exact absurd hpc' (hold x' h0)
    · cases hpc'
  | drain e f x hx _ m =>
    cases m with
    | absent => rfl
    | finish r =>
      cases r with
      | true => exact Bool.or_true _
      | false => exact hset e _ rfl nofun
    | lock pc' _ _ hpc | within _ pc' _ hpc =>
      refine hset e _ rfl (fun he => ?_)
      have hret : pc' = .returned true := he
      rw [hret] at hpc
      cases hpc
    | begin | close | wait | register | unlock | join | fail => exact hset e _ rfl nofun
  | wake e f x pc' _ _ hpc =>
    refine hset e _ rfl (fun he => ?_)
    have hret : pc' = .returned true := he
    rw [hret] at hpc
    cases hpc
  | notifier e x hx =>
    refine hwake _ rfl (fun y hy => ?_)
    rcases getElem?_set_cases hy with ⟨rfl, rfl⟩ | ⟨-, h0⟩
    · exact hold x hx
    · exact hold y h0
  | _ => exact hsame rfl

/-- Only a new start forgets that a drain returned true. -/
theorem drained_kept (hd : s.drained) (hne : a ≠ .callStart) (hs : step s a = some s') :
    s'.drained := by
  cases move_of_step hs with
  | input i f pc hi _ m | task k f pc hk _ m => cases m <;> exact hd
  | drain e f x hx _ m =>
    cases m with
    | absent => rfl
    | finish r => exact Bool.or_eq_true _ _ ▸ .inl hd
    | _ => exact hd
  | callStart => exact absurd rfl hne
  | _ => exact hd

/-- **Drain gate accounting.**  In every run in which invocations and parallel tasks begin
    only after a start, a start is repeated only after a drain that returned true and does not
    overlap another call: both counters are exact; the counter of the invocation word stays
    clear of the closed bit, which only a drain sets and a start clears; and from a step in
    which a drain returns true until the next start, nobody is inside and nobody begins. -/
theorem drain_gate_accounting (hr : system.ReachableIf Serialised s) :
    count s.inputInvocations = s.liveInputs ∧
    s.parallelActive = s.activeTasks ∧
    ∀ a s', Serialised s a → step s a = some s' →
      (isClosed s'.inputInvocations ≠ isClosed s.inputInvocations →
        (∃ d f x, a = .drain d f ∧ s.drains[d]? = some x ∧ x.pc = .closing) ∨
          ∃ o, a = .start o ∧ s.starter = .resetting) ∧
      ∀ d, DrainsAt d s s' →
        ∀ t, system.Steps (fun s a => Serialised s a ∧ a ≠ .callStart) s' t →
          t.liveInputs = 0 ∧ t.activeTasks = 0 := by
  have hinv := reachable_gateInv hr
  refine ⟨hinv.inputs, hinv.tasks, fun a s' hok hs => ⟨closedBit_kept hinv hs, ?_⟩⟩
  intro d hd t ht
  have hkeep : GateInv t ∧ t.drained = true := by
    refine ht.preserves (I := fun u => GateInv u ∧ u.drained = true) ?_
      ⟨step_gateInv hinv hok hs, drained_of_drainsAt hs hd⟩
    intro u b u' hu hokb hsb
    exact ⟨step_gateInv hu.1 hokb.1 hsb, drained_kept hu.2 hokb.2 hsb⟩
  exact hkeep.1.empty_of_drained hkeep.2

/-- A start that returns. -/
def startSchedule : List Action :=
  .callStart :: List.replicate 3 (.start .started)

/-- The last input invocation ends between the `fetch_or` of a drain and its lock. -/
def drainSchedule : List Action :=
  [startSchedule, [.callBegin], List.replicate 2 (.input 0 false), [.callDrain {}],
    List.replicate 2 (.drain 0 false), List.replicate 2 (.input 0 false),
    List.replicate 1 (.drain 0 false)].flatten

/-- That drain returns true; the runtime is released and started again, and is drained with
    nobody inside. -/
def restartSchedule : List Action :=
  [drainSchedule, [.drain 0 false, .release], startSchedule, [.callBegin],
    List.replicate 4 (.input 1 false), [.callDrain {}], List.replicate 3 (.drain 1 false)].flatten

/-- The hypotheses are met by the step in which the drain after the restart returns true. -/
theorem drain_gate_accounting_restart : ∃ s s', system.ReachableIf Serialised s ∧
    step s (.drain 1 false) = some s' ∧ DrainsAt 1 s s' ∧
    ∀ t, system.Steps (fun s a => Serialised s a ∧ a ≠ .callStart) s' t →
      t.liveInputs = 0 ∧ t.activeTasks = 0 := by
  obtain ⟨s, hr, s', hs, hdrains⟩ := system.exists_reachableIf_of_run Serialised
    restartSchedule (fun s => ∃ s', step s (.drain 1 false) = some s' ∧ DrainsAt 1 s s')
    (by decide +kernel)
  have hgate := (drain_gate_accounting hr).2.2 (.drain 1 false) s' ⟨trivial, trivial⟩ hs
  exact ⟨s, s', hr, hs, hdrains, hgate.2 1 hdrains⟩

/-- Two drains pass `fetch_or`; the first returns true and the runtime is started again. -/
def overlappingSchedule : List Action :=
  [drainSchedule.take 10, [.callDrain {}], List.replicate 2 (.drain 1 false),
    List.replicate 2 (.input 0 false), List.replicate 2 (.drain 0 false), [.release],
    startSchedule, [.drain 1 false]].flatten

/-- **A drain left over from before a start returns true with the input gate open.**  Every
    start follows a drain that returned true, yet an invocation begins after the second drain
    returned true and without another start. -/
theorem drain_returns_true_reopened : ∃ s s' t, system.ReachableIf Lifecycle s ∧
    Lifecycle s (.drain 1 false) ∧ step s (.drain 1 false) = some s' ∧ DrainsAt 1 s s' ∧
    system.Steps (fun s a => Lifecycle s a ∧ a ≠ .callStart) s' t ∧ t.liveInputs ≠ 0 := by
  obtain ⟨s, hr, s', hs, hdrains, hrun⟩ := system.exists_reachableIf_of_run Lifecycle
    overlappingSchedule
    (fun s => ∃ s', step s (.drain 1 false) = some s' ∧ DrainsAt 1 s s' ∧
      ((system.guarded (fun s a => Lifecycle s a ∧ a ≠ .callStart)).runFrom s'
        (.callBegin :: List.replicate 2 (.input 1 false))).any (·.liveInputs ≠ 0) = true)
    (by decide +kernel)
  obtain ⟨t, ht, hlive⟩ := system.exists_steps_of_run _ _ _ s' hrun
  exact ⟨s, s', t, hr, trivial, hs, hdrains, ht, hlive⟩

end ServiceLib.Environment
