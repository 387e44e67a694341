import ServiceLib.Cron.Overlap

namespace ServiceLib.Cron

/-!
# Cron endpoint — drain

The invariant of `Cron.Overlap` over runs, calls of `stop` and configurations, and what follows
from it (`dispatch_stop_safe`).
-/

open List Endpoint

/-! ### Runs -/

variable {s s' : Endpoint} {o : Endpoint.Outcome} {j : Nat} {a : Action} {r : Nat}

section

variable (h : Inv s)
include h

/-- Run `r` moves. -/
theorem Inv.run {x' : Run} {running : Bool} {active : Nat}
    (hcount : active = s.firings.countP DispatchPc.counted + (s.runs.set r x').countP Run.counted)
    (hidle : s.active = 0 → active = 0)
    (howners : s.overlapPolicy = .skip → x'.committed → x'.owns)
    (hexclusive : s.overlapPolicy = .skip →
      Exclusive s.tentative
        (s.firings.countP DispatchPc.committed + (s.runs.set r x').countP Run.committed)
        running s.stopping) : Inv { s with runs := s.runs.set r x', running, active } :=
  { h with
    count := hcount
    idle := by
      intro hcond
      obtain ⟨hstop, hactive, hnone⟩ := h.idle hcond
      exact ⟨hstop, hidle hactive, hnone⟩
    owners := by
      intro hskip
      refine ⟨(h.owners hskip).1, ?_⟩
      exact forall_mem_set (h.owners hskip).2 (howners hskip)
    exclusive := hexclusive }

/-- A step of a run. -/
theorem Inv.runStep (hs : s.runStep r o = some s') : Inv s' := by
  unfold Endpoint.runStep at hs
  cases hr : s.runs[r]? with
  | none => simp [hr] at hs
  | some x =>
    rw [hr] at hs
    obtain ⟨owns, pc⟩ := x
    have hmem := mem_of_getElem? hr
    have hsame : ∀ (p : Run → Bool) (x' : Run), p x' = p ⟨owns, pc⟩ →
        (s.runs.set r x').countP p = s.runs.countP p := fun p x' => countP_set_same hr
    have hcount := h.count
    -- A move inside the part of the run that holds the flag, or outside of it.
    have hwalk : ∀ x' : Run, x'.counted = Run.counted ⟨owns, pc⟩ →
        x'.committed = Run.committed ⟨owns, pc⟩ → x'.owns = owns →
        Inv { s with runs := s.runs.set r x' } := by
      intro x' hcounted hcommitted howns
      refine h.run ?_ id (fun hskip hcom => ?_) (fun hskip => ?_)
      · rw [hsame Run.counted x' hcounted]
        exact hcount
      · rw [howns]
        rw [hcommitted] at hcom
        exact (h.owners hskip).2 _ hmem hcom
      · rw [hsame Run.committed x' hcommitted]
        exact h.exclusive hskip
    cases pc with
    | spawned =>
      cases hs
      cases o <;> exact hwalk _ rfl rfl rfl
    | output => cases hs; exact hwalk ⟨owns, .clearing⟩ rfl rfl rfl
    | clearing =>
      cases hs
      refine h.run ?_ id (fun _ hcom => by cases hcom) (fun hskip => ?_)
      · rw [hsame Run.counted ⟨owns, .uncounting⟩ rfl]
        exact hcount
      · have howns : owns := (h.owners hskip).2 _ hmem rfl
        have hex := h.exclusive hskip
        have hcommitted := countP_set_leave hr (p := Run.committed) (b := ⟨owns, .uncounting⟩)
          rfl rfl
        rw [committed, ← hcommitted, ← Nat.add_assoc] at hex
        rw [howns, if_pos rfl, ← howns]
        exact hex.giveBack
    | uncounting =>
      dsimp only at hs
      split at hs <;> cases hs
      have hcounted := countP_set_leave hr (p := Run.counted) (b := ⟨owns, .notifying⟩) rfl rfl
      refine h.run ?_ (fun hactive => by omega) (fun _ hcom => by cases hcom) (fun hskip => ?_)
      · rw [hcount, unfinished]
        omega
      · rw [hsame Run.committed ⟨owns, .notifying⟩ rfl]
        exact h.exclusive hskip
    | notifying =>
      cases hs
      exact (hwalk ⟨owns, .finished⟩ rfl rfl rfl).notifyAll
    | finished => cases hs

/-! ### Calls of `stop` -/

/-- A `stop` moves, and leaves the count and the flag alone. -/
theorem Inv.stop {pc' : StopPc} {tasks : Bool}
    (hclosing : pc'.closing → s.stopping := by simp [StopPc.closing])
    (hdrained : pc'.drained → s.stopping ∧ s.active = 0 ∧
      ∀ owns, DispatchPc.counting owns ∉ s.firings := by simp [StopPc.drained]) :
    Inv { s with stops := s.stops.set j pc', tasks } :=
  { h with
    closes := forall_mem_set h.closes hclosing
    idle := by
      rintro (hopen | ⟨pc, hpc, hin⟩)
      · exact h.idle (.inl hopen)
      · rcases mem_or_eq_of_mem_set hpc with hpc | rfl
        · exact h.idle (.inr ⟨pc, hpc, hin⟩)
        · exact hdrained hin }

/-- Whoever looks at the count under the mutex sees all that will be counted. -/
theorem Inv.not_counting (hmu : s.mu = none) (owns : Bool) :
    DispatchPc.counting owns ∉ s.firings := by
  intro hmem
  obtain ⟨d, hd⟩ := mem_iff_getElem?.mp hmem
  simp [h.mutex d _ hd rfl] at hmu

/-- Once nothing is counted, nobody holds the flag for a run. -/
theorem Inv.committed_eq_zero (hactive : s.active = 0)
    (hnone : ∀ owns, DispatchPc.counting owns ∉ s.firings) : s.committed = 0 := by
  have hzero : s.firings.countP DispatchPc.counted = 0 ∧ s.runs.countP Run.counted = 0 := by
    have hcount := h.count
    rw [hactive, unfinished] at hcount
    omega
  rw [countP_eq_zero, countP_eq_zero] at hzero
  rw [committed, Nat.add_eq_zero_iff, countP_eq_zero, countP_eq_zero]
  refine ⟨fun pc hpc hcom => ?_, fun r hr hcom => hzero.2 r hr (Run.counted_of_committed hcom)⟩
  cases pc with
  | counting owns => exact hnone owns hpc
  | spawning owns | failing owns => exact hzero.1 _ hpc rfl
  | _ => cases hcom

/-- A step of `stop`. -/
theorem Inv.stopStep (hs : s.stopStep j o = some s') : Inv s' := by
  unfold Endpoint.stopStep at hs
  cases hj : s.stops[j]? with
  | none => simp [hj] at hs
  | some pc =>
    rw [hj] at hs
    have hmem := mem_of_getElem? hj
    have hclosed : pc.closing → s.stopping := h.closes pc hmem
    cases pc with
    | storing =>
      cases hs
      -- The store only closes the endpoint.
      refine { h with
        abandons := fun _ _ => rfl
        closes := fun _ _ _ => rfl
        idle := ?_
        exclusive := fun hskip => ?_ }
      · intro hcond
        obtain ⟨-, hactive, hnone⟩ := h.idle (hcond.imp id (fun ⟨pc, hpc, hin⟩ => by
          rcases mem_or_eq_of_mem_set hpc with hpc | rfl
          · exact ⟨pc, hpc, hin⟩
          · cases hin))
        exact ⟨rfl, hactive, hnone⟩
      · have hex := h.exclusive hskip
        exact ⟨hex.one, hex.alone, fun hstop => by cases hstop⟩
    | firstCheck =>
      have hstop := hclosed rfl
      dsimp only at hs
      split at hs
      · cases hs
      next hfree =>
        split at hs
        next hactive =>
          cases hs
          exact h.stop (fun _ => hstop)
            (fun _ => ⟨hstop, hactive, h.not_counting (not_not.mp hfree)⟩)
        · split at hs <;> cases hs
          · exact h.stop
          · exact h.stop (fun _ => hstop)
    | subscribing =>
      cases hs
      have hstop := hclosed rfl
      cases o
      case fail => exact h.stop
      all_goals exact h.stop (fun _ => hstop)
    | waiting =>
      have hstop := hclosed rfl
      dsimp only at hs
      split at hs
      · cases hs
      next hfree =>
        split at hs <;> cases hs
        · refine h.stop (fun _ => hstop) (fun hzero => ?_)
          exact ⟨hstop, beq_iff_eq.mp hzero, h.not_counting (not_not.mp hfree)⟩
        · exact h.stop (fun _ => hstop)
    | parked =>
      cases hs
      exact h.stop (fun _ => hclosed rfl)
    | joining completed =>
      cases hs
      cases completed with
      | true =>
        exact h.stop (fun _ => hclosed rfl) (fun _ => h.idle (.inr ⟨_, hmem, rfl⟩))
      | false => exact h.stop
    | cancelling =>
      dsimp only at hs
      split at hs <;> cases hs
      exact h.stop (fun _ => hclosed rfl) (fun _ => h.idle (.inr ⟨_, hmem, rfl⟩))
    | clearing =>
      cases hs
      obtain ⟨hstop, hactive, hnone⟩ := h.idle (.inr ⟨_, hmem, rfl⟩)
      have hend : Inv (s.setStop j (.returned true)) := h.stop
      refine { hend with idle := fun _ => ⟨hstop, hactive, hnone⟩, exclusive := fun hskip => ?_ }
      have hzero := h.committed_eq_zero hactive hnone
      show Exclusive s.tentative s.committed false s.stopping
      rw [hzero, hstop]
      exact ⟨by decide, by rintro ⟨⟩, by rintro ⟨⟩⟩
    | returned | threw => cases hs

/-- A configuration finds the endpoint at rest. -/
theorem Inv.configure {policy : Option OverlapPolicy}
    (hs : s.configure policy = some s') : Inv s' := by
  unfold Endpoint.configure at hs
  split at hs
  · cases hs
  next hrest =>
    rw [not_or, not_or, not_not, not_not, Bool.not_eq_true, all_eq_true, all_eq_true] at hrest
    obtain ⟨hopen, hfirings, hstops⟩ := hrest
    obtain ⟨-, hactive, hnone⟩ := h.idle (.inl hopen)
    -- Every call is over, so nobody relies on what is reset.
    have hclosing : ∀ pc ∈ s.stops, pc.closing = false := fun pc hpc =>
      StopPc.not_closing_of_over (hstops pc hpc)
    have hdrained : ¬ ∃ pc ∈ s.stops, pc.drained := by
      rintro ⟨pc, hpc, hin⟩
      have hin' := StopPc.closing_of_drained hin
      rw [hclosing pc hpc] at hin'
      cases hin'
    split at hs
    · cases hs
      exact { h with idle := by simpa using fun pc hpc hin => absurd ⟨pc, hpc, hin⟩ hdrained }
    · cases hs
      refine ⟨h.mutex, h.count, ?_, ?_, ?_, fun _ => ⟨?_, ?_⟩, fun _ => ?_⟩
      · intro owns hmem
        cases hfirings _ hmem
      · intro pc hpc hin
        simp [hclosing pc hpc] at hin
      · rintro (hfalse | hin)
        · cases hfalse
        · exact absurd hin hdrained
      · exact fun pc hpc => (DispatchPc.not_tentative_of_over (hfirings pc hpc)).2
      · intro r hr hcom
        have hzero := h.committed_eq_zero hactive hnone
        rw [committed, Nat.add_eq_zero_iff, countP_eq_zero, countP_eq_zero]
          at hzero
        exact absurd hcom (hzero.2 r hr)
      · have hzero := h.committed_eq_zero hactive hnone
        have htentative : s.tentative = 0 := by
          rw [tentative, countP_eq_zero]
          intro pc hpc hin
          simp [(DispatchPc.not_tentative_of_over (hfirings pc hpc)).1] at hin
        show Exclusive s.tentative s.committed s.running false
        rw [hzero, htentative]
        exact ⟨by decide, by rintro ⟨⟩, fun _ => ⟨by decide, by rintro ⟨⟩⟩⟩

/-- Every step keeps the invariant. -/
theorem Inv.step (hs : step s a = some s') : Inv s' := by
  cases a with
  | configure policy => exact h.configure hs
  | fire => cases hs; exact h.fire
  | dispatch d o => exact h.dispatchStep hs
  | run r o => exact h.runStep hs
  | callStop =>
    cases hs
    exact { h with
      closes := by simpa [or_imp, forall_and, StopPc.closing] using h.closes
      idle := by simpa [or_and_right, exists_or, StopPc.drained] using h.idle }
  | stop j o => exact h.stopStep hs

end

theorem inv_of_reachable (h : system.Reachable s) : Inv s :=
  h.invariant inv_init (fun _ hi _ hs => hi.step hs)

/-! ### Results -/

/-- Whether the step is a configuration of the endpoint. -/
def Action.configures : Action → Bool
  | .configure _ => true
  | _ => false

/-- A `stop` moves itself alone, and only the step that returns `true` closes the endpoint. -/
theorem stopStep_effect (hs : s.stopStep j o = some s') :
    ∃ pc, s'.stops = s.stops.set j pc ∧ s'.runs = s.runs ∧
      (s'.configured = s.configured ∧ pc ≠ .returned true ∨ s'.configured = false) := by
  unfold Endpoint.stopStep at hs
  split at hs
  case h_3 =>
    split at hs
    · cases hs
    · split at hs
      · cases hs; exact ⟨_, rfl, rfl, .inl ⟨rfl, by simp⟩⟩
      · split at hs <;> cases hs <;> exact ⟨_, rfl, rfl, .inl ⟨rfl, by simp⟩⟩
  case h_4 => cases hs; exact ⟨_, rfl, rfl, .inl ⟨rfl, by cases o <;> simp⟩⟩
  case h_5 =>
    split at hs
    · cases hs
    · split at hs <;> cases hs <;> exact ⟨_, rfl, rfl, .inl ⟨rfl, by simp⟩⟩
  case h_7 completed _ => cases hs; exact ⟨_, rfl, rfl, .inl ⟨rfl, by cases completed <;> simp⟩⟩
  case h_8 => split at hs <;> cases hs; exact ⟨_, rfl, rfl, .inl ⟨rfl, by simp⟩⟩
  case h_9 => cases hs; exact ⟨_, rfl, rfl, .inr rfl⟩
  case h_2 | h_6 => cases hs; exact ⟨_, rfl, rfl, .inl ⟨rfl, by simp⟩⟩
  all_goals cases hs

/-- Every other step leaves a closed endpoint closed, and a run only starts for a firing that is
    counted already. -/
theorem step_closed (hs : step s a = some s') (ha : a.configures = false)
    (hopen : s.configured = false) (hnone : s.unfinished = 0) :
    s'.configured = false ∧ s'.runs.length = s.runs.length := by
  cases a with
  | configure policy => cases ha
  | fire | callStop => cases hs; exact ⟨hopen, rfl⟩
  | dispatch d o =>
    simp only [step, dispatchStep] at hs
    cases hd : s.firings[d]? with
    | none => simp [hd] at hs
    | some pc =>
      rw [hd] at hs
      have hzero : pc.counted = false := by
        rw [unfinished, Nat.add_eq_zero_iff, countP_eq_zero] at hnone
        exact Bool.eq_false_iff.mpr (hnone.1 pc (mem_of_getElem? hd))
      cases pc with
      | spawning | failing | uncounting => cases hzero
      | entered | locking =>
        dsimp only at hs
        split at hs <;> cases hs <;> exact ⟨hopen, rfl⟩
      | claiming =>
        dsimp only at hs
        split at hs
        · cases hs
          exact ⟨hopen, rfl⟩
        · split at hs <;> cases hs <;> exact ⟨hopen, rfl⟩
      | checking | abandoning | counting | notifying => cases hs; exact ⟨hopen, rfl⟩
      | returned | threw => cases hs
  | run r o =>
    simp only [step, Endpoint.runStep] at hs
    split at hs
    case h_5 =>
      split at hs <;> cases hs
      exact ⟨hopen, length_set⟩
    case h_1 | h_7 => cases hs
    all_goals cases hs; exact ⟨hopen, length_set⟩
  | stop j o =>
    obtain ⟨_, -, hruns, hclosed⟩ := stopStep_effect hs
    exact ⟨hclosed.elim (fun hkept => hkept.1.trans hopen) id, congrArg length hruns⟩

/-- A `stop` that returns `true` leaves the endpoint closed. -/
theorem closed_of_stop
    (hs : s.stopStep j o = some s') (hret : s'.stops[j]? = some (.returned true)) :
    s'.configured = false := by
  obtain ⟨pc, hstops, -, hclosed⟩ := stopStep_effect hs
  rw [hstops] at hret
  rcases getElem?_set_cases hret with ⟨-, rfl⟩ | ⟨hne, -⟩
  · exact hclosed.resolve_left (fun hkept => hkept.2 rfl)
  · exact absurd rfl hne

/-- **Dispatch and stop.**  Under `kSkip` the output of at most one run is executing, `active` is
    the number of dispatched runs that are not over, and from a `stop` that returns `true` until
    the next configuration no run is active and none starts. -/
theorem dispatch_stop_safe {s : Endpoint} (h : system.Reachable s) :
    (s.overlapPolicy = .skip → s.executing ≤ 1) ∧ s.active = s.unfinished ∧
      ∀ j o s', s.stopStep j o = some s' → s'.stops[j]? = some (.returned true) →
        ∀ u, system.Steps (fun _ a => a.configures = false) s' u →
          u.unfinished = 0 ∧ u.runs.length = s'.runs.length := by
  have hinv := inv_of_reachable h
  refine ⟨fun hskip => ?_, hinv.count, fun j o s' hs hret u hsteps => ?_⟩
  · have hle : s.executing ≤ s.runs.countP Run.committed :=
      countP_mono_left (fun r _ => Run.committed_of_executing)
    have hone := (hinv.exclusive hskip).one
    rw [committed] at hone
    omega
  · have hclosed := closed_of_stop hs hret
    have hend : ∀ v, Inv v → v.configured = false → v.unfinished = 0 := by
      intro v hv hopen
      rw [← hv.count]
      exact (hv.idle (.inl hopen)).2.1
    have hall : Inv u ∧ u.configured = false ∧ u.runs.length = s'.runs.length := by
      refine hsteps.preserves (I := fun v => Inv v ∧ v.configured = false ∧
        v.runs.length = s'.runs.length) ?_ ⟨hinv.stopStep hs, hclosed, rfl⟩
      rintro v a v' ⟨hv, hopen, hlen⟩ ha hstep
      obtain ⟨hopen', hlen'⟩ := step_closed hstep ha hopen (hend v hv hopen)
      exact ⟨hv.step hstep, hopen', hlen'.trans hlen⟩
    exact ⟨hend u hall.1 hall.2.1, hall.2.2⟩

/-- A run is in the pipeline while a second firing is skipped; then the endpoint is stopped. -/
theorem dispatch_stop_safe_drained :
    ∃ s s' : Endpoint, system.Reachable s ∧ s.overlapPolicy = .skip ∧
      s.stopStep 0 .go = some s' ∧ s'.stops[0]? = some (.returned true) ∧
      s'.unfinished = 0 ∧ s'.runs.length = 1 := by
  obtain ⟨s, hr, hskip, s', hs, hret, hlen⟩ := system.exists_reachable_of_run
    [.configure (some .skip), .fire, .dispatch 0 .go, .dispatch 0 .go, .dispatch 0 .go,
     .dispatch 0 .go, .dispatch 0 .go, .dispatch 0 .go, .run 0 .go, .fire, .dispatch 1 .go,
     .dispatch 1 .go, .callStop, .stop 0 .go, .stop 0 .go, .stop 0 .go, .stop 0 .go, .run 0 .go,
     .run 0 .go, .run 0 .go, .run 0 .go, .stop 0 .go, .stop 0 .go, .stop 0 .go]
    (fun s => s.overlapPolicy = .skip ∧ ∃ s', s.stopStep 0 .go = some s' ∧
      s'.stops[0]? = some (.returned true) ∧ s'.runs.length = 1) (by decide +kernel)
  have hsafe := (dispatch_stop_safe hr).2.2 0 .go s' hs hret s' .refl
  exact ⟨s, s', hr, hskip, hs, hret, hsafe.1, hlen⟩

end ServiceLib.Cron
