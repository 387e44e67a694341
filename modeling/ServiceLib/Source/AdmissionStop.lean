import ServiceLib.Source.AdmissionGate

namespace ServiceLib.Admission

/-!
# Request admission — stopping

The other half of `GateInv`: every step of `stop` keeps it.  `admission_gate` says what
follows for every run.
-/

open GateWord State

variable {s s' : State} {j : Nat} {x : StopCall}

/-! ### Stops -/

namespace GateInv

/-- The frame rule for a step of the `stop` call `j` that leaves the word alone. -/
theorem setStop (h : GateInv s) (hj : s.stops[j]? = some x) (x' : StopCall) (mu : Option Holder)
    (hclosed : x'.pc.closed = x.pc.closed) (hself : x'.pc.holds → mu = some (.stop j))
    (hmu : ∀ m, m ≠ .stop j → s.mu = some m → mu = some m) (hawaits : Awaits s.ready s.leases x') :
    GateInv { s.setStop j x' with mu := mu } where
  count_eq := h.count_eq
  closed_eq := by
    have hset := countP_set_same (p := fun x : StopCall => x.pc.closed) hj hclosed
    change isClosed s.word = (s.stops.set j x').any (·.pc.closed)
    rw [h.closed_eq, Bool.eq_iff_iff, List.any_eq_true, List.any_eq_true, ← List.countP_pos_iff,
      ← List.countP_pos_iff, hset]
  leaseHolds i pc hi hpc := hmu _ nofun (h.leaseHolds i pc hi hpc)
  stopHolds k y hk hy := by
    rcases getElem?_set_cases hk with ⟨rfl, rfl⟩ | ⟨hne, hk⟩
    · exact hself hy
    · refine hmu _ (fun heq => hne ?_) (h.stopHolds k y hk hy)
      cases heq
      rfl
  sawClosed := h.sawClosed
  awaits := forall_mem_set h.awaits hawaits
  room := h.room

/-- Setting the closed bit.  Either it was set before and the word stays, or no other `stop`
    has closed the gate and none waits. -/
theorem close (h : GateInv s) (hj : s.stops[j]? = some x) (hpc : x.pc = .closing) :
    GateInv { s.setStop j { x with pc := .waiting .firstCheck } with
      word := s.word ||| kClosed } := by
  obtain ⟨hcount, hclosed⟩ := GateWord.close s.word
  have hmine := h.stopHolds j x hj (by rw [hpc]; rfl)
  have hlt : j < s.stops.length := lt_of_getElem? hj
  refine ⟨hcount.trans h.count_eq, hclosed.trans ?_, h.leaseHolds, ?_, fun _ _ _ => hclosed, ?_,
    h.room⟩
  · symm
    exact List.any_eq_true.mpr ⟨_, List.mem_set hlt _, rfl⟩
  · exact forall_getElem?_set h.stopHolds (fun _ => hmine)
  · refine forall_mem_set (fun y hy => ?_) (.of_ne nofun nofun rfl)
    cases hwas : isClosed s.word with
    | false => exact h.awaits_of_open hwas y hy
    | true =>
      have hword : s.word ||| kClosed = s.word := by
        apply BitVec.eq_of_toNat_eq
        rw [toNat_eq (s.word ||| kClosed), toNat_eq s.word, hwas]
        change count (s.word ||| closedBit 63) +
          (if isClosed (s.word ||| closedBit 63) then _ else _) = _
        rw [hcount, hclosed]
      change Awaits (s.word ||| kClosed == kClosed) s.leases y
      rw [hword]
      exact h.awaits y hy

end GateInv

/-- **Stops keep the invariant.** -/
theorem stopMove_gateInv (h : GateInv s) (hj : s.stops[j]? = some x) (hm : StopMove s j x s') :
    GateInv s' := by
  have hmem := List.mem_of_getElem? hj
  cases hm with
  | lock hpc hmu =>
    refine h.setStop hj { x with pc := .closing } (some (.stop j)) (by rw [hpc]; rfl)
      (fun _ => rfl) ?_ (.of_open rfl)
    intro m _ hm
    simp [hmu] at hm
  | close hpc => exact h.close hj hpc
  | wait pc pc' fails armed hpc hstep =>
    have hmine : pc.holds → s.mu = some (.stop j) :=
      fun hh => h.stopHolds j x hj (by rw [hpc]; exact hh)
    refine h.setStop hj { x with pc := .waiting pc', armed := armed } _ (by rw [hpc]; rfl) ?_ ?_ ?_
    · intro hh
      exact if_pos hh
    · -- Whoever else holds the mutex keeps it: this stop gives up its own or takes a free one.
      intro m hne hm
      by_cases hh : pc.holds
      · rw [hmine hh] at hm
        cases hm
        exact absurd rfl hne
      · by_cases hh' : pc'.holds
        · have hfree : s.mu.isNone := (hstep.takes hh').resolve_left hh
          simp [hm] at hfree
        · rw [if_neg hh', if_neg hh]
          exact hm
    · refine ⟨fun hreg => ?_, fun hpark hready => ?_, fun hsucc => ?_⟩
      · cases hreg
        exact (hstep.registers rfl).1
      · -- It parks from `registering`, where the predicate is false.
        cases hpark
        have hreg := hstep.parks rfl
        rw [(h.awaits x hmem).registering (by rw [hpc, hreg])] at hready
        cases hready
      · have hend : pc' = .ended true := by
          revert hsucc
          change (StopPc.waiting pc').succeeds → _
          unfold StopPc.succeeds
          split
          next heq =>
            intro _
            cases heq
            rfl
          next heq =>
            cases heq
          · exact nofun
        obtain ⟨hready, hhold⟩ := hstep.succeeds hend
        refine ⟨hready, h.lease_outside (fun i hi => ?_)⟩
        simp [hmine hhold] at hi
  | finish pc pc' hpc hend =>
    have hhold : pc.holds := by
      unfold StopPc.afterWait at hend
      split at hend <;> first | rfl | cases hend
    have hmine := h.stopHolds j x hj (by rw [hpc]; exact hhold)
    refine h.setStop hj { x with pc := pc' } none ?_ ?_ ?_ ?_
    · rw [hpc]
      unfold StopPc.afterWait at hend
      split at hend <;> cases hend <;> rfl
    · intro hh
      unfold StopPc.afterWait at hend
      split at hend <;> cases hend <;> cases hh
    · intro m hne hm
      rw [hmine] at hm
      cases hm
      exact absurd rfl hne
    · have hx := (h.awaits x hmem).succeeds
      rw [hpc] at hx
      unfold StopPc.afterWait at hend
      split at hend <;> cases hend
      · exact ⟨nofun, nofun, fun _ => hx rfl⟩
      · exact .of_ne nofun nofun rfl
      · exact .of_ne nofun nofun rfl

/-! ### Every step -/

theorem GateInv.setWoken (h : GateInv s) (hj : s.stops[j]? = some x) (hpc : x.pc = .waiting .parked)
    (pc : WaitPc) (hhold : pc.holds = false) (hreg : pc ≠ .parked) :
    GateInv (s.setStop j { x with pc := .waiting pc }) := by
  refine h.setStop hj { x with pc := .waiting pc } s.mu (by rw [hpc]; rfl) ?_ (fun _ _ => id)
    (.of_ne ?_ ?_ ?_)
  · intro hh
    exact absurd (hhold.symm.trans hh) nofun
  · rintro ⟨⟩
    cases hhold
  · rintro ⟨⟩
    exact hreg rfl
  · cases pc <;> first | rfl | cases hhold

/-- **Every step keeps the invariant.** -/
theorem step_gateInv (h : GateInv s) {a : Action} (hs : step s a = some s') : GateInv s' := by
  cases a with
  | tick now =>
    simp only [step] at hs
    split at hs <;> cases hs
    exact { h with }
  | fire τ =>
    cases hs
    exact { h with }
  | callAcquire =>
    simp only [step] at hs
    split at hs <;> cases hs
    rename_i hroom
    -- A call that has just entered counts nowhere.
    have happend : ∀ p : LeasePc → Bool, p .entered = false →
        (s.leases ++ [LeasePc.entered]).countP p = s.leases.countP p := by
      intro p hp
      rw [List.countP_append, List.countP_singleton, hp]
      rfl
    refine ⟨h.count_eq.trans (happend LeasePc.outstanding rfl).symm, h.closed_eq,
      forall_getElem?_concat h.leaseHolds (by rintro ⟨⟩), h.stopHolds,
      forall_mem_concat h.sawClosed (by rintro ⟨⟩), ?_, ?_⟩
    · intro x hx
      have hold := h.awaits x hx
      exact ⟨hold.registering, fun hp hr => List.mem_append_left _ (hold.parked hp hr),
        fun hsucc => ⟨(hold.succeeds hsucc).1, forall_mem_concat (hold.succeeds hsucc).2 rfl⟩⟩
    · change (s.leases ++ [LeasePc.entered]).countP LeasePc.occupies * _ ≤ _
      rw [List.countP_append]
      exact of_decide_eq_true hroom
  | lease i spurious =>
    obtain ⟨pc, hi, hm⟩ := leaseMove_of_leaseStep hs
    exact leaseMove_gateInv h hi hm
  | callStop ctx =>
    cases hs
    refine ⟨h.count_eq, ?_, h.leaseHolds, forall_getElem?_concat h.stopHolds (by rintro ⟨⟩),
      h.sawClosed, forall_mem_concat h.awaits (.of_open rfl), h.room⟩
    change isClosed s.word = (s.stops ++ _).any _
    rw [List.any_append, h.closed_eq]
    exact (Bool.or_false _).symm
  | stop j fails =>
    obtain ⟨x, hj, hm⟩ := stopMove_of_stopStep hs
    exact stopMove_gateInv h hj hm
  | wake j timeout =>
    simp only [step, wakeStep] at hs
    split at hs
    · cases hs
    next x hj =>
      split at hs
      · cases hs
      next hpc =>
        have hpc := not_not.mp hpc
        split at hs
        · split at hs <;> cases hs
          exact h.setWoken hj hpc .timedOut rfl nofun
        · cases hs
          exact h.setWoken hj hpc .woken rfl nofun
  | notifier j =>
    simp only [step, notifierStep] at hs
    split at hs
    · cases hs
    next x hj =>
      split at hs <;> cases hs
      apply GateInv.notifyAll
      have hold := h.awaits x (List.mem_of_getElem? hj)
      exact h.setStop hj { x with armed := false } s.mu rfl (h.stopHolds j x hj) (fun _ _ => id)
        ⟨hold.registering, hold.parked, hold.succeeds⟩

theorem reachable_gateInv (h : system.Reachable s) : GateInv s :=
  h.invariant gateInv_init (fun _ hi _ hs => step_gateInv hi hs)

/-! ### Calls that have returned -/

/-- Some `stop` has returned normally. -/
def State.Stopped (s : State) : Prop := ∃ x ∈ s.stops, x.pc = .returned

theorem stopped_notifyAll (h : s.Stopped) : s.notifyAll.Stopped := by
  obtain ⟨x, hx, hpc⟩ := h
  refine ⟨wakeStop x, List.mem_map_of_mem hx, ?_⟩
  rw [wakeStop, if_neg (by rw [hpc]; exact nofun)]
  exact hpc

/-- A `stop` that has returned stays returned. -/
theorem step_stopped {a : Action} (hs : step s a = some s') (h : s.Stopped) : s'.Stopped := by
  cases a with
  | tick | callAcquire =>
    simp only [step] at hs
    split at hs <;> cases hs
    exact h
  | fire τ => cases hs; exact h
  | lease i spurious =>
    obtain ⟨pc, -, hm⟩ := leaseMove_of_leaseStep hs
    cases hm with
    | notify => exact stopped_notifyAll h
    | walk | grant | giveBack | lock | subtractLast | subtract | unlock => exact h
  | callStop ctx =>
    cases hs
    obtain ⟨x, hx, hpc⟩ := h
    exact ⟨x, List.mem_append_left _ hx, hpc⟩
  | stop j fails =>
    obtain ⟨x, hj, hm⟩ := stopMove_of_stopStep hs
    cases hm with
    | lock hpc | close hpc | wait pc pc' fails armed hpc | finish pc pc' hpc =>
      exact exists_mem_set hj (fun hret => absurd (hpc.symm.trans hret) nofun) h
  | wake j timeout =>
    simp only [step, wakeStep] at hs
    split at hs
    · cases hs
    next x hj =>
      split at hs
      · cases hs
      next hpc =>
        have hkeep : ∀ pc, (s.setStop j { x with pc := .waiting pc }).Stopped := fun pc =>
          exists_mem_set hj (fun hret => absurd ((not_not.mp hpc).symm.trans hret) nofun) h
        split at hs
        · split at hs <;> cases hs
          exact hkeep .timedOut
        · cases hs
          exact hkeep .woken
  | notifier j =>
    simp only [step, notifierStep] at hs
    split at hs
    · cases hs
    next x hj =>
      split at hs <;> cases hs
      exact stopped_notifyAll (s := s.setStop j { x with armed := false }) (exists_mem_set hj id h)

theorem GateInv.empty_of_stopped (h : GateInv s) (hs : s.Stopped) : s.outstanding = 0 := by
  obtain ⟨x, hx, hpc⟩ := hs
  exact h.empty_of_succeeds hx (by rw [hpc]; rfl)

/-- **The admission gate.**  In every state of a gate that any interleaving of `acquire`,
    `release` and `stop` calls reaches,
    the word is the number of outstanding leases plus the closed bit, which is set exactly when
    some `stop` has closed the gate;
    once a `stop` has returned normally no lease is outstanding, now or later;
    a `stop` that is parked while its predicate holds has a releaser about to notify it;
    and once a `stop` has returned normally no releaser will access the gate any more. -/
theorem admission_gate (h : system.Reachable s) :
    s.word.toNat = s.outstanding + (if s.stops.any (·.pc.closed) then 2 ^ 63 else 0) ∧
    (∀ x ∈ s.stops, x.pc = .returned →
      ∀ t, system.Steps (fun _ _ => True) s t → t.outstanding = 0) ∧
    (∀ x ∈ s.stops, x.pc = .waiting .parked → s.ready = true → .notifying ∈ s.leases) ∧
    (∀ x ∈ s.stops, x.pc = .returned → ∀ pc ∈ s.leases, pc.pending = false) := by
  have hinv := reachable_gateInv h
  refine ⟨?_, ?_, fun x hx => (hinv.awaits x hx).parked, ?_⟩
  · rw [toNat_eq s.word, hinv.count_eq, hinv.closed_eq]
  · intro x hx hpc t ht
    have hstay : t.Stopped ∧ GateInv t := by
      refine ht.preserves (I := fun t => t.Stopped ∧ GateInv t) ?_ ⟨⟨x, hx, hpc⟩, hinv⟩
      rintro u a u' ⟨hstop, hu⟩ - hs
      exact ⟨step_stopped hs hstop, step_gateInv hu hs⟩
    exact hstay.2.empty_of_stopped hstay.1
  · intro x hx hpc pc hmem
    have hzero := hinv.empty_of_stopped ⟨x, hx, hpc⟩
    have hout : pc.outstanding = false :=
      Bool.eq_false_iff.mpr (List.countP_eq_zero.mp hzero pc hmem)
    have hhold := ((hinv.awaits x hx).succeeds (by rw [hpc]; rfl)).2 pc hmem
    cases pc with
    | releasing | releaseLoaded | locking | subtracting => cases hout
    | notifying | unlocking => cases hhold
    | entered | loaded | refused | live | released => rfl

/-- A lease is given back while a `stop` without a deadline waits for it. -/
def drainedStop : List Action :=
  [ [.callAcquire], List.replicate 2 (.lease 0 false), [.callStop {}],
    List.replicate 7 (.stop 0 false), List.replicate 6 (.lease 0 false), [.lease 0 false],
    List.replicate 5 (.stop 0 false) ].flatten

theorem admission_gate_drained :
    ∃ s, system.Reachable s ∧ (∃ x ∈ s.stops, x.pc = .returned) ∧ s.word.toNat = 2 ^ 63 ∧
      s.outstanding = 0 := by
  obtain ⟨s, hs, x, hx, hpc⟩ := system.exists_reachable_of_run drainedStop
    (fun s => ∃ x ∈ s.stops, x.pc = .returned) (by decide +kernel)
  have hzero := (admission_gate hs).2.1 x hx hpc s .refl
  have hclosed : s.stops.any (·.pc.closed) = true :=
    List.any_eq_true.mpr ⟨x, hx, by rw [hpc]; rfl⟩
  refine ⟨s, hs, ⟨x, hx, hpc⟩, ?_, hzero⟩
  rw [(admission_gate hs).1, hzero, if_pos hclosed, Nat.zero_add]

end ServiceLib.Admission
