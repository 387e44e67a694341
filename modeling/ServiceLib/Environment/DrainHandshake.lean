import ServiceLib.Environment.Handshake

namespace ServiceLib.Environment

/-!
# Execution environment — handshakes over whole runs

The drain's side of the handshake, and the results about whole runs: `drain_handshake`, and
`drain_handshake_broken` for runs in which a finisher's steps fall around those of a drain.
-/

variable {s s' : State} {x : Drain} {d : Nat}

/-! ### Drains -/

/-- A step of drain `d` that changes nothing but its place and the mutex, which it takes when
    it is free and releases only when it is its own. -/
theorem HandshakeInv.setDrain (h : HandshakeInv s)
    (hd : s.drains[d]? = some x) (x' : Drain) (mu : Option Holder)
    (hmu : mu = s.mu ∨ s.mu = none ∨ s.mu = some (.drain d)) (hw : Watched s x')
    (hown : x'.pc.holds → mu = some (.drain d) ∧ s.inputNotifiers = 0 := by rintro ⟨⟩) :
    HandshakeInv { s with drains := s.drains.set d x', mu := mu } := by
  refine ⟨fun e y he hh => ?_, fun k pc hk hn => ?_,
    forall_mem_set h.excluded (fun hh => (hown hh).2), forall_mem_set h.watched hw, h.quiet⟩
  · rcases getElem?_set_cases he with ⟨rfl, rfl⟩ | ⟨hne, h0⟩
    · exact (hown hh).1
    · have hother := h.drainHolds e y h0 hh
      rcases hmu with rfl | hnone | hmine
      · exact hother
      · simp [hnone] at hother
      · rw [hmine] at hother
        cases hother
        exact absurd rfl hne
  · have hother := h.taskHolds k pc hk hn
    rcases hmu with rfl | hnone | hmine
    · exact hother
    · simp [hnone] at hother
    · simp [hmine] at hother

/-- The steps of drains keep the invariant. -/
theorem drainMove_handshakeInv (hg : GateInv s) (h : HandshakeInv s)
    (hd : s.drains[d]? = some x) (hex : x.pc.locks → s.inputNotifiers = 0)
    (m : DrainMove s d x s') : HandshakeInv s' := by
  have hmem := List.mem_of_getElem? hd
  have hmine : x.pc.holds → s.mu = some (.drain d) := h.drainHolds d x hd
  have hnone : x.pc.holds → s.inputNotifiers = 0 := h.excluded x hmem
  have hidle : ∀ {pc : DrainPc}, pc.holds → pc ≠ .parked := by
    intro pc hp he
    rw [he] at hp
    cases hp
  cases m with
  | absent hpc hnull =>
    have hbase := h.setDrain hd { x with pc := .returned true } s.mu (.inl rfl) watched_of_ne
    refine { hbase with quiet := fun _ => ?_ }
    -- No runtime: either no start returned, or a drain returned true before.
    cases hst : s.started with
    | false => exact h.quiet (.inl hst)
    | true => exact h.quiet (.inr (hg.released hst hnull))
  | begin | join => exact h.setDrain hd _ s.mu (.inl rfl) watched_of_ne
  | close hpc =>
    have hbase := h.setDrain hd { x with pc := .locking } s.mu (.inl rfl) watched_of_ne
    refine hbase.silent rfl rfl (.inl ?_) (fun _ _ hk _ => hk)
    simp [State.ready, (GateWord.close s.inputInvocations).1, State.setDrain]
  | lock pc' hpc hmu hpc' hreg =>
    exact h.setDrain hd _ _ (.inr (.inl hmu)) (watched_of_ne hreg (hidle hpc'))
      (fun _ => ⟨rfl, hex hpc⟩)
  | within x' pc' hpc hpc' hreg =>
    exact h.setDrain hd _ s.mu (.inl rfl) (watched_of_ne hreg (hidle hpc'))
      (fun _ => ⟨hmine hpc, hnone hpc⟩)
  | wait hpc hbusy =>
    have hh : x.pc.holds := by rw [hpc]; rfl
    exact h.setDrain hd _ s.mu (.inl rfl) (watched_of_busy hbusy _)
      (fun _ => ⟨hmine hh, hnone hh⟩)
  | register hpc =>
    -- The predicate was false at the check and nobody could change it since.
    have hbusy := (h.watched x hmem).1 hpc
    exact h.setDrain hd _ none (.inr (.inr (hmine (by rw [hpc]; rfl)))) (watched_of_busy hbusy _)
  | unlock hpc | fail hpc =>
    exact h.setDrain hd _ none (.inr (.inr (hmine hpc))) watched_of_ne
  | finish r hpc hr =>
    have hbase := h.setDrain hd { x with pc := .returned r } none (.inr (.inr (hmine hpc)))
      watched_of_ne
    refine { hbase with quiet := fun _ => ?_ }
    exact ⟨hnone hpc, h.no_taskNotifier (fun k => by rw [hmine hpc]; rintro ⟨⟩)⟩

/-! ### Whole runs -/

/-- **One step of a handshaken run keeps the invariant.** -/
theorem step_handshakeInv {a : Action} (hg : GateInv s) (h : HandshakeInv s)
    (hok : Handshaken s a) (hs : step s a = some s') : HandshakeInv s' := by
  -- During a start every drain call is over.
  have hstart : s.starter ≠ .idle → ∀ x ∈ s.drains, x.pc.done := by
    intro hne x hx
    rcases hg.drains x hx with hdone | hrest
    · exact hdone
    · exact absurd hrest.1 hne
  cases move_of_step hs with
  | world _ w => exact { h with }
  | callBegin =>
    refine h.silent ?_ rfl (.inl rfl) (fun _ _ hk _ => hk)
    simp [State.inputNotifiers, InputPc.notifies]
  | input i f pc hi _ m =>
    refine inputMove_handshakeInv hg h hi (fun hpc => ?_) m
    exact hok.2 (hi.trans (congrArg some hpc))
  | callParallel =>
    refine h.silent rfl ?_ (.inl rfl) (fun k pc hk hn => ?_)
    · simp [State.taskNotifiers, TaskPc.notifies]
    · rcases getElem?_append_singleton_cases hk with h0 | ⟨-, rfl⟩
      · exact h0
      · cases hn
  | task k f pc hk _ m => exact taskMove_handshakeInv hg h hk m
  | callDrain ctx =>
    exact ⟨forall_getElem?_concat h.drainHolds (by rintro ⟨⟩), h.taskHolds,
      forall_mem_concat h.excluded (by rintro ⟨⟩),
      forall_mem_concat h.watched watched_of_ne, h.quiet⟩
  | drain d f x hd _ m =>
    refine drainMove_handshakeInv hg h hd (fun hl => hok.2 ?_) m
    rw [hd]
    exact hl
  | wake d f x pc' hd hpc hpc' =>
    refine h.setDrain hd _ s.mu (.inl rfl) (watched_of_ne ?_ ?_) (fun hh => ?_)
    · rintro rfl
      cases hpc'
    · rintro rfl
      cases hpc'
    · simp [DrainPc.not_holds_of_locks hpc'] at hh
  | notifier d x hd hmu =>
    exact h.drains_wake _ (forall_getElem?_set (fun _ y hy => ⟨y, hy, rfl⟩) ⟨x, hd, rfl⟩)
  | callStart hidle hnull =>
    have hdr : s.drained := hok.1.1
    exact { h with quiet := fun _ => h.quiet (.inr hdr) }
  | alreadyStarted hrun => exact h
  | reset o hpc =>
    have hdone := hstart (by rw [hpc]; rintro ⟨⟩)
    refine { h with watched := fun x hx => ?_ }
    refine watched_of_ne ?_ ?_ <;> intro hp <;> have := hdone x hx <;> rw [hp] at this <;>
      cases this
  | initialised o hpc =>
    have hst := hg.starting (by rw [hpc]; rintro ⟨⟩)
    exact { h with quiet := fun _ => h.quiet (.inl hst.1) }
  | notDrained | accept | topologyThrew | initThrew | startFailed | release =>
    exact { h with }

theorem handshakeInv_init : HandshakeInv State.init where
  drainHolds := fun _ _ h => nomatch h
  taskHolds := fun _ _ h => nomatch h
  excluded := fun _ h => nomatch h
  watched := fun _ h => nomatch h
  quiet := fun _ => ⟨rfl, rfl⟩

theorem reachable_handshakeInv (hr : system.ReachableIf Handshaken s) : HandshakeInv s := by
  refine hr.invariant handshakeInv_init ?_
  intro u a u' hu hi hok hs
  exact step_handshakeInv (reachable_gateInv (hu.mono (fun _ _ h => h.1))) hi hok hs

/-- **The drain handshake**, in every run in which a last release of an input invocation does
    not fall into a drain's section of the mutex, and no drain takes the mutex between such a
    release and its `NotifyAll`: a drain that is parked in an empty environment has a
    notification coming, and once a drain has returned true no finisher will still touch the
    condition variable. -/
theorem drain_handshake (hr : system.ReachableIf Handshaken s) :
    (∀ x ∈ s.drains, x.pc = .parked → s.ready = true →
      0 < s.inputNotifiers + s.taskNotifiers) ∧
    (s.drained = true → s.inputNotifiers = 0 ∧ s.taskNotifiers = 0) := by
  have hinv := reachable_handshakeInv hr
  exact ⟨fun x hx => (hinv.watched x hx).2, fun hd => hinv.quiet (.inr hd)⟩

/-- An invocation is live, and a drain has called `fetch_or`, taken the mutex and found its
    predicate false. -/
def waitSchedule : List Action :=
  [.callStart :: List.replicate 3 (.start .started), [.callBegin],
    List.replicate 2 (.input 0 false), [.callDrain {}], List.replicate 7 (.drain 0 false)].flatten

/-- A drain parks, the last invocation ends, and its notification is on the way; both parts
    of the handshake speak about this run. -/
theorem drain_handshake_parked : ∃ s, system.ReachableIf Handshaken s ∧
    (∃ x ∈ s.drains, x.pc = .parked) ∧ s.ready = true ∧
    (∀ x ∈ s.drains, x.pc = .parked → s.ready = true →
      0 < s.inputNotifiers + s.taskNotifiers) ∧
    (s.drained = true → s.inputNotifiers = 0 ∧ s.taskNotifiers = 0) := by
  obtain ⟨s, hr, hpark, hready⟩ := system.exists_reachableIf_of_run Handshaken
    (waitSchedule ++ [.drain 0 false, .input 0 false])
    (fun s => (∃ x ∈ s.drains, x.pc = .parked) ∧ s.ready = true) (by decide +kernel)
  exact ⟨s, hr, hpark, hready, drain_handshake hr⟩

/-- **Both parts of the handshake can fail.**  In the first run the last release and its
    `NotifyAll` fall between a drain's check and its registration, and the drain parks in an
    empty environment that nobody will notify.  In the second a drain returns true between a
    last release and its `NotifyAll`. -/
theorem drain_handshake_broken :
    (∃ s, system.ReachableIf Serialised s ∧ (∃ x ∈ s.drains, x.pc = .parked) ∧
      s.ready = true ∧ s.inputNotifiers + s.taskNotifiers = 0) ∧
    ∃ s, system.ReachableIf Serialised s ∧ s.drained = true ∧ s.started = true ∧
      s.inputNotifiers = 1 := by
  constructor
  · exact system.exists_reachableIf_of_run Serialised
      (waitSchedule ++ [.input 0 false, .input 0 false, .drain 0 false]) _ (by decide +kernel)
  · exact system.exists_reachableIf_of_run Serialised
      (waitSchedule.take 10 ++ [.input 0 false, .drain 0 false, .drain 0 false]) _
      (by decide +kernel)

end ServiceLib.Environment
