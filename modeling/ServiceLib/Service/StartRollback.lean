import ServiceLib.Service.RollbackRuns

namespace ServiceLib.Service

/-!
# Service lifecycle — a failed start is rolled back

`start_rollback`: what was begun is stopped in reverse order, once, and the start rethrows what made
it fail.
-/

open List Option Lifecycle

variable {s : Lifecycle} {η : StartHistory} {t : Nat} {c : Call}

/-! ### Retries -/

/-- Entry `j` was seen to stop, or its operation says that it has stopped. -/
def Settled (s : Lifecycle) (j : Nat) : Prop :=
  startedAt s.entries j = false ∨
    ∃ k, stoppingAt s.entries j = some k ∧ s.operations[k]? = some ⟨j, .done false⟩

/-- Call `t` gets from `s` to `s'` by itself, and no `stop` is called on the way. -/
structure Passes (t : Nat) (s s' : Lifecycle) : Prop where
  run : ∃ n, system.runFrom s (replicate n (.run t .ok)) = some s'
  operations : s'.operations = s.operations
  components : s'.components = s.components

namespace Passes

variable {u v : Lifecycle}

theorem refl (t : Nat) (s : Lifecycle) : Passes t s s := ⟨⟨0, rfl⟩, rfl, rfl⟩

theorem step (hs : s.callStep t .ok = some u) (hops : u.operations = s.operations)
    (hcomponents : u.components = s.components) (h : Passes t u v) : Passes t s v := by
  obtain ⟨n, hrun⟩ := h.run
  exact ⟨⟨n + 1, bind_eq_some_iff.mpr ⟨u, hs, hrun⟩⟩, h.operations.trans hops,
    h.components.trans hcomponents⟩

theorem trans (h : Passes t s u) (h' : Passes t u v) : Passes t s v := by
  obtain ⟨n, hrun⟩ := h.run
  obtain ⟨m, hrun'⟩ := h'.run
  refine ⟨⟨n + m, ?_⟩, h'.operations.trans h.operations, h'.components.trans h.components⟩
  rw [replicate_add, System.runFrom_append, hrun]
  exact hrun'

end Passes

variable {p : Phase} {j : Nat}

theorem callStep_launching {entries todo : List Nat} (ht : s.calls[t]? = some c)
    (hpc : c.pc = .launching p entries todo) :
    s.callStep t .ok = s.launchStep t c p entries todo true := by
  simp only [callStep, ht, hpc]
  rfl

theorem callStep_awaiting {todo : List Nat} {failure : Option LifecycleError}
    (ht : s.calls[t]? = some c) (hpc : c.pc = .awaiting p todo failure) :
    s.callStep t .ok = s.awaitStep t c p todo failure .ok := by
  simp only [callStep, ht, hpc]

theorem getElem?_setCall (hlt : t < s.calls.length) (c : Call) (pc : CallPc) :
    (s.setCall t c pc).calls[t]? = some { c with pc := pc } :=
  getElem?_set_self hlt

/-- Call `t` gets to the end of `stopPhase`, and what has stopped stays so. -/
def PassesPhase (t : Nat) (p : Phase) (s : Lifecycle) : Prop :=
  ∃ u d, Passes t s u ∧ u.calls[t]? = some d ∧ d.pc = .awaiting p [] none ∧
    u.entries.length = s.entries.length ∧ ∀ k, Settled s k → Settled u k

/-- The second loop of `stopPhase` passes over an entry that has stopped. -/
theorem passes_awaiting (ht : s.calls[t]? = some c) (hpc : c.pc = .awaiting p [j] none)
    (hj : Settled s j) (hlt : j < s.entries.length) : PassesPhase t p s := by
  obtain ⟨e, he⟩ : ∃ e, s.entries[j]? = some e := ⟨_, getElem?_eq_getElem hlt⟩
  have hlen := lt_of_getElem? ht
  have hstep := callStep_awaiting ht hpc
  simp only [awaitStep, he] at hstep
  cases hstarted : e.started with
  | false =>
    rw [if_pos hstarted] at hstep
    exact ⟨_, _, .step hstep rfl rfl (.refl _ _), getElem?_setCall hlen _ _, rfl, rfl,
      fun _ hk => hk⟩
  | true =>
    rcases hj with hj | ⟨k, hk, hop⟩
    · simp [startedAt_eq he, hstarted] at hj
    · rw [stoppingAt_eq he] at hk
      rw [if_neg (by rw [hstarted]; decide)] at hstep
      simp only [hk, bind_some, hop] at hstep
      refine ⟨_, _, .step hstep rfl rfl (.refl _ _), getElem?_setCall hlen _ _, rfl,
        length_modify _ _ _, fun i hi => ?_⟩
      by_cases hij : j = i
      · subst hij
        left
        change startedAt (s.entries.modify j _) j = false
        rw [startedAt_eq (modify_self he)]
        exact Bool.and_false _
      · unfold Settled
        change startedAt (s.entries.modify j _) i = false ∨
          ∃ k, stoppingAt (s.entries.modify j _) i = some k ∧ _
        rw [startedAt_modify_ne hij, stoppingAt_modify_ne hij]
        exact hi

/-- A `stopPhase` of one entry that has stopped. -/
theorem passes_entry (ht : s.calls[t]? = some c) (hpc : c.pc = .launching p [j] [j])
    (hj : Settled s j) (hlt : j < s.entries.length) : PassesPhase t p s := by
  obtain ⟨e, he⟩ : ∃ e, s.entries[j]? = some e := ⟨_, getElem?_eq_getElem hlt⟩
  have hlen := lt_of_getElem? ht
  have hskip : e.started = false ∨ e.stopping.isSome := by
    rcases hj with hj | ⟨k, hk, -⟩
    · exact .inl ((startedAt_eq he).symm.trans hj)
    · rw [stoppingAt_eq he] at hk
      exact .inr (by rw [hk]; rfl)
  have hstep := callStep_launching ht hpc
  simp only [launchStep, he] at hstep
  rw [if_pos hskip] at hstep
  have ht' := getElem?_setCall hlen c (.launching p [j] [])
  have hstep' := callStep_launching ht' rfl
  simp only [launchStep] at hstep'
  have hlen' := lt_of_getElem? ht'
  obtain ⟨u, d, hpass, hrest⟩ := passes_awaiting (getElem?_setCall hlen' _ _) rfl (j := j) hj hlt
  exact ⟨u, d, .step hstep rfl rfl (.step hstep' rfl rfl hpass), hrest⟩

/-- A rollback begins with the calls only. -/
theorem rollbackFrom_keeps (s : Lifecycle) (t : Nat) (c : Call) (todo : List Nat) :
    (s.rollbackFrom t c todo).operations = s.operations ∧
      (s.rollbackFrom t c todo).components = s.components := by
  cases todo with
  | nil =>
    unfold rollbackFrom
    simp only
    split <;> exact ⟨rfl, rfl⟩
  | cons => exact ⟨rfl, rfl⟩

/-- **A rollback resumes where it has to.**  It passes over the entries that have stopped. -/
theorem rollbackFrom_resumes {skipped : List Nat} (i : Nat) (rest : List Nat)
    (ht : s.calls[t]? = some c) (hskip : ∀ j ∈ skipped, j < s.entries.length ∧ Settled s j) :
    ∃ u, Passes t (s.rollbackFrom t c (skipped ++ i :: rest)) u ∧
      u.calls[t]?.map Call.pc = some (.launching (.rollback rest) [i] [i]) := by
  have hlen := lt_of_getElem? ht
  induction skipped generalizing s c with
  | nil =>
    refine ⟨_, .refl _ _, ?_⟩
    change (s.setCall t c _).calls[t]?.map _ = _
    rw [getElem?_setCall hlen]
    rfl
  | cons j skipped ih =>
    obtain ⟨hlt, hj⟩ := hskip j mem_cons_self
    obtain ⟨u, d, hpass, hd, hpc, hsize, hsettled⟩ := passes_entry
      (getElem?_setCall hlen c (.launching (.rollback (skipped ++ i :: rest)) [j] [j])) rfl hj hlt
    have hstep := callStep_awaiting hd hpc
    obtain ⟨v, hpass', hv⟩ := ih (s := u) (c := d) hd (fun k hk => by
      obtain ⟨hk, hks⟩ := hskip k (mem_cons_of_mem _ hk)
      exact ⟨Nat.lt_of_lt_of_eq hk hsize.symm, hsettled k hks⟩) (lt_of_getElem? hd)
    have hkeep := rollbackFrom_keeps u t d (skipped ++ i :: rest)
    exact ⟨v, hpass.trans (.step hstep hkeep.1 hkeep.2 hpass'), hv⟩

/-! ### What it comes to -/

/-- Component `j` was begun and has not been seen to run since its entry was seen to stop. -/
theorem Rolled.stopped_of_unmarked (h : Rolled s η) (hi : Inv s) (hj : j ∈ η.begun)
    (hunmarked : startedAt s.entries j = false) :
    ∃ y, s.components[j]? = some y ∧ y.stopped = 1 := by
  obtain ⟨y, hy, hstarted⟩ := (any_eq_true _ _).mp ((h.core.began j).mpr hj)
  have hag := hi.core.roster.agrees j y hy
  rw [hunmarked] at hag
  exact ⟨y, hy, hag.stopped_of_not_started hstarted⟩

/-- While a rollback is pending, what was begun has an entry. -/
theorem Rolled.lt_of_begun (h : Rolled s η) (hj : j ∈ η.begun) (hstate : s.state ≠ .stopped) :
    j < s.entries.length := by
  obtain ⟨y, hy, -⟩ := (any_eq_true _ _).mp ((h.core.began j).mpr hj)
  exact Nat.lt_of_lt_of_eq (lt_of_getElem? hy) (h.core.size hstate)

/-- An operation that has not called `stop` yet: nobody is in it, and none has succeeded. -/
theorem Inv.idle_of_spawned (hi : Inv s) {i : Nat} (hop : ⟨i, .spawned⟩ ∈ s.operations) :
    ∃ x, s.components[i]? = some x ∧ x.stopping = 0 ∧ x.stopped = 0 := by
  obtain ⟨k, hk⟩ := getElem?_of_mem hop
  have hlive : stoppingAt s.entries i = some k := hi.core.roster.live k _ hk rfl
  obtain ⟨e, he, hstopping⟩ := bind_eq_some_iff.mp hlive
  obtain ⟨x, hx, -, hag⟩ := hi.core.roster.agrees_entry he
  rw [hstopping] at hag
  generalize e.started = b at hag
  cases hag with
  | stopping _ pc hk' _ hactive hsucceeded =>
    rw [hk] at hk'
    cases hk'
    exact ⟨x, hx, hactive, hsucceeded⟩

/-- A call that gets the gate while a rollback is pending. -/
theorem callStep_retry (ht : s.calls[t]? = some c) (hpc : c.pc = .atGate .before)
    (hfree : s.busy = false) (hstate : s.state = .stopping) (hpending : s.rollbackPending) :
    s.callStep t .ok = some ({ s with busy := true }.rollbackFrom t c s.started.reverse) := by
  simp only [callStep, ht, hpc, hfree]
  simp only [enter, hstate, hpending]
  rfl

/-- **A failed start is rolled back.**  `begun` lists the entries in the order in which their
    start was begun, the last of which threw in call `t`. -/
theorem start_rollback {s : Lifecycle} {η : StartHistory}
    (hreach : startingSystem.Reachable (s, η)) {t : Nat} (hfailed : η.failed = some t) :
    -- Only what was begun is stopped; once the lifecycle has stopped, all of it is.
    (∀ (i : Nat) (x : Component), s.components[i]? = some x →
      (0 < x.stopCalls → i ∈ η.begun) ∧ (s.state = .stopped → (i ∈ η.begun ↔ x.stopped = 1))) ∧
    -- A stop is on its way or was called only if everything that was begun later has stopped,
    (∀ op ∈ s.operations, ∃ earlier later, η.begun = earlier ++ op.entry :: later ∧
      ∀ j ∈ later, ∃ y, s.components[j]? = some y ∧ y.stopped = 1) ∧
    -- and no stop is called of an entry that is stopping or has stopped.
    (∀ i, ⟨i, .spawned⟩ ∈ s.operations →
      ∃ x, s.components[i]? = some x ∧ x.stopping = 0 ∧ x.stopped = 0) ∧
    (∀ x ∈ s.components, x.stopping + x.stopped ≤ 1) ∧
    -- A retry that gets the gate passes over what has stopped and comes to the entry before.
    (∀ (u : Nat) (c : Call), s.calls[u]? = some c → c.pc = .atGate .before → s.busy = false →
      s.state = .stopping → ∀ earlier i later, η.begun = earlier ++ i :: later →
      (∀ j ∈ later, Settled s j) → ∃ s', Passes u s s' ∧
        s'.calls[u]?.map Call.pc = some (.launching (.rollback earlier.reverse) [i] [i])) ∧
    -- The call that failed is rolling back, or has rethrown what the start threw.
    (∃ c, s.calls[t]? = some c ∧ (c.pc = .threw .startFailed ∨
      (∃ rest entries todo, c.pc = .launching (.rollback rest) entries todo) ∨
      ∃ rest todo failure, c.pc = .awaiting (.rollback rest) todo failure)) := by
  have hroll : Rolled s η := rolled_of_reachable hreach
  have hi : Inv s := reachable_inv (reachable_of_starting hreach)
  obtain ⟨hend, c, hc, hstarts, hback⟩ := hroll.failed t hfailed
  refine ⟨fun i x hx => ⟨fun hcalls => ?_, fun hstopped => ?_⟩, fun op hop => ?_, fun i hop => ?_,
    fun x hx => ?_, fun u d hd hpc hfree hstate earlier i later hsplit hlater => ?_,
    c, hc, ?_⟩
  · have hops := hi.core.roster.launched i x hx (.inl hcalls)
    obtain ⟨earlier, later, hsplit, -⟩ := hroll.core.order hend.ran i hops
    rw [hsplit]
    exact mem_append_right _ mem_cons_self
  · have hunmarked : startedAt s.entries i = false := by
      rw [hi.core.stopped hstopped]
      rfl
    have hag := hi.core.roster.agrees i x hx
    rw [hunmarked] at hag
    rw [← hroll.core.began i, hag.stopped_iff_started]
    unfold beganAt
    rw [hx]
    rfl
  · obtain ⟨earlier, later, hsplit, hlater⟩ :=
      hroll.core.order hend.ran op.entry (mem_map.mpr ⟨op, hop, rfl⟩)
    refine ⟨earlier, later, hsplit, fun j hj => hroll.stopped_of_unmarked hi ?_ (hlater j hj)⟩
    rw [hsplit]
    exact mem_append_right _ (mem_cons_of_mem _ hj)
  · exact hi.idle_of_spawned hop
  · obtain ⟨i, hi'⟩ := getElem?_of_mem hx
    exact (hi.core.roster.agrees i x hi').once
  · have hpending : s.rollbackPending = true := by
      rw [← Bool.not_eq_false', ← hi.core.mode (.inr hstate)]
      exact hend.ran
    have hrecord := hroll.core.record hend.ran (by rw [hstate]; decide)
    have hstep : s.callStep u .ok = some ({ s with busy := true }.rollbackFrom u d
        (later.reverse ++ i :: earlier.reverse)) := by
      rw [callStep_retry hd hpc hfree hstate hpending, hrecord, hsplit, reverse_append,
        reverse_cons, append_assoc]
      rfl
    have hskip : ∀ j ∈ later.reverse, j < s.entries.length ∧ Settled s j := by
      intro j hj
      have hj := mem_reverse.mp hj
      refine ⟨hroll.lt_of_begun ?_ (by rw [hstate]; decide), hlater j hj⟩
      rw [hsplit]
      exact mem_append_right _ (mem_cons_of_mem _ hj)
    obtain ⟨s', hpass, hs'⟩ := rollbackFrom_resumes (s := { s with busy := true }) i
      earlier.reverse hd hskip
    have hkeep := rollbackFrom_keeps { s with busy := true } u d
      (later.reverse ++ i :: earlier.reverse)
    exact ⟨s', .step hstep hkeep.1 hkeep.2 hpass, hs'⟩
  · cases hpc : c.pc with
    | launching p entries todo =>
      rw [hpc] at hback
      cases p with
      | stage => cases hback
      | rollback rest => exact .inr (.inl ⟨rest, entries, todo, rfl⟩)
    | awaiting p todo failure =>
      rw [hpc] at hback
      cases p with
      | stage => cases hback
      | rollback rest => exact .inr (.inr ⟨rest, todo, failure, rfl⟩)
    | threw e =>
      rw [hpc] at hback
      exact .inl (congrArg CallPc.threw (of_decide_eq_true hback))
    | _ =>
      rw [hpc] at hback
      cases hback

/-- A sink and a source are started over a pool; the start of the sink throws.  Its stop is given
    up by the start, and the stop of the pool fails in the first retry. -/
def failedStart : List Action :=
  [ [.add .dataSink (some 0), .add .taskPool (some 1), .add .dataSource (some 2)],
    [.call .start, .run 0 .ok, .run 0 .ok, .run 0 .throws],
    -- The sink, entry 0.
    [.run 0 .ok, .run 0 .ok, .run 0 .expires, .run 0 .ok],
    replicate 3 (.operation 0 false),
    -- The pool, entry 1.
    .call .stop :: replicate 7 (.run 1 .ok),
    replicate 3 (.operation 1 true) ++ [.run 1 .ok, .run 1 .ok],
    .call .stop :: replicate 7 (.run 2 .ok),
    replicate 3 (.operation 2 false) ++ replicate 3 (.run 2 .ok) ].flatten

/-- After that run both have stopped, the sink in one call of its `stop` and the pool in two. -/
theorem start_rollback_retried : ∃ s η, startingSystem.Reachable (s, η) ∧ η.failed = some 0 ∧
    η.begun = [1, 0] ∧ s.components.map (·.stopCalls) = [1, 2, 0] ∧
    ∀ (i : Nat) (x : Component), s.components[i]? = some x → (i ∈ [1, 0] ↔ x.stopped = 1) := by
  obtain ⟨⟨s, η⟩, hreach, hfailed, hbegun, hstopped, hcalls⟩ :=
    startingSystem.exists_reachable_of_run failedStart
    (fun p => p.2.failed = some 0 ∧ p.2.begun = [1, 0] ∧ p.1.state = .stopped ∧
      p.1.components.map (·.stopCalls) = [1, 2, 0])
    (by decide +kernel)
  refine ⟨s, η, hreach, hfailed, hbegun, hcalls, fun i x hx => ?_⟩
  have hstop := ((start_rollback hreach hfailed).1 i x hx).2 hstopped
  rwa [hbegun] at hstop

end ServiceLib.Service
