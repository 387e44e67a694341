import ServiceLib.Service.Runs

namespace ServiceLib.Service

/-!
# Service lifecycle — the order of stops

For a lifecycle that reached the running state, over every sequence of calls:

* `stop_ordering` — executors stop after sources and components, sinks after both; no stop
  overlaps another of the same entry or follows one that succeeded; an entry that did not stop
  is kept and the next stop waits for it; the lifecycle is stopped when all its entries are.
-/

open List

variable {s : Lifecycle} {i : Nat}

/-- Where an operation was launched, everything that was started and stops in an earlier stage
    has stopped. -/
theorem Inv.stopped_of_earlier (h : Inv s) (hran : s.ran) {j : Nat} {x y : Component}
    (hx : s.components[j]? = some x) (hcalls : 0 < x.stopCalls) (hy : s.components[i]? = some y)
    (hstarted : y.started) (hrank : y.kind.stage.rank < x.kind.stage.rank) : y.stopped = 1 := by
  have hag := h.core.roster.agrees i y hy
  cases hat : startedAt s.entries i with
  | false =>
    rw [hat] at hag
    exact hag.stopped_of_not_started hstarted
  | true =>
    exfalso
    obtain ⟨e, he, hs⟩ := exists_of_startedAt hat
    have hmem := h.core.roster.launched j x hx (.inl hcalls)
    have hle := h.core.order hran j x hmem hx i e he hs
    obtain ⟨y', hy', hkind⟩ := h.core.roster.known i e he
    rw [hy] at hy'
    cases hy'
    rw [← hkind] at hle
    exact Nat.not_lt.mpr hle hrank

/-- An entry that was started and has not stopped is still registered as started. -/
theorem Inv.retained (h : Inv s) {x : Component} (hx : s.components[i]? = some x)
    (hstarted : x.started) (hstopped : x.stopped = 0) :
    ∃ e, s.entries[i]? = some e ∧ e.started := by
  have hag := h.core.roster.agrees i x hx
  cases hat : startedAt s.entries i with
  | true => exact exists_of_startedAt hat
  | false =>
    rw [hat] at hag
    have := hag.stopped_of_not_started hstarted
    omega

/-- A call in the second loop has an operation of the entry to wait for. -/
theorem Inv.awaited (h : Inv s) {c : Call} (hc : c ∈ s.calls) {p : Phase} {todo : List Nat}
    {failure : Option LifecycleError} (hpc : c.pc = .awaiting p (i :: todo) failure) {e : Entry}
    (he : s.entries[i]? = some e) (hs : e.started) :
    ∃ k pc, e.stopping = some k ∧ s.operations[k]? = some ⟨i, pc⟩ := by
  have ha : Awaiting s c.owed p (i :: todo) failure := by
    have hcall := h.calls c hc
    rwa [hpc] at hcall
  have hsome := ha.launched i mem_cons_self e he hs
  obtain ⟨k, hk⟩ := Option.ne_none_iff_exists'.mp hsome
  obtain ⟨x, -, -, hag⟩ := h.core.roster.agrees_entry he
  rw [hk] at hag
  generalize e.started = b at hag
  cases hag with
  | stopping _ pc hop _ _ _ => exact ⟨k, pc, hk, hop⟩

/-- **Stop ordering.**  In every run in which a start has completed. -/
theorem stop_ordering {s : Lifecycle} (h : system.Reachable s) (hran : s.ran = true) :
    -- Pools, delay pools and storages: after every source and component that was started.
    (∀ x ∈ s.components, 0 < x.stopCalls → x.kind ∈ Stage.executors.kinds →
      ∀ y ∈ s.components, y.started = true → y.kind ∈ Stage.admission.kinds → y.stopped = 1) ∧
    -- Sinks: after everything else that was started.
    (∀ x ∈ s.components, 0 < x.stopCalls → x.kind = .dataSink →
      ∀ y ∈ s.components, y.started = true → y.kind ≠ .dataSink → y.stopped = 1) ∧
    -- No two stops of an entry at once, and none after one that returned normally.
    (∀ x ∈ s.components, x.stopping + x.stopped ≤ 1) ∧
    -- An entry that has not stopped is kept, whatever happened to its stop,
    (∀ (i : Nat) (x : Component), s.components[i]? = some x → x.started = true →
      x.stopped = 0 → ∃ e, s.entries[i]? = some e ∧ e.started = true) ∧
    -- whoever comes to it in the second loop waits for an operation of it,
    (∀ c ∈ s.calls, ∀ p i todo failure e, c.pc = .awaiting p (i :: todo) failure →
      s.entries[i]? = some e → e.started = true →
      ∃ k pc, e.stopping = some k ∧ s.operations[k]? = some ⟨i, pc⟩) ∧
    -- and a call that has gone through its phases, or a `stop` through its first half, came to
    -- every entry whose stop had thrown or timed out before.
    (∀ c ∈ s.calls, (c.pc = .atGate .after ∨ c.pc = .returned ∨ ∃ i,
      c.pc = .threw (.stopExpired i) ∨ c.pc = .threw (.stopFailed i)) → c.owed = []) ∧
    (s.state = .stopped → ∀ x ∈ s.components, x.started = true → x.stopped = 1) := by
  have hinv := reachable_inv h
  refine ⟨fun x hx hcalls hkind y hy hs hkind' => ?_, fun x hx hcalls hkind y hy hs hkind' => ?_,
    fun x hx => ?_, fun i x hx => hinv.retained hx,
    fun c hc p i todo f e hpc => hinv.awaited hc hpc,
    fun c hc hend => ?_, fun hstopped x hx hs => ?_⟩
  · obtain ⟨j, hj⟩ := getElem?_of_mem hx
    obtain ⟨i, hi⟩ := getElem?_of_mem hy
    refine hinv.stopped_of_earlier hran hj hcalls hi hs ?_
    rw [Stage.mem_kinds.mp hkind, Stage.mem_kinds.mp hkind']
    decide
  · obtain ⟨j, hj⟩ := getElem?_of_mem hx
    obtain ⟨i, hi⟩ := getElem?_of_mem hy
    refine hinv.stopped_of_earlier hran hj hcalls hi hs ?_
    rw [hkind]
    generalize y.kind = kind at hkind'
    cases kind <;> first | decide | exact absurd rfl hkind'
  · obtain ⟨i, hi⟩ := getElem?_of_mem hx
    exact (hinv.core.roster.agrees i x hi).once
  · have hcall := hinv.calls c hc
    rcases hend with hpc | hpc | ⟨i, hpc | hpc⟩
    · rw [hpc] at hcall
      exact hcall
    · rw [hpc] at hcall
      exact hcall
    · rw [hpc] at hcall
      exact hcall rfl
    · rw [hpc] at hcall
      exact hcall rfl
  · obtain ⟨i, hi⟩ := getElem?_of_mem hx
    have hag := hinv.core.roster.agrees i x hi
    rw [hinv.core.stopped hstopped] at hag
    exact hag.stopped_of_not_started hs

/-- A source, a pool and a sink are started.  The first stop gives up on the source; the second
    waits for the same operation and then stops the pool and the sink. -/
def retriedStop : List Action :=
  [ [.add .dataSource (some 0), .add .taskPool (some 1), .add .dataSink (some 2)],
    .call .start :: replicate 5 (.run 0 .ok),
    [.call .stop, .run 1 .ok, .run 1 .ok, .run 1 .ok, .operation 0 false],
    [.run 1 .expires, .run 1 .ok, .operation 0 false, .operation 0 false],
    .call .stop :: replicate 7 (.run 2 .ok),
    replicate 3 (.operation 1 false) ++ replicate 5 (.run 2 .ok),
    replicate 3 (.operation 2 false) ++ replicate 2 (.run 2 .ok) ].flatten

/-- After that run everything has stopped, the source in one call of its `stop`. -/
theorem stop_ordering_retried : ∃ s, system.Reachable s ∧ s.ran = true ∧
    s.components.map (fun x => (x.stopCalls, x.unsettled)) = [(1, true), (1, false), (1, false)] ∧
    ∀ x ∈ s.components, x.started = true → x.stopped = 1 := by
  obtain ⟨s, hreach, hran, hstopped, hcalls⟩ := system.exists_reachable_of_run retriedStop
    (fun s => s.ran ∧ s.state = .stopped ∧
      s.components.map (fun x => (x.stopCalls, x.unsettled)) =
        [(1, true), (1, false), (1, false)])
    (by decide +kernel)
  exact ⟨s, hreach, hran, hcalls, (stop_ordering hreach hran).2.2.2.2.2.2 hstopped⟩

end ServiceLib.Service
