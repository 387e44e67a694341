import ServiceLib.Lib.ThreadList
import ServiceLib.Lib.Transition

namespace ServiceLib.KafkaSink

/-!
# The Kafka sink — messages that outlive stop

`Endpoint` of `datasink/kafka/userver.hpp`: `consume` looks at `enabled_` once, at its beginning,
and a handler sends later, through the `SinkMessage` it was given.  `stop` clears the flag and
waits for the delivery tasks there are.

* One life of the endpoint: `start` is not called after `stop`.
* A message can be copied, so a call keeps it until the handler has dropped the last copy.
* `WaitAndDisposeSlow` returns at a moment when every task of the storage has finished.
* `sink_stop_final` — nothing is delivered after `stop` if no message is left when that wait ends;
  `sink_sends_after_stop` — one that is left is still sent.
-/

/-- A call of `consume` that found the endpoint enabled. -/
inductive ConsumePc
  | beginning | holding | done
  deriving DecidableEq, Repr

inductive StopPc
  | idle | waiting | returned
  deriving DecidableEq, Repr

/-- A delivery task; `late` when `stop` had returned before it was spawned. -/
structure Task where
  late : Bool
  finished : Bool := false
  deriving DecidableEq, Repr

structure State where
  enabled : Bool := false
  stop : StopPc := .idle
  consumes : List ConsumePc := []
  tasks : List Task := []
  deriving DecidableEq, Repr

inductive Action
  /-- `start`, with the `enabled` of the endpoint's configuration. -/
  | start (enabled : Bool)
  | consume
  /-- `getStreamId`, `beginRequest` and the headers, up to the message. -/
  | begin (i : Nat) (fails : Bool)
  /-- `SinkMessage::send`; spawning the task may fail. -/
  | send (i : Nat) (fails : Bool)
  | drop (i : Nat)
  | deliver (t : Nat)
  | callStop
  | waitEnds
  deriving DecidableEq, Repr

def step (s : State) : Action → Option State
  | .start enabled => if s.stop = .idle then some { s with enabled } else none
  | .consume => some (if s.enabled then { s with consumes := s.consumes ++ [.beginning] } else s)
  | .begin i fails =>
    if s.consumes[i]? = some .beginning then
      some { s with consumes := s.consumes.set i (if fails then .done else .holding) }
    else none
  | .send i fails =>
    if s.consumes[i]? = some .holding then
      some (if fails then s else { s with tasks := s.tasks ++ [⟨s.stop = .returned, false⟩] })
    else none
  | .drop i =>
    if s.consumes[i]? = some .holding then some { s with consumes := s.consumes.set i .done }
    else none
  | .deliver t =>
    (s.tasks[t]?).map (fun task => { s with tasks := s.tasks.set t { task with finished := true } })
  | .callStop =>
    if s.stop = .idle then some { s with enabled := false, stop := .waiting } else none
  | .waitEnds =>
    if s.stop = .waiting ∧ ∀ task ∈ s.tasks, task.finished = true then
      some { s with stop := .returned }
    else none

def sinkSystem : System State Action := ⟨{}, step⟩

/-- `stop` is final: nothing was spawned after it returned, and what was spawned has finished. -/
def State.Final (s : State) : Prop :=
  ∀ task ∈ s.tasks, task.late = false ∧ (s.stop = .returned → task.finished)

/-- The wait of `stop` ends only when no call has a message, or is about to get one. -/
def dropsFirst (s : State) (a : Action) : Prop :=
  a = .waitEnds → ∀ pc ∈ s.consumes, pc = .done

instance (s : State) (a : Action) : Decidable (dropsFirst s a) :=
  inferInstanceAs (Decidable (_ → _))

structure Inv (s : State) : Prop where
  closed : s.stop ≠ .idle → s.enabled = false
  dropped : s.stop = .returned → ∀ pc ∈ s.consumes, pc = .done
  final : s.Final

variable {s s' : State} {a : Action}

/-- A call that has not dropped its message shows that `stop` has not returned. -/
theorem Inv.not_returned (h : Inv s) {i : Nat} {pc : ConsumePc} (hi : s.consumes[i]? = some pc)
    (hpc : pc ≠ .done) : s.stop ≠ .returned :=
  fun hret => hpc (h.dropped hret pc (List.mem_of_getElem? hi))

/-- Every step in which no message outlives the wait. -/
theorem Inv.step (h : Inv s) (hok : dropsFirst s a) (hs : step s a = some s') : Inv s' := by
  cases a <;> simp only [KafkaSink.step] at hs
  case start enabled =>
    split at hs <;> cases hs
    exact { h with closed := fun hne => absurd ‹_› hne }
  case consume =>
    split at hs <;> cases hs
    · -- An enabled endpoint is not being stopped.
      have hidle : s.stop = .idle := by_contra fun hne => by simp [h.closed hne] at *
      exact { h with dropped := by simp [hidle] }
    · exact h
  case begin i fails | drop i =>
    split at hs <;> cases hs
    exact { h with dropped := fun hret => absurd hret (h.not_returned ‹_› (by simp)) }
  case send i fails =>
    split at hs <;> cases hs
    split
    · exact h
    · have hret := h.not_returned ‹_› (by simp)
      refine { h with final := ?_ }
      simpa [State.Final, or_imp, forall_and, hret] using h.final
  case deliver t =>
    obtain ⟨task, ht, rfl⟩ := Option.map_eq_some_iff.mp hs
    have hold := h.final task (List.mem_of_getElem? ht)
    exact { h with final := forall_mem_set h.final ⟨hold.1, fun _ => rfl⟩ }
  case callStop =>
    split at hs <;> cases hs
    exact ⟨fun _ => rfl, nofun, fun task ht => ⟨(h.final task ht).1, nofun⟩⟩
  case waitEnds =>
    split at hs <;> cases hs
    next hwait =>
    exact ⟨fun _ => h.closed (by simp [hwait.1]), fun _ => hok rfl,
      fun task ht => ⟨(h.final task ht).1, fun _ => hwait.2 task ht⟩⟩

/-- **Stop is final** in every run in which it waits long enough for the messages too. -/
theorem sink_stop_final (s : State) (h : sinkSystem.ReachableIf dropsFirst s) : s.Final := by
  refine Inv.final (h.invariant ?_ (fun _ hi hok hs => hi.step hok hs))
  exact ⟨fun _ => rfl, nofun, nofun⟩

theorem sink_stop_final_delivered :
    ∃ s, sinkSystem.ReachableIf dropsFirst s ∧ s.stop = .returned ∧ s.tasks = [⟨false, true⟩] ∧
      s.Final := by
  obtain ⟨s, hs, hstop, htasks⟩ := sinkSystem.exists_reachableIf_of_run dropsFirst
    [.start true, .consume, .callStop, .begin 0 false, .send 0 false, .drop 0, .deliver 0,
      .waitEnds]
    (fun s => s.stop = .returned ∧ s.tasks = [⟨false, true⟩]) (by decide +kernel)
  exact ⟨s, hs, hstop, htasks, sink_stop_final s hs⟩

/-- A call that passed the check sends after `stop` has returned, and the task is still running. -/
theorem sink_sends_after_stop :
    ∃ s, sinkSystem.Reachable s ∧ s.stop = .returned ∧ s.tasks = [⟨true, false⟩] ∧ ¬ s.Final := by
  obtain ⟨s, hs, hstop, htasks⟩ := sinkSystem.exists_reachable_of_run
    [.start true, .consume, .begin 0 false, .callStop, .waitEnds, .send 0 false]
    (fun s => s.stop = .returned ∧ s.tasks = [⟨true, false⟩]) (by decide +kernel)
  refine ⟨s, hs, hstop, htasks, fun hfinal => ?_⟩
  simpa using (hfinal ⟨true, false⟩ (by simp [htasks])).1

end ServiceLib.KafkaSink
