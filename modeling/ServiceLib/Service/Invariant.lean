import Mathlib.Data.List.Nodup
import ServiceLib.Service.Roster

namespace ServiceLib.Service

/-!
# Service lifecycle — the invariant of starts and stops

What holds between steps, whoever is inside the gate, and what the one call inside it knows in the
two loops of `stopPhase`: the started entries that are not in its list are stopped later.
-/

open List

/-! ### Stages -/

/-- The stage that stops a kind. -/
def Kind.stage : Kind → Stage
  | .dataSource | .component => .admission
  | .priorityTaskPool | .taskPool | .delayPool | .storage => .executors
  | .dataSink => .sinks

/-- The order of the stages. -/
def Stage.rank : Stage → Nat
  | .admission => 0
  | .executors => 1
  | .sinks => 2

variable {g : Stage} {i : Nat} {kind : Kind}

theorem Stage.mem_kinds : kind ∈ g.kinds ↔ kind.stage = g := by
  cases g <;> cases kind <;> decide

theorem Stage.rank_inj {g' : Stage} (h : g.rank = g'.rank) : g = g' := by
  cases g <;> cases g' <;> first | rfl | cases h

theorem Stage.rank_le (g : Stage) : g.rank ≤ 2 := by
  cases g <;> decide

theorem Stage.nodup_kinds (g : Stage) : g.kinds.Nodup := by
  cases g <;> decide

namespace Lifecycle

variable {s : Lifecycle}

theorem mem_ofKind :
    i ∈ s.ofKind kind ↔ ∃ e, s.entries[i]? = some e ∧ e.kind = kind := by
  unfold ofKind
  rw [mem_filter, mem_range, Option.any_eq_true]
  constructor
  · rintro ⟨-, e, he, hkind⟩
    exact ⟨e, he, beq_iff_eq.mp hkind⟩
  · rintro ⟨e, he, hkind⟩
    exact ⟨(lt_of_getElem? he), e, he, beq_iff_eq.mpr hkind⟩

theorem mem_stageEntries :
    i ∈ s.stageEntries g ↔ ∃ e, s.entries[i]? = some e ∧ e.kind.stage = g := by
  unfold stageEntries
  rw [mem_flatMap]
  constructor
  · rintro ⟨kind, hkind, hi⟩
    obtain ⟨e, he, rfl⟩ := mem_ofKind.mp (mem_reverse.mp hi)
    exact ⟨e, he, Stage.mem_kinds.mp hkind⟩
  · rintro ⟨e, he, hg⟩
    exact ⟨e.kind, Stage.mem_kinds.mpr hg, mem_reverse.mpr (mem_ofKind.mpr ⟨e, he, rfl⟩)⟩

theorem nodup_stageEntries (s : Lifecycle) (g : Stage) : (s.stageEntries g).Nodup := by
  refine nodup_flatMap.mpr ⟨fun kind _ => ?_, g.nodup_kinds.imp (fun hne i hi hi' => ?_)⟩
  · exact nodup_reverse.mpr (nodup_range.filter _)
  · -- One entry has one kind.
    obtain ⟨e, he, hk⟩ := mem_ofKind.mp (mem_reverse.mp hi)
    obtain ⟨e', he', hk'⟩ := mem_ofKind.mp (mem_reverse.mp hi')
    rw [he] at he'
    cases he'
    exact hne (hk.symm.trans hk')

/-- What an entry of `owing` looks like. -/
theorem mem_owing {stages : List Stage} (h : i ∈ s.owing stages) :
    ∃ e x, s.entries[i]? = some e ∧ s.components[i]? = some x ∧ e.started ∧
      x.unsettled ∧ e.kind.stage ∈ stages := by
  unfold owing at h
  rw [mem_filter, mem_flatMap, Bool.and_eq_true, Option.any_eq_true, Option.any_eq_true] at h
  obtain ⟨⟨g, hg, hi⟩, ⟨e, he, hstarted⟩, x, hx, hunsettled⟩ := h
  obtain ⟨e', he', rfl⟩ := mem_stageEntries.mp hi
  rw [he] at he'
  cases he'
  exact ⟨e, x, he, hx, hstarted, hunsettled, hg⟩

end Lifecycle

/-! ### Between steps -/

/-- What does not depend on the calls in progress. -/
structure Core (s : Lifecycle) : Prop where
  roster : RosterInv s.entries s.operations s.components
  /-- Until a start has completed or failed, nothing was stopped. -/
  fresh : s.state = .created ∨ s.state = .starting → s.operations = [] ∧
    s.entries.length = s.components.length ∧
    (∀ (i : Nat) (x : Component), s.components[i]? = some x →
      x.started = startedAt s.entries i) ∧
    s.ran = false ∧ s.rollbackPending = false ∧ s.beforeGraphDrained = false
  created : s.state = .created → ∀ i, startedAt s.entries i = false
  running : s.state = .running → s.rollbackPending = false
  /-- A started lifecycle stops in stages, a start that failed is rolled back. -/
  mode : s.state = .running ∨ s.state = .stopping → s.ran = !s.rollbackPending
  stopped : s.state = .stopped → s.entries = []
  recorded : ∀ i, startedAt s.entries i → i ∈ s.started
  drained : s.beforeGraphDrained → s.rollbackPending = false ∧
    ∀ (i : Nat) (e : Entry), s.entries[i]? = some e → e.started → e.kind.stage = .sinks
  /-- While an entry is started, nothing of a later stage has an operation. -/
  order : s.ran → ∀ (j : Nat) (x : Component), j ∈ s.operations.map (·.entry) →
    s.components[j]? = some x →
    ∀ (i : Nat) (e : Entry), s.entries[i]? = some e → e.started →
      x.kind.stage.rank ≤ e.kind.stage.rank

/-! ### Inside `stopPhase` -/

namespace Phase

/-- Whether an entry is stopped in a later phase of the same call or of a later one. -/
def later : Phase → Nat → Kind → Prop
  | .stage g, _, kind => g.rank < kind.stage.rank
  | .rollback rest, i, _ => i ∈ rest

/-- Whether a phase may list an entry of this kind. -/
def lists : Phase → Kind → Prop
  | .stage g, kind => kind.stage = g
  | .rollback _, _ => True

/-- Whether the part of the call that the phase is in stops an entry of this kind. -/
def reaches : Phase → Kind → Prop
  | .stage .sinks, _ => True
  | .stage _, kind => kind.stage.rank ≤ 1
  | .rollback _, _ => False

def isRollback : Phase → Bool
  | .rollback _ => true
  | .stage _ => false

end Phase

/-- An entry the call still has to wait for, in the list `todo` or in a later phase. -/
def Owed (s : Lifecycle) (p : Phase) (todo : List Nat) (i : Nat) : Prop :=
  ∃ e, s.entries[i]? = some e ∧ e.started ∧ (i ∈ todo ∨ p.later i e.kind) ∧
    p.reaches e.kind ∧ i ∈ s.operations.map (·.entry)

/-- In the first loop, over `entries`, before the rounds of `todo`. -/
structure Launching (s : Lifecycle) (owed : List Nat) (p : Phase) (entries todo : List Nat) :
    Prop where
  state : s.state = .stopping
  pending : s.rollbackPending = p.isRollback
  cover : ∀ (i : Nat) (e : Entry), s.entries[i]? = some e → e.started →
    i ∈ entries ∨ p.later i e.kind
  lists : ∀ i ∈ entries, ∀ e, s.entries[i]? = some e → p.lists e.kind
  nodup : entries.Nodup
  rounds : ∀ i ∈ todo, i ∈ entries
  launched : ∀ i ∈ entries, i ∉ todo → ∀ e, s.entries[i]? = some e → e.started →
    e.stopping ≠ none
  owes : ∀ i ∈ owed, Owed s p entries i

/-- In the second loop, before the rounds of `todo`. -/
structure Awaiting (s : Lifecycle) (owed : List Nat) (p : Phase) (todo : List Nat)
    (failure : Option LifecycleError) : Prop where
  state : s.state = .stopping
  pending : s.rollbackPending = p.isRollback
  cover : failure = none → ∀ (i : Nat) (e : Entry), s.entries[i]? = some e → e.started →
    i ∈ todo ∨ p.later i e.kind
  lists : ∀ i ∈ todo, ∀ e, s.entries[i]? = some e → p.lists e.kind
  nodup : todo.Nodup
  launched : ∀ i ∈ todo, ∀ e, s.entries[i]? = some e → e.started → e.stopping ≠ none
  owes : ∀ i ∈ owed, Owed s p todo i
  /-- Once an entry has failed, the call ends with this phase, so nothing is left for later. -/
  failing : failure ≠ none → ∀ i ∈ owed, i ∈ todo

/-- Whether a call that ends with `e` went through its phases. -/
def LifecycleError.ofStop : LifecycleError → Bool
  | .stopExpired _ | .stopFailed _ => true
  | _ => false

/-- Whether a call is between `acquire` and the end of its lease. -/
def CallPc.inside : CallPc → Bool
  | .starting _ | .launching _ _ _ | .awaiting _ _ _ => true
  | _ => false

/-- What a call knows where it stands. -/
def CallInv (s : Lifecycle) (owed : List Nat) : CallPc → Prop
  | .atGate _ | .returned => owed = []
  | .threw e => e.ofStop → owed = []
  | .starting _ => owed = [] ∧ s.state = .starting
  | .launching p entries todo => Launching s owed p entries todo
  | .awaiting p todo failure => Awaiting s owed p todo failure

/-- The invariant of a lifecycle. -/
structure Inv (s : Lifecycle) : Prop where
  core : Core s
  gate : s.calls.countP (·.pc.inside) = s.busy.toNat
  calls : ∀ c ∈ s.calls, CallInv s c.owed c.pc

/-! ### Who is inside -/

section Inside

variable {s s' : Lifecycle} {t : Nat} {c c' : Call} {pc : CallPc}

/-- What the invariant says of a call at `pc`. -/
theorem Inv.atPc (h : Inv s) (ht : s.calls[t]? = some c) (hpc : c.pc = pc) :
    CallInv s c.owed pc :=
  hpc ▸ h.calls c (mem_of_getElem? ht)

/-- A call outside the gate does not look at the lifecycle. -/
theorem CallInv.frame {owed : List Nat} (h : CallInv s owed pc)
    (hout : pc.inside = false) : CallInv s' owed pc := by
  cases pc with
  | atGate | returned | threw => exact h
  | starting | launching | awaiting => cases hout

/-- Everyone but `t` is outside, if `t` is inside or nobody is. -/
theorem Inv.outside (h : Inv s) (ht : s.calls[t]? = some c)
    (hin : c.pc.inside ∨ s.busy = false) {j : Nat} {d : Call} (hj : s.calls[j]? = some d)
    (hne : j ≠ t) : d.pc.inside = false := by
  cases hd : d.pc.inside with
  | false => rfl
  | true =>
    exfalso
    -- Were `d` to leave, the count would drop, and `c` would still be counted.
    have hleave := countP_set_leave (p := fun c : Call => c.pc.inside) hj
      (b := { d with pc := .returned }) hd rfl
    have hgate := h.gate
    rcases hin with hc | hfree
    · have ht' : (s.calls.set j { d with pc := .returned })[t]? = some c :=
        (getElem?_set_ne hne).trans ht
      have hpos : 0 < (s.calls.set j { d with pc := .returned }).countP (·.pc.inside) :=
        countP_pos_iff.mpr ⟨c, mem_of_getElem? ht', hc⟩
      have := Bool.toNat_le s.busy
      omega
    · rw [hfree] at hgate
      have : Bool.toNat false = 0 := rfl
      omega

/-- A step of call `t`, which is inside or finds the gate free. -/
theorem Inv.stepCall (h : Inv s) (ht : s.calls[t]? = some c)
    (hin : c.pc.inside ∨ s.busy = false) (hcalls : s'.calls = s.calls.set t c')
    (hbusy : s'.busy = c'.pc.inside) (hcore : Core s') (hcall : CallInv s' c'.owed c'.pc) :
    Inv s' where
  core := hcore
  gate := by
    rw [hcalls, hbusy]
    have hset := countP_set (fun c : Call => c.pc.inside) ht c'
    have hgate := h.gate
    -- Before the step the count is that of `c` alone.
    have hold : s.calls.countP (·.pc.inside) = c.pc.inside.toNat := by
      rcases hin with hc | hfree
      · have hpos : 0 < s.calls.countP (·.pc.inside) :=
          countP_pos_iff.mpr ⟨c, mem_of_getElem? ht, hc⟩
        have := Bool.toNat_le s.busy
        rw [hc]
        change _ = 1
        omega
      · rw [hfree] at hgate
        have hc := countP_eq_zero.mp hgate c (mem_of_getElem? ht)
        rw [hgate, Bool.eq_false_iff.mpr hc]
    rw [hold] at hset
    cases hc : c.pc.inside <;> cases hc' : c'.pc.inside <;> simp [hc, hc'] at hset ⊢ <;> exact hset
  calls d hd := by
    rw [hcalls] at hd
    obtain ⟨j, hj⟩ := getElem?_of_mem hd
    rcases getElem?_set_cases hj with ⟨rfl, rfl⟩ | ⟨hne, hj'⟩
    · exact hcall
    · exact (h.calls d (mem_of_getElem? hj')).frame (h.outside ht hin hj' hne)

end Inside

end ServiceLib.Service
