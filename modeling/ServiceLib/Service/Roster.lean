import ServiceLib.Lib.ThreadList
import ServiceLib.Service.Lifecycle

namespace ServiceLib.Service

/-!
# Service lifecycle — entries, stop operations and components

What an entry records must agree with what its component has seen, although the operations run
on their own and outlive the calls that launched them.
-/

open List Option

/-! ### Reading an entry -/

/-- Whether entry `i` is marked as started; a cleared entry is not. -/
def startedAt (entries : List Entry) (i : Nat) : Bool := entries[i]?.any (·.started)

/-- The operation of entry `i`. -/
def stoppingAt (entries : List Entry) (i : Nat) : Option Nat := entries[i]?.bind (·.stopping)

section Reading

variable {entries : List Entry} {i j : Nat} {e : Entry} {f : Entry → Entry}

theorem startedAt_eq (h : entries[i]? = some e) : startedAt entries i = e.started := by
  rw [startedAt, h]; rfl

theorem stoppingAt_eq (h : entries[i]? = some e) : stoppingAt entries i = e.stopping := by
  rw [stoppingAt, h]; rfl

theorem exists_of_startedAt (h : startedAt entries i) : ∃ e, entries[i]? = some e ∧ e.started :=
  (any_eq_true _ _).mp h

theorem modify_self (h : entries[i]? = some e) : (entries.modify i f)[i]? = some (f e) := by
  rw [getElem?_modify_eq, h]; rfl

theorem startedAt_modify_ne (h : i ≠ j) :
    startedAt (entries.modify i f) j = startedAt entries j := by
  rw [startedAt, getElem?_modify_ne _ _ h]; rfl

theorem stoppingAt_modify_ne (h : i ≠ j) :
    stoppingAt (entries.modify i f) j = stoppingAt entries j := by
  rw [stoppingAt, getElem?_modify_ne _ _ h]; rfl

end Reading

/-! ### Operations -/

namespace OperationPc

def isDone : OperationPc → Bool
  | .done _ => true
  | _ => false

/-- Whether the operation is in the `stop` of its component. -/
def active : OperationPc → Bool
  | .running => true
  | _ => false

/-- Whether that `stop` has returned normally. -/
def succeeded : OperationPc → Bool
  | .finished failed | .done failed => !failed
  | _ => false

end OperationPc

/-- A step of an operation does not change whose it is. -/
theorem map_entry_set {operations : List StopOperation} {k i : Nat} {pc : OperationPc}
    (hk : operations[k]? = some ⟨i, pc⟩) (pc' : OperationPc) :
    (operations.set k ⟨i, pc'⟩).map (·.entry) = operations.map (·.entry) :=
  map_set_same hk rfl

/-- How component `i` has to stand for an entry that is marked as `started` or not and has the
    operation `stopping`. -/
inductive Agrees (operations : List StopOperation) (i : Nat) (x : Component) :
    Bool → Option Nat → Prop
  /-- Never started, or seen to stop. -/
  | resting (hstopping : x.stopping = 0) (hstopped : x.stopped = x.started.toNat) :
      Agrees operations i x false none
  /-- No stop is in progress and none has succeeded. -/
  | started (hstarted : x.started) (hstopping : x.stopping = 0) (hstopped : x.stopped = 0) :
      Agrees operations i x true none
  | stopping (k : Nat) (pc : OperationPc) (hk : operations[k]? = some ⟨i, pc⟩)
      (hstarted : x.started) (hstopping : x.stopping = pc.active.toNat)
      (hstopped : x.stopped = pc.succeeded.toNat) :
      Agrees operations i x true (some k)

namespace Agrees

variable {operations operations' : List StopOperation} {i : Nat} {x x' : Component}
  {b : Bool} {k : Option Nat}

/-- At most one stop is running or has succeeded. -/
theorem once (h : Agrees operations i x b k) : x.stopping + x.stopped ≤ 1 := by
  cases h with
  | resting hstopping hstopped => rw [hstopping, hstopped]; cases x.started <;> decide
  | started _ hstopping hstopped => rw [hstopping, hstopped]; decide
  | stopping k pc _ _ hstopping hstopped =>
    rw [hstopping, hstopped]
    cases pc with
    | spawned => decide
    | running => decide
    | finished failed | done failed => cases failed <;> decide

theorem stopped_iff_started (h : Agrees operations i x false k) : x.stopped = 1 ↔ x.started := by
  cases h with
  | resting _ hstopped => rw [hstopped]; cases x.started <;> decide

theorem stopped_of_not_started (h : Agrees operations i x false k) (hx : x.started) :
    x.stopped = 1 :=
  h.stopped_iff_started.mpr hx

/-- Agreement only looks at the operation of the entry and at the counters. -/
theorem frame (h : Agrees operations i x b k)
    (hops : ∀ k' op, k = some k' → operations[k']? = some op → operations'[k']? = some op)
    (hstarted : x'.started = x.started) (hstopping : x'.stopping = x.stopping)
    (hstopped : x'.stopped = x.stopped) : Agrees operations' i x' b k := by
  cases h with
  | resting h1 h2 => exact .resting (hstopping.trans h1) (by rw [hstopped, h2, hstarted])
  | started h1 h2 h3 =>
    exact .started (hstarted.trans h1) (hstopping.trans h2) (hstopped.trans h3)
  | stopping k pc hk h1 h2 h3 =>
    exact .stopping k pc (hops k _ rfl hk) (hstarted.trans h1) (hstopping.trans h2)
      (hstopped.trans h3)

end Agrees

/-! ### The invariant -/

/-- How the entries, the operations and the components of a lifecycle fit together. -/
structure RosterInv (entries : List Entry) (operations : List StopOperation)
    (components : List Component) : Prop where
  known : ∀ (i : Nat) (e : Entry), entries[i]? = some e →
    ∃ x, components[i]? = some x ∧ x.kind = e.kind
  agrees : ∀ (i : Nat) (x : Component), components[i]? = some x →
    Agrees operations i x (startedAt entries i) (stoppingAt entries i)
  /-- An operation that is not done is the one its entry names. -/
  live : ∀ (k : Nat) (op : StopOperation), operations[k]? = some op → op.pc.isDone = false →
    stoppingAt entries op.entry = some k
  launched : ∀ (i : Nat) (x : Component), components[i]? = some x →
    0 < x.stopCalls ∨ x.unsettled →
    i ∈ operations.map (·.entry)

namespace RosterInv

variable {entries : List Entry} {operations : List StopOperation} {components : List Component}
  {i : Nat} {e : Entry} {k : Nat}

section

variable (h : RosterInv entries operations components)
include h

theorem agrees_entry (hi : entries[i]? = some e) :
    ∃ x, components[i]? = some x ∧ x.kind = e.kind ∧
      Agrees operations i x e.started e.stopping := by
  obtain ⟨x, hx, hkind⟩ := h.known i e hi
  have hag := h.agrees i x hx
  rw [startedAt_eq hi, stoppingAt_eq hi] at hag
  exact ⟨x, hx, hkind, hag⟩

/-- Effects on one entry and its component: everyone else is as before. -/
theorem update {f : Entry → Entry} {g : Component → Component} {operations' : List StopOperation}
    (hi : entries[i]? = some e) (hf : (f e).kind = e.kind) (hg : ∀ x, (g x).kind = x.kind) (hself :
    ∀ x, components[i]? = some x → Agrees operations i x e.started e.stopping → Agrees operations' i
    (g x) (f e).started (f e).stopping) (hops : ∀ j x b k op, j ≠ i → Agrees operations j x b (some
    k) → operations[k]? = some op → operations'[k]? = some op) (hlive : ∀ (k : Nat) (op :
    StopOperation), operations'[k]? = some op → op.pc.isDone = false → (op.entry = i ∧ (f
    e).stopping = some k) ∨ (op.entry ≠ i ∧ operations[k]? = some op))
    (hmap : ∀ j ∈ operations.map (·.entry), j ∈ operations'.map (·.entry)) (hcalls : ∀ x,
    components[i]? = some x → 0 < (g x).stopCalls ∨ (g x).unsettled → (0 < x.stopCalls ∨
    x.unsettled) ∨ i ∈ operations.map (·.entry)) :
    RosterInv (entries.modify i f) operations' (components.modify i g) where
  known j e' hj := by
    rcases getElem?_modify_cases hj with ⟨rfl, e₀, he₀, rfl⟩ | ⟨hne, hj'⟩
    · obtain ⟨x, hx, hkind⟩ := h.known _ _ he₀
      rw [hi] at he₀
      cases he₀
      exact ⟨g x, by rw [getElem?_modify_eq, hx]; rfl, (hg x).trans (hkind.trans hf.symm)⟩
    · rw [getElem?_modify_ne _ _ (Ne.symm hne)]
      exact h.known j e' hj'
  agrees j x hj := by
    rcases getElem?_modify_cases hj with ⟨rfl, x₀, hx₀, rfl⟩ | ⟨hne, hj'⟩
    · have hag := h.agrees _ _ hx₀
      rw [startedAt_eq hi, stoppingAt_eq hi] at hag
      rw [startedAt_eq (modify_self hi), stoppingAt_eq (modify_self hi)]
      exact hself x₀ hx₀ hag
    · rw [startedAt_modify_ne (Ne.symm hne), stoppingAt_modify_ne (Ne.symm hne)]
      have hag := h.agrees j x hj'
      refine hag.frame (fun k op hk hop => ?_) rfl rfl rfl
      rw [hk] at hag
      exact hops j x _ k op hne hag hop
  live k op hk hdone := by
    rcases hlive k op hk hdone with ⟨hentry, hstop⟩ | ⟨hentry, hk'⟩
    · rw [hentry, stoppingAt_eq (modify_self hi)]
      exact hstop
    · rw [stoppingAt_modify_ne (Ne.symm hentry)]
      exact h.live k op hk' hdone
  launched j x hj hcall := by
    rcases getElem?_modify_cases hj with ⟨rfl, x₀, hx₀, rfl⟩ | ⟨hne, hj'⟩
    · rcases hcalls x₀ hx₀ hcall with hold | hmem
      · exact hmap _ (h.launched _ x₀ hx₀ hold)
      · exact hmap _ hmem
    · exact hmap _ (h.launched j x hj' hcall)

/-! ### Effects -/

/-- `add`: a new entry and its component, at the same position. -/
theorem register (hlen : entries.length = components.length) (kind : Kind) (identity : Nat) :
    RosterInv (entries ++ [⟨kind, identity, false, none⟩]) operations
      (components ++ [⟨kind, false, 0, 0, 0, false⟩]) := by
  -- Reading a position of the longer list, whether or not it is the new one.
  have hread : ∀ j, startedAt (entries ++ [⟨kind, identity, false, none⟩]) j = startedAt entries j ∧
      stoppingAt (entries ++ [⟨kind, identity, false, none⟩]) j = stoppingAt entries j := by
    intro j
    rcases Nat.lt_trichotomy j entries.length with hlt | heq | hgt
    · rw [startedAt, stoppingAt, getElem?_append_left hlt]
      exact ⟨rfl, rfl⟩
    · subst heq
      have hnone : entries[entries.length]? = none := getElem?_eq_none (Nat.le_refl _)
      rw [startedAt, stoppingAt, getElem?_concat_length, startedAt, stoppingAt, hnone]
      exact ⟨rfl, rfl⟩
    · have hnone : entries[j]? = none := getElem?_eq_none (Nat.le_of_lt hgt)
      have hnone' : (entries ++ [(⟨kind, identity, false, none⟩ : Entry)])[j]? = none :=
        getElem?_eq_none (by rw [length_append]; exact hgt)
      rw [startedAt, stoppingAt, hnone', startedAt, stoppingAt, hnone]
      exact ⟨rfl, rfl⟩
  refine ⟨forall_getElem?_concat (fun j e hj => ?_) ?_, ?_, fun k op hk hdone => ?_,
    forall_getElem?_concat h.launched (fun hcall => ?_)⟩
  · obtain ⟨x, hx, hkind⟩ := h.known j e hj
    exact ⟨x, getElem?_concat hx _, hkind⟩
  · exact ⟨_, by rw [hlen]; exact getElem?_concat_length, rfl⟩
  · simp only [hread]
    refine forall_getElem?_concat h.agrees ?_
    have hnone : entries[components.length]? = none := getElem?_eq_none (Nat.le_of_eq hlen)
    rw [startedAt, stoppingAt, hnone]
    exact .resting rfl rfl
  · rw [(hread _).2]
    exact h.live k op hk hdone
  · rcases hcall with hcall | hcall
    · exact absurd hcall (Nat.lt_irrefl 0)
    · cases hcall

/-- The `start` of an entry that has not been stopped. -/
theorem markStarted (hlen : entries.length = components.length)
    (hfresh : ∀ x, components[i]? = some x → x.started = startedAt entries i) :
    RosterInv (entries.modify i (fun e => { e with started := true })) operations
      (components.modify i (fun x => { x with started := true })) := by
  cases hi : entries[i]? with
  | none =>
    have hle := getElem?_eq_none_iff.mp hi
    rw [modify_eq_self hle, modify_eq_self (hlen ▸ hle)]
    exact h
  | some e =>
    refine h.update hi rfl (fun _ => rfl) (fun x hx hag => ?_) (fun _ _ _ _ _ _ _ hop => hop)
      (fun k op hk hdone => ?_) (fun _ hj => hj) (fun _ _ hcall => .inl hcall)
    · have hstarted := hfresh x hx
      rw [startedAt_eq hi] at hstarted
      generalize e.started = b, e.stopping = k at hag hstarted
      cases hag with
      | resting hstopping hstopped =>
        rw [hstarted] at hstopped
        exact .started rfl hstopping hstopped
      | started _ hstopping hstopped => exact .started rfl hstopping hstopped
      | stopping k pc hk _ hstopping hstopped =>
        exact .stopping k pc hk rfl hstopping hstopped
    · by_cases hentry : op.entry = i
      · have hstop := h.live k op hk hdone
        rw [hentry, stoppingAt_eq hi] at hstop
        exact .inl ⟨hentry, hstop⟩
      · exact .inr ⟨hentry, hk⟩

/-- A new stop operation. -/
theorem launch (hi : entries[i]? = some e) (hstarted : e.started)
    (hstopping : e.stopping = none) :
    RosterInv (entries.modify i (fun e => { e with stopping := some operations.length }))
      (operations ++ [⟨i, .spawned⟩]) components := by
  rw [← modify_id i components]
  refine h.update hi rfl (fun _ => rfl) ?_ ?_ ?_ ?_ (fun _ _ hcall => .inl hcall)
  · intro x _ hag
    rw [hstarted, hstopping] at hag
    cases hag with
    | started h1 h2 h3 =>
      change Agrees _ i x e.started (some operations.length)
      rw [hstarted]
      exact .stopping _ .spawned getElem?_concat_length h1 h2 h3
  · exact fun _ _ _ _ _ _ _ hop => getElem?_concat hop _
  · refine forall_getElem?_concat (fun k op hk hdone => .inr ⟨fun hentry => ?_, hk⟩)
      (fun _ => .inl ⟨rfl, rfl⟩)
    -- An older operation of this entry would still be the one it names.
    have hstop := h.live k op hk hdone
    simp [hentry, stoppingAt_eq hi, hstopping] at hstop
  · intro j hj
    rw [map_append]
    exact mem_append_left _ hj

/-- An operation that is done is taken off its entry. -/
theorem detach (hi : entries[i]? = some e) (hstarted : e.started)
    (hstopping : e.stopping = some k) {failed : Bool} {j : Nat}
    (hk : operations[k]? = some ⟨j, .done failed⟩) :
    RosterInv (entries.modify i (fun e => { e with
      stopping := none, started := e.started && failed })) operations components := by
  rw [← modify_id i components]
  refine h.update hi rfl (fun _ => rfl) ?_ (fun _ _ _ _ _ _ _ hop => hop) ?_ (fun _ hj => hj)
    (fun _ _ hcall => .inl hcall)
  · intro x _ hag
    rw [hstarted, hstopping] at hag
    change Agrees operations i x (e.started && failed) none
    rw [hstarted]
    cases hag with
    | stopping k' pc hk' h1 h2 h3 =>
      rw [hk] at hk'
      cases hk'
      cases failed with
      | false => exact .resting h2 (by rw [h1]; exact h3)
      | true => exact .started h1 h2 h3
  · intro k' op hk' hdone
    refine .inr ⟨fun hentry => ?_, hk'⟩
    have hstop := h.live k' op hk' hdone
    rw [hentry, stoppingAt_eq hi, hstopping] at hstop
    cases hstop
    rw [hk] at hk'
    cases hk'
    cases hdone

/-- The wait for an operation of the entry went wrong. -/
theorem unsettle (hi : i ∈ operations.map (·.entry)) :
    RosterInv entries operations (components.modify i (fun x => { x with unsettled := true })) where
  known j e hj := by
    obtain ⟨x, hx, hkind⟩ := h.known j e hj
    by_cases hij : i = j
    · subst hij
      exact ⟨{ x with unsettled := true }, by rw [getElem?_modify_eq, hx]; rfl, hkind⟩
    · exact ⟨x, by rw [getElem?_modify_ne _ _ hij]; exact hx, hkind⟩
  agrees j x hj := by
    rcases getElem?_modify_cases hj with ⟨rfl, x₀, hx₀, rfl⟩ | ⟨_, hj'⟩
    · exact (h.agrees _ x₀ hx₀).frame (fun _ _ _ hop => hop) rfl rfl rfl
    · exact h.agrees j x hj'
  live := h.live
  launched j x hj hcall := by
    rcases getElem?_modify_cases hj with ⟨rfl, _⟩ | ⟨_, hj'⟩
    · exact hi
    · exact h.launched j x hj' hcall

/-- `clear`, once no entry is marked as started. -/
theorem clear (hnone : ∀ i, startedAt entries i = false) : RosterInv [] operations components := by
  have hrest : ∀ i x, components[i]? = some x → stoppingAt entries i = none := by
    intro i x hx
    have hag := h.agrees i x hx
    rw [hnone i] at hag
    generalize stoppingAt entries i = k at hag
    cases hag
    rfl
  refine ⟨fun j e hj => ?_, fun j x hj => ?_, fun k op hk hdone => ?_, h.launched⟩
  · cases hj
  · have hag := h.agrees j x hj
    rw [hnone j, hrest j x hj] at hag
    exact hag
  · -- An operation that is not done would keep its entry started.
    have hstop := h.live k op hk hdone
    obtain ⟨e, he, _⟩ := bind_eq_some_iff.mp hstop
    obtain ⟨x, hx, _⟩ := h.known _ e he
    simp [hrest _ x hx] at hstop

/-- A step of operation `k`, which is not done. -/
theorem moveOperation {pc pc' : OperationPc} {f : Component → Component}
    (hk : operations[k]? = some ⟨i, pc⟩) (hpc : pc.isDone = false)
    (hkind : ∀ x, (f x).kind = x.kind) (hstarted : ∀ x, (f x).started = x.started)
    (hstopping : ∀ x, x.stopping = pc.active.toNat → (f x).stopping = pc'.active.toNat)
    (hstopped : ∀ x, x.stopped = pc.succeeded.toNat → (f x).stopped = pc'.succeeded.toNat) :
    RosterInv entries (operations.set k ⟨i, pc'⟩) (components.modify i f) := by
  have hlt := lt_of_getElem? hk
  have hstop := h.live k _ hk hpc
  obtain ⟨e, hi, he⟩ := bind_eq_some_iff.mp hstop
  have hmem : i ∈ operations.map (·.entry) :=
    mem_map.mpr ⟨_, mem_of_getElem? hk, rfl⟩
  rw [← modify_id i entries]
  refine h.update hi rfl hkind ?_ ?_ ?_ ?_ (fun _ _ _ => .inr hmem)
  · intro x _ hag
    change Agrees _ i (f x) e.started e.stopping
    rw [he] at hag ⊢
    generalize e.started = b at hag
    cases hag with
    | stopping _ pc₀ hk₀ h1 h2 h3 =>
      rw [hk] at hk₀
      cases hk₀
      exact .stopping k pc' (getElem?_set_self hlt) ((hstarted x).trans h1)
        (hstopping x h2) (hstopped x h3)
  · intro j x b k' op hne hag hop
    refine (getElem?_set_ne (fun heq => ?_)).trans hop
    subst heq
    cases hag with
    | stopping _ pc₀ hk₀ _ _ _ =>
      rw [hk] at hk₀
      cases hk₀
      exact hne rfl
  · intro k' op hk' hdone
    rcases getElem?_set_cases hk' with ⟨rfl, rfl⟩ | ⟨hne, hk''⟩
    · exact .inl ⟨rfl, he⟩
    · refine .inr ⟨fun hentry => hne ?_, hk''⟩
      have hstop' := h.live k' op hk'' hdone
      rw [hentry] at hstop'
      exact some.inj (hstop'.symm.trans hstop)
  · intro j hj
    rwa [map_entry_set hk]

end

end RosterInv

end ServiceLib.Service
