import ServiceLib.Service.Rollback

namespace ServiceLib.Service

/-!
# Service lifecycle — the order of the starts in every run

The steps that `Service.Rollback` leaves out: the rounds of `startImpl`, passing the gate, and
those that no call takes.  `rolled_of_reachable` puts them together.
-/

open List Option

variable {s s' : Lifecycle} {η : StartHistory} {t : Nat} {c : Call}

/-! ### Starting -/

/-- Every entry has one kind, and every kind one place in the order. -/
theorem Lifecycle.nodup_startEntries (s : Lifecycle) (admission : Bool) :
    (s.startEntries admission).Nodup := by
  have horder : startOrder.Nodup := by decide
  refine nodup_flatMap.mpr ⟨fun kind _ => nodup_range.filter _,
    (horder.filter _).imp (fun hne i hi hi' => ?_)⟩
  obtain ⟨e, he, hk⟩ := mem_ofKind.mp hi
  obtain ⟨e', he', hk'⟩ := mem_ofKind.mp hi'
  rw [he] at he'
  cases he'
  exact hne (hk.symm.trans hk')

variable {i : Nat} {k : Nat}

theorem Lifecycle.lt_of_mem_startEntries {admission : Bool} (hi : i ∈ s.startEntries admission) :
    i < s.entries.length := by
  obtain ⟨kind, -, hi⟩ := mem_flatMap.mp hi
  obtain ⟨e, he, -⟩ := mem_ofKind.mp hi
  exact lt_of_getElem? he

/-- No start has failed while one goes on. -/
theorem Rolled.failed_eq_none (h : Rolled s η) (hstate : s.state = .starting) :
    η.failed = none := by
  cases hf : η.failed with
  | none => rfl
  | some t =>
    have hend := (h.failed t hf).1.state
    rw [hstate] at hend
    rcases hend with hend | hend <;> cases hend

/-- Entry `i` is the next to be begun. -/
theorem RollCore.markStarted (h : RollCore s η) (hi : Inv s) (hstate : s.state = .starting)
    (hlt : i < s.components.length) (hfresh : i ∉ η.begun) (failed : Option Nat) :
    RollCore (s.markStarted i) ⟨η.begun ++ [i], failed⟩ where
  nodup := nodup_append.mpr ⟨h.nodup, nodup_singleton i, fun j hj k hk hjk => by
    rw [mem_singleton.mp hk] at hjk
    exact hfresh (hjk ▸ hj)⟩
  created hf := absurd (hstate.symm.trans hf) (by decide)
  record hran _ := by
    change s.started ++ [i] = _
    rw [h.record hran (by rw [hstate]; decide)]
  size hs := by
    rw [Lifecycle.markStarted, length_modify, length_modify]
    exact h.size hs
  began j := by
    rw [mem_append, mem_singleton, ← h.began j]
    unfold beganAt
    -- Only component `i` is written.
    by_cases hij : i = j
    · subst hij
      have hself : (s.markStarted i).components[i]? =
          some { s.components[i] with started := true } := by
        rw [Lifecycle.markStarted, getElem?_modify_eq, getElem?_eq_getElem hlt]; rfl
      rw [hself]
      exact ⟨fun _ => .inr rfl, fun _ => rfl⟩
    · have hne : (s.markStarted i).components[j]? = s.components[j]? :=
        getElem?_modify_ne _ _ hij
      rw [hne]
      exact ⟨.inl, fun hor => hor.resolve_right (Ne.symm hij)⟩
  order _ j hj := by
    change j ∈ s.operations.map _ at hj
    simp [(hi.core.fresh (.inr hstate)).1] at hj

section

variable (h : Rolled s η)
include h

/-- A round of the loop of `startImpl`, in which an entry is begun. -/
theorem Rolled.beginEntry {pc : CallPc} {η' : StartHistory} (hi : Inv s) (ht : s.calls[t]? = some c)
    (hin : c.pc.inside) (hcore : RollCore s' η')
    (hcalls : s'.calls = s.calls.set t { c with pc := pc })
    (hcall : RollCall s'.components.length η'.begun pc) (hmethod : c.method.starts)
    (hfailed : ∀ u, η'.failed = some u → u = t ∧ Ended s' ∧ pc.rolledBack) : Rolled s' η' where
  core := hcore
  calls d hd := by
    rw [hcalls] at hd
    obtain ⟨j, hj⟩ := getElem?_of_mem hd
    rcases getElem?_set_cases hj with ⟨-, rfl⟩ | ⟨hne, hj'⟩
    · exact hcall
    · exact .of_outside (hi.outside ht (.inl hin) hj' hne)
  methods := by
    rw [hcalls]
    exact forall_mem_set h.methods (fun _ => hmethod)
  failed u hu := by
    obtain ⟨rfl, hend, hback⟩ := hfailed u hu
    refine ⟨hend, { c with pc := pc }, ?_, hmethod, hback⟩
    rw [hcalls]
    exact getElem?_set_some ht _

/-- A round of the loop of `startImpl`: the entry is begun, also if its start throws. -/
theorem Rolled.startStep (hi : Inv s) (ht : s.calls[t]? = some c) {todo : List Nat} (ok : Bool)
    (hpc : c.pc = .starting todo) :
    Rolled (s.startStep t c todo ok) (match todo with
      | i :: _ => ⟨η.begun ++ [i], if ok then η.failed else some t⟩
      | [] => η) := by
  have hin : c.pc.inside := by rw [hpc]; rfl
  have hmethod := h.methods c (mem_of_getElem? ht) (by rw [hpc]; rfl)
  have hstate : s.state = .starting := by
    have hcall := hi.atPc ht hpc
    exact hcall.2
  have hroll := h.atPc ht hpc
  have hnone := h.failed_eq_none hstate
  cases todo with
  | nil =>
    have hcore : RollCore (s.startStep t c [] ok) η :=
      ⟨h.core.nodup, by rintro ⟨⟩, by rintro ⟨⟩, fun _ => h.core.size (by rw [hstate]; decide),
        h.core.began, by rintro ⟨⟩⟩
    refine h.beginEntry hi ht hin hcore rfl trivial hmethod (fun u hu => ?_)
    simp [hnone] at hu
  | cons i todo =>
    obtain ⟨hnodup, hlt⟩ := hroll
    have hfresh : i ∉ η.begun := fun hmem =>
      (nodup_append.mp hnodup).2.2 i hmem i mem_cons_self rfl
    have hmark := h.core.markStarted hi hstate (hlt i mem_cons_self) hfresh
    have hlen : (s.markStarted i).components.length = s.components.length :=
      length_modify _ _ _
    have hran := (hi.core.fresh (.inr hstate)).2.2.2.1
    cases ok with
    | true =>
      refine h.beginEntry hi ht hin ((hmark η.failed).ofCalls _ _) rfl ⟨?_, fun j hj => ?_⟩ hmethod
        (fun u hu => ?_)
      · change (η.begun ++ [i] ++ todo).Nodup
        rwa [append_assoc]
      · exact Nat.lt_of_lt_of_eq (hlt j (mem_cons_of_mem _ hj)) hlen.symm
      · change η.failed = some u at hu
        simp [hnone] at hu
    | false =>
      have hstarted : (s.markStarted i).started.reverse = i :: s.started.reverse := by
        change (s.started ++ [i]).reverse = _
        rw [reverse_append]
        rfl
      -- The rollback begins with the entry whose start threw.
      have hs : s.startStep t c (i :: todo) false = { s.markStarted i with
          state := .stopping, rollbackPending := true }.rollbackFrom t c
            (i :: s.started.reverse) := by
        rw [← hstarted]
        rfl
      rw [hs]
      have hcore : RollCore { s.markStarted i with state := .stopping, rollbackPending := true }
          ⟨η.begun ++ [i], some t⟩ :=
        (hmark (some t)).frame (by simp) id
          (fun _ => ⟨fun hf => absurd (hstate.symm.trans hf) (by decide), rfl, id⟩) (fun _ => rfl)
          (fun _ hj => hj) (fun _ hj => hj)
      refine h.beginEntry hi ht hin (hcore.ofCalls _ _) rfl ⟨i, [], rfl, ?_⟩ hmethod
        (fun u hu => ⟨(some.inj hu).symm, ⟨hran, .inl rfl⟩, rfl⟩)
      rw [reverse_reverse, h.core.record hran (by rw [hstate]; decide)]

/-! ### Passing the gate -/

/-- A call passes the gate. -/
theorem Rolled.enter (hi : Inv s) (ht : s.calls[t]? = some c) {critical : Critical}
    (hpc : c.pc = .atGate critical) : Rolled (s.enter t c critical) η := by
  have hnot : c.pc.rolledBack = false := by rw [hpc]; rfl
  have hback : ∀ {P : Prop}, c.pc.rolledBack → P :=
    fun hb => absurd (hnot.symm.trans hb) (by decide)
  cases critical with
  | start =>
    unfold Lifecycle.enter
    simp only
    split
    · exact h.leave ht h.core rfl (Nat.le_refl _) id rfl rfl (fun _ => hback)
    next hstate =>
      rw [ne_eq, Decidable.not_not] at hstate
      have hcore : RollCore { s with busy := true, state := .starting } η :=
        h.core.frame (by simp) id (fun _ => ⟨by rw [hstate]; decide, rfl, id⟩) (fun _ => rfl)
          (fun _ hj => hj) (fun _ hj => hj)
      refine h.stepCall ht rfl (Nat.le_refl _) (hcore.ofCalls _ _) ⟨?_, fun i hmem => ?_⟩
        (fun _ => ?_) (fun he => ?_) (fun _ => hback)
      · rw [h.core.created hstate]
        exact s.nodup_startEntries _
      · exact Nat.lt_of_lt_of_eq (Lifecycle.lt_of_mem_startEntries hmem)
          (hi.core.fresh (.inl hstate)).2.1
      · exact h.methods c (mem_of_getElem? ht) (by rw [hpc]; rfl)
      · rcases he.state with hst | hst <;> exact absurd (hstate.symm.trans hst) (by decide)
  | before =>
    unfold Lifecycle.enter
    simp only
    split
    next hstate =>
      exact h.endBefore ht (h.core.stopped _) rfl (Nat.le_refl _) (fun he => ⟨he.ran, .inr rfl⟩)
        (fun _ => hnot)
    split
    · exact h.endBefore ht h.core rfl (Nat.le_refl _) id (fun _ => hnot)
    next hcreated hstopped =>
    split
    next hpending =>
      have hstate : s.state = .stopping := hi.core.stopping_of_pending hpending hstopped
      have hran := hi.core.not_ran hstate hpending
      -- A retry rolls back the whole record, not only what is left of it.
      refine h.rollbackFrom ht (h.core.ofCalls s.calls true) rfl (Nat.le_refl _)
        ⟨hran, .inl hstate⟩ ⟨[], ?_⟩
      change η.begun = s.started.reverse.reverse ++ []
      rw [reverse_reverse, append_nil, h.core.record hran hstopped]
    next hpending =>
    split
    · exact h.endBefore ht h.core rfl (Nat.le_refl _) id (fun _ => hnot)
    split
    · exact h.leave ht h.core rfl (Nat.le_refl _) id rfl rfl (fun _ => hback)
    next hstate =>
      have hcore : RollCore { s with busy := true, state := .stopping } η :=
        h.core.frame (by simp) id (fun _ => ⟨hstopped, rfl, id⟩) (fun _ => rfl) (fun _ hj => hj)
          (fun _ hj => hj)
      exact h.stepCall ht rfl (Nat.le_refl _) (hcore.ofCalls _ _) trivial (by rintro ⟨⟩)
        (fun he => ⟨he.ran, .inl rfl⟩) (fun _ => hback)
  | after =>
    unfold Lifecycle.enter
    simp only
    split
    · exact h.leave ht h.core rfl (Nat.le_refl _) id rfl rfl (fun _ => hback)
    split
    · exact h.leave ht h.core rfl (Nat.le_refl _) id rfl rfl (fun _ => hback)
    · exact h.goOn ht (h.core.ofCalls _ _) trivial hback

/-! ### Steps that no call takes -/

/-- A step outside the calls. -/
theorem Rolled.frame (hcore : RollCore s' η) (hcalls : s'.calls = s.calls)
    (hsize : s.components.length ≤ s'.components.length) (hend : Ended s → Ended s') :
    Rolled s' η where
  core := hcore
  calls d hd := (h.calls d (hcalls ▸ hd)).mono hsize
  methods d hd := h.methods d (hcalls ▸ hd)
  failed u hu := by
    obtain ⟨hended, hcall⟩ := h.failed u hu
    rw [hcalls]
    exact ⟨hend hended, hcall⟩

/-- No operation says whether its component was begun. -/
theorem Rolled.moveOperation {pc pc' : OperationPc} {f : Component → Component}
    (hk : s.operations[k]? = some ⟨i, pc⟩) (hf : ∀ x, (f x).started = x.started) :
    Rolled (s.moveOperation k i pc' f) η := by
  have hcore : RollCore (s.moveOperation k i pc' f) η := by
    refine h.core.frame id id
      (fun hs => ⟨hs, rfl, fun hsize => (length_modify _ _ _).trans hsize⟩)
      (beganAt_modify hf) (fun j hj => ?_) (fun _ hj => hj)
    rwa [← map_entry_set hk pc']
  exact h.frame hcore rfl (Nat.le_of_eq (length_modify _ _ _).symm)
    (fun he => ⟨he.ran, he.state⟩)

/-- A step of the coroutine that stops a component. -/
theorem Rolled.operationStep {fails : Bool} (hs : s.operationStep k fails = some s') :
    Rolled s' η := by
  unfold Lifecycle.operationStep at hs
  split at hs
  case h_1 | h_5 => cases hs
  case h_2 hk | h_3 hk | h_4 hk => cases hs; exact h.moveOperation hk (fun _ => rfl)

/-- A component that is registered was not begun. -/
theorem Rolled.add {kind : Kind} {component : Option Nat} (hs : s.add kind component = .ok s') :
    Rolled s' η := by
  unfold Lifecycle.add at hs
  split at hs
  case h_1 => cases hs
  case h_2 identity =>
    split at hs
    case isTrue => cases hs
    case isFalse hstate =>
      split at hs
      case isTrue => cases hs
      case isFalse =>
        cases hs
        have hread : ∀ i, startedAt (s.entries ++ [⟨kind, identity, false, none⟩]) i =
            startedAt s.entries i := startedAt_append_unstarted rfl
        refine h.frame (h.core.frame id id (fun hs => ⟨hs, rfl, fun hsize => ?_⟩)
          (beganAt_append_unstarted rfl) (fun _ hj => hj) (fun j hj => (hread j).trans hj)) rfl ?_
          (fun he => ⟨he.ran, he.state⟩)
        · rw [length_append, length_append, hsize]
          rfl
        · rw [length_append]
          exact Nat.le_add_right _ _

/-- A new call waits at the gate. -/
theorem Rolled.call (method : Method) :
    Rolled { s with calls := s.calls ++ [⟨method, .atGate method.gate, []⟩] } η where
  core := h.core.ofCalls _ _
  calls := forall_mem_concat h.calls (.of_outside rfl)
  methods := by
    refine forall_mem_concat h.methods (fun hof => ?_)
    cases method <;> first | rfl | cases hof
  failed u hu := by
    obtain ⟨hended, d, hd, hrest⟩ := h.failed u hu
    exact ⟨⟨hended.ran, hended.state⟩, d, getElem?_concat hd _, hrest⟩

end

/-! ### Every run -/

/-- Only a round of `startImpl` is recorded. -/
theorem recordStart_run (ht : s.calls[t]? = some c) (o : Lifecycle.Outcome) :
    recordStart s (.run t o) η = match c.pc with
      | .starting (i :: _) => ⟨η.begun ++ [i], if o == .ok then η.failed else some t⟩
      | _ => η := by
  simp only [recordStart, ht, map_some]
  cases c.pc with
  | starting todo => cases todo <;> rfl
  | _ => rfl

/-- A step of a call, with what the history records of it. -/
theorem Rolled.callStep (h : Rolled s η) (hi : Inv s) {o : Lifecycle.Outcome}
    (hs : s.callStep t o = some s') : Rolled s' (recordStart s (.run t o) η) := by
  unfold Lifecycle.callStep at hs
  split at hs
  case h_1 => cases hs
  case h_2 c ht =>
    rw [recordStart_run ht]
    split at hs
    case h_1 critical hpc =>
      rw [hpc]
      split at hs
      case isTrue =>
        cases hs
        refine h.stepCall ht rfl (Nat.le_refl _) (h.core.ofCalls _ _) trivial (by rintro ⟨⟩)
          (fun he => ⟨he.ran, he.state⟩) (fun _ hb => ?_)
        rw [hpc] at hb
        cases hb
      case isFalse =>
        split at hs
        case isTrue => cases hs
        case isFalse =>
          cases hs
          exact h.enter hi ht hpc
    case h_2 todo hpc =>
      rw [hpc]
      cases hs
      have hstep := h.startStep hi ht (o == .ok) hpc
      cases todo <;> exact hstep
    case h_3 p entries todo hpc =>
      rw [hpc]
      exact h.launchStep hi ht hpc hs
    case h_4 p todo failure hpc =>
      rw [hpc]
      exact h.awaitStep hi ht hpc hs
    case h_5 | h_6 => cases hs

/-- Nothing was begun. -/
theorem rolled_init : Rolled Lifecycle.init {} where
  core := {
    nodup := nodup_nil
    created := fun _ => rfl
    record := fun _ _ => rfl
    size := fun _ => rfl
    began := fun _ => ⟨fun h => (nomatch h), fun h => (nomatch h)⟩
    order := fun _ _ h => nomatch h }
  calls _ h := nomatch h
  methods _ h := nomatch h
  failed _ h := nomatch h

/-- Without the order of the starts, a run is a run of the lifecycle. -/
theorem reachable_of_starting {p : Lifecycle × StartHistory} (h : startingSystem.Reachable p) :
    system.Reachable p.1 := by
  have h' : startingSystem.ReachableIf (fun _ _ => True) p := h
  exact System.ReachableIf.of_history h'

/-- **The order of the starts, in every run.** -/
theorem rolled_of_reachable {p : Lifecycle × StartHistory} (h : startingSystem.Reachable p) :
    Rolled p.1 p.2 := by
  refine h.invariant (I := fun p => Rolled p.1 p.2) rolled_init
    (fun {p a p'} hreach hroll _ hs => ?_)
  obtain ⟨s', hstep, rfl⟩ := map_eq_some_iff.mp hs
  have hi := reachable_inv (reachable_of_starting hreach)
  cases a with
  | add kind component =>
    obtain rfl : (p.1.add kind component).toOption.getD p.1 = s' := some.inj hstep
    cases hadd : p.1.add kind component with
    | error => exact hroll
    | ok s' => exact hroll.add hadd
  | call method =>
    cases hstep
    exact hroll.call method
  | run t o => exact hroll.callStep hi hstep
  | operation k fails => exact hroll.operationStep hstep

end ServiceLib.Service
