import ServiceLib.Service.Steps

namespace ServiceLib.Service

/-!
# Service lifecycle — the invariant in every run

One lemma for each kind of step; `reachable_inv` puts them together.
-/

open List Option Lifecycle

variable {s s' : Lifecycle} {t : Nat} {c : Call} {i k : Nat} {e : Entry} {o : Lifecycle.Outcome}
  {todo : List Nat}

/-! ### The second loop, in a call -/

/-- Something other than the entries that are started changes in a component. -/
theorem Core.unsettle (h : Core s) (hstate : s.state = .stopping)
    (hi : i ∈ s.operations.map (·.entry)) : Core (s.unsettle i) := by
  refine h.shrink hstate (Shrinks.refl _) (h.roster.unsettle hi)
    (fun hran j x hj hx k e he hs => ?_)
  rcases getElem?_modify_cases hx with ⟨rfl, x₀, hx₀, rfl⟩ | ⟨_, hx₀⟩
  · exact h.order hran _ x₀ hj hx₀ k e he hs
  · exact h.order hran j x hj hx₀ k e he hs

/-- An operation that is done is taken off its entry. -/
theorem Core.detach (h : Core s) (hstate : s.state = .stopping) {j : Nat}
    (he : s.entries[i]? = some e) (hstarted : e.started) (hk : e.stopping = some k)
    {failed : Bool} (hop : s.operations[k]? = some ⟨j, .done failed⟩) : Core (s.detach i failed) :=
  h.shrink hstate
    (Shrinks.modify (fun _ => rfl) (fun _ hs => ((Bool.and_eq_true _ _).mp hs).1))
    (h.roster.detach he hstarted hk hop) h.order

/-- The operation of an entry is its own. -/
theorem Core.operation_mem (h : Core s) (he : s.entries[i]? = some e) (hk : e.stopping = some k) :
    i ∈ s.operations.map (·.entry) := by
  obtain ⟨x, -, -, hag⟩ := h.roster.agrees_entry he
  rw [hk] at hag
  generalize e.started = b at hag
  cases hag with
  | stopping _ pc hop _ _ _ => exact mem_map.mpr ⟨_, mem_of_getElem? hop, rfl⟩

theorem orElse_some_ne_none {α : Type} (o : Option α) (a : α) : (o <|> some a) ≠ none := by
  cases o with
  | none => exact some_ne_none a
  | some b => exact some_ne_none b

/-- A round of the loop that waits for the operations. -/
theorem Inv.awaitStep (h : Inv s) (ht : s.calls[t]? = some c) {p : Phase}
    {failure : Option LifecycleError}
    (hpc : c.pc = .awaiting p todo failure)
    (hs : s.awaitStep t c p todo failure o = some s') : Inv s' := by
  have hin : c.pc.inside := by rw [hpc]; rfl
  have hbusy := h.busy_of_inside ht hin
  have ha : Awaiting s c.owed p todo failure := h.atPc ht hpc
  unfold Lifecycle.awaitStep at hs
  split at hs
  case h_1 =>
    -- The loop is over; a failure is thrown only now.
    split at hs
    case h_1 e =>
      cases hs
      refine h.fail ht hin (fun _ => eq_nil_iff_forall_not_mem.mpr (fun i hi => ?_))
      exact absurd (ha.failing (some_ne_none e) i hi) not_mem_nil
    case h_2 =>
      cases hs
      exact h.endPhase ht hpc
  case h_2 i todo =>
    split at hs
    case h_1 => cases hs
    case h_2 e he =>
      split at hs
      case isTrue hstopped =>
        cases hs
        exact h.setCall ht (.inl hin) h.core rfl hbusy (ha.skip he hstopped)
      case isFalse hgo =>
        rw [Bool.not_eq_false] at hgo
        split at hs
        case h_1 => cases hs
        case h_2 op hop =>
          obtain ⟨k, hk, hop⟩ := bind_eq_some_iff.mp hop
          have hmem := h.core.operation_mem he hk
          split at hs
          case h_1 hdone =>
            cases hs
            have hop' : s.operations[k]? = some ⟨op.entry, .done false⟩ := hdone ▸ hop
            refine h.setCall ht (.inl hin) (h.core.detach ha.state he hgo hk hop') rfl hbusy ?_
            exact ha.settle h.core he hgo (fun hnone => ⟨hnone, Bool.and_false _⟩)
          case h_2 hdone =>
            cases hs
            have hop' : s.operations[k]? = some ⟨op.entry, .done true⟩ := hdone ▸ hop
            refine h.setCall ht (.inl hin)
              ((h.core.detach ha.state he hgo hk hop').unsettle ha.state hmem) rfl hbusy ?_
            exact ha.settle h.core he hgo (fun hnone => absurd hnone (orElse_some_ne_none _ _))
          case h_3 | h_4 => cases hs
          case h_5 =>
            -- The operation goes on, and its entry keeps it.
            cases hs
            refine h.setCall ht (.inl hin) (h.core.unsettle ha.state hmem) rfl hbusy ?_
            have hsettle : Awaiting { s with
                entries := s.entries.modify i id, components := (s.unsettle i).components }
                (c.owed.filter (· != i)) p todo (failure <|> some (.stopExpired i)) :=
              ha.settle h.core he hgo (fun hnone => absurd hnone (orElse_some_ne_none _ _))
            rwa [modify_id] at hsettle
          case h_6 =>
            cases hs
            exact h.fail ht hin (fun hstop => by cases hstop)

/-! ### Starting -/

/-- `startImpl` begins an entry. -/
theorem Core.markStarted (h : Core s) (hstate : s.state = .starting) (i : Nat) :
    Core (s.markStarted i) := by
  obtain ⟨hops, hlen, hfresh, hran, hpending, hdrained⟩ := h.fresh (.inr hstate)
  have hread : ∀ j, startedAt (s.markStarted i).entries j →
      j = i ∨ startedAt s.entries j := by
    intro j hj
    by_cases hij : i = j
    · exact .inl hij.symm
    · exact .inr ((startedAt_modify_ne hij).symm.trans hj)
  refine ⟨h.roster.markStarted hlen (fun x hx => hfresh i x hx), fun _ => ⟨hops, ?_, ?_, hran,
    hpending, hdrained⟩, fun hf => ?_, fun _ => hpending, h.mode, fun hf => ?_, fun j hj => ?_,
    fun hd => ?_, fun hr => ?_⟩
  · change (s.entries.modify _ _).length = (s.components.modify _ _).length
    rw [length_modify, length_modify, hlen]
  · intro j x hx
    rcases getElem?_modify_cases hx with ⟨rfl, x₀, hx₀, rfl⟩ | ⟨hji, hx₀⟩
    · -- Entry and component have the same position, so the entry exists, too.
      have hlt : j < s.entries.length := hlen ▸ (lt_of_getElem? hx₀)
      obtain ⟨e, he⟩ : ∃ e, s.entries[j]? = some e := ⟨_, getElem?_eq_getElem hlt⟩
      have hself := modify_self (f := fun e : Entry => { e with started := true }) he
      exact (startedAt_eq hself).symm
    · exact (hfresh j x hx₀).trans (startedAt_modify_ne (Ne.symm hji)).symm
  · change s.state = .created at hf
    simp [hstate] at hf
  · change s.state = .stopped at hf
    simp [hstate] at hf
  · change j ∈ s.started ++ [i]
    rcases hread j hj with rfl | hold
    · exact mem_append_right _ mem_cons_self
    · exact mem_append_left _ (h.recorded j hold)
  · change s.beforeGraphDrained = true at hd
    simp [hdrained] at hd
  · change s.ran = true at hr
    simp [hran] at hr

/-- A round of the loop of `startImpl`, or its end. -/
theorem Inv.startStep (h : Inv s) (ht : s.calls[t]? = some c) {ok : Bool}
    (hpc : c.pc = .starting todo) : Inv (s.startStep t c todo ok) := by
  have hin : c.pc.inside := by rw [hpc]; rfl
  have hbusy := h.busy_of_inside ht hin
  have hcall : c.owed = [] ∧ s.state = .starting := h.atPc ht hpc
  obtain ⟨howed, hstate⟩ := hcall
  obtain ⟨hops, -, -, -, hpending, hdrained⟩ := h.core.fresh (.inr hstate)
  cases todo with
  | nil =>
    have hcore : Core { s with state := .running, ran := true } := by
      refine ⟨h.core.roster, by simp, by simp, fun _ => hpending, fun _ => ?_, by simp,
        h.core.recorded, h.core.drained, by simp [hops]⟩
      change true = !s.rollbackPending
      rw [hpending]
      rfl
    exact h.leave ht (.inl hin) hcore rfl rfl howed
  | cons i todo =>
    -- The entry is marked before its start is called, so a start that throws is rolled back, too.
    have hmark := h.core.markStarted hstate i
    unfold Lifecycle.startStep
    simp only
    split
    · exact h.setCall ht (.inl hin) hmark rfl hbusy ⟨howed, hstate⟩
    · have hcore : Core { s.markStarted i with state := .stopping, rollbackPending := true } := by
        obtain ⟨-, -, -, hran, -, -⟩ := hmark.fresh (.inr hstate)
        refine ⟨hmark.roster, by simp, by simp, by simp, fun _ => hran, by simp, hmark.recorded,
          fun hd => ?_, hmark.order⟩
        change s.beforeGraphDrained = true at hd
        simp [hdrained] at hd
      exact h.rollbackFrom ht (.inl hin) hcore rfl hbusy rfl rfl howed
        (fun j hj => mem_reverse.mpr (hcore.recorded j hj))

/-! ### Passing the gate -/

/-- What is owed at the gate is owed by the rounds that follow. -/
theorem Core.owed_of_owing (h : Core s) (stages : List Stage) {g : Stage} (hi : i ∈ s.owing stages)
    (hstage : ∀ kind : Kind, kind.stage ∈ stages →
      (kind.stage = g ∨ (Phase.stage g).later i kind) ∧ (Phase.stage g).reaches kind) :
    Owed s (.stage g) (s.stageEntries g) i := by
  obtain ⟨e, x, he, hx, hs, hunsettled, hg⟩ := mem_owing hi
  refine ⟨e, he, hs, (hstage _ hg).1.imp_left (fun heq => ?_), (hstage _ hg).2,
    h.roster.launched i x hx (.inr hunsettled)⟩
  exact mem_stageEntries.mpr ⟨e, he, heq⟩

/-- A rollback is pending only while the lifecycle stops. -/
theorem Core.stopping_of_pending (h : Core s) (hpending : s.rollbackPending)
    (hstopped : s.state ≠ .stopped) : s.state = .stopping := by
  cases hst : s.state with
  | created => simp [(h.fresh (.inl hst)).2.2.2.2.1] at hpending
  | starting => simp [(h.fresh (.inr hst)).2.2.2.2.1] at hpending
  | running => simp [h.running hst] at hpending
  | stopping => rfl
  | stopped => exact absurd hst hstopped

/-- A call passes the gate. -/
theorem Inv.enter (h : Inv s) (ht : s.calls[t]? = some c) (hfree : s.busy = false)
    {critical : Critical} (hpc : c.pc = .atGate critical) : Inv (s.enter t c critical) := by
  have howed : c.owed = [] := h.atPc ht hpc
  cases critical with
  | start =>
    unfold Lifecycle.enter
    simp only
    split
    · exact h.leave ht (.inr hfree) h.core rfl rfl (fun hstop => by cases hstop)
    next hstate =>
      rw [ne_eq, Decidable.not_not] at hstate
      have hcore : Core { s with busy := true, state := .starting } := by
        have hfresh := h.core.fresh (.inl hstate)
        exact ⟨h.core.roster, fun _ => hfresh, by simp, by simp, by simp, by simp, h.core.recorded,
          h.core.drained, h.core.order⟩
      exact h.setCall ht (.inr hfree) hcore rfl rfl ⟨howed, rfl⟩
  | before =>
    unfold Lifecycle.enter
    simp only
    split
    next hstate =>
      have hpending := (h.core.fresh (.inl hstate)).2.2.2.2.1
      have hcore := h.core.clear (h.core.created hstate)
      rw [← hpending] at hcore
      exact h.endBefore ht (.inr hfree) hcore rfl howed
    split
    · exact h.endBefore ht (.inr hfree) h.core rfl howed
    rename_i hstopped
    split
    -- A failed start has left its rollback to this call.
    next hpending =>
      have hstate := h.core.stopping_of_pending hpending hstopped
      exact h.rollbackFrom ht (.inr hfree) (h.core.ofCalls s.calls true) rfl rfl hstate hpending
        howed
        (fun j hj => mem_reverse.mpr (h.core.recorded j hj))
    rename_i hpending
    rw [Bool.not_eq_true] at hpending
    split
    · exact h.endBefore ht (.inr hfree) h.core rfl howed
    split
    · exact h.leave ht (.inr hfree) h.core rfl rfl (fun hstop => by cases hstop)
    rename_i hstate
    have hmode : s.ran = !s.rollbackPending := h.core.mode (by
      by_contra hno
      exact hstate ⟨fun hst => hno (.inl hst), fun hst => hno (.inr hst)⟩)
    have hcore : Core { s with busy := true, state := .stopping } :=
      ⟨h.core.roster, by simp, by simp, by simp, fun _ => hmode, by simp, h.core.recorded,
        h.core.drained, h.core.order⟩
    refine h.setCall ht (.inr hfree) hcore rfl rfl
      (Launching.ofStage rfl hpending (fun _ _ _ _ => Nat.zero_le _) (fun i hi => ?_))
    -- The executors are owed now, although their round comes after that of the admissions.
    refine hcore.owed_of_owing [.admission, .executors] hi (fun kind hkind => ?_)
    rcases mem_cons.mp hkind with hg | hkind
    · exact ⟨.inl hg, Nat.le_trans (Nat.le_of_eq (congrArg Stage.rank hg)) (by decide)⟩
    · have hg : kind.stage = .executors := mem_singleton.mp hkind
      have hrank : kind.stage.rank = 1 := congrArg Stage.rank hg
      exact ⟨.inr (Nat.lt_of_lt_of_eq Nat.zero_lt_one hrank.symm), Nat.le_of_eq hrank⟩
  | after =>
    unfold Lifecycle.enter
    simp only
    split
    · exact h.leave ht (.inr hfree) h.core rfl rfl howed
    split
    · exact h.leave ht (.inr hfree) h.core rfl rfl (fun hstop => by cases hstop)
    rename_i hgo
    rw [not_or, ne_eq, Decidable.not_not, Bool.not_eq_false] at hgo
    obtain ⟨hpending, hsinks⟩ := h.core.drained hgo.2
    refine h.setCall ht (.inr hfree) (h.core.ofCalls _ _) rfl rfl
      (Launching.ofStage hgo.1 hpending (fun i e he hs => ?_) (fun i hi => ?_))
    · exact Nat.le_of_eq (congrArg Stage.rank (hsinks i e he hs).symm)
    · refine (h.core.ofCalls s.calls true).owed_of_owing [.sinks] hi
        (fun kind hkind => ⟨.inl (mem_singleton.mp hkind), trivial⟩)

/-! ### Steps that no call takes -/

/-- A step outside the calls that leaves what they look at as it was. -/
theorem Inv.frame (h : Inv s) (hcore : Core s') (hcalls : s'.calls = s.calls)
    (hbusy : s'.busy = s.busy)
    (hcall : ∀ owed pc, CallInv s owed pc → CallInv s' owed pc) : Inv s' where
  core := hcore
  gate := by rw [hcalls, hbusy]; exact h.gate
  calls c hc := hcall _ _ (h.calls c (hcalls ▸ hc))

/-- The rounds of `stopPhase` only look at whose operations there are. -/
theorem CallInv.moveOperation {owed : List Nat} {pc : CallPc} (h : CallInv s owed pc)
    {operations' : List StopOperation} {components' : List Component}
    (hmap : operations'.map (·.entry) = s.operations.map (·.entry)) :
    CallInv { s with operations := operations', components := components' } owed pc := by
  have howed : ∀ p todo i, Owed s p todo i →
      Owed { s with operations := operations', components := components' } p todo i := by
    rintro p todo i ⟨e, he, hs, hwhere, hreach, hops⟩
    exact ⟨e, he, hs, hwhere, hreach, hmap ▸ hops⟩
  cases pc with
  | atGate | returned | threw | starting => exact h
  | launching =>
    exact ⟨h.state, h.pending, h.cover, h.lists, h.nodup, h.rounds, h.launched,
      fun i hi => howed _ _ i (h.owes i hi)⟩
  | awaiting =>
    exact ⟨h.state, h.pending, h.cover, h.lists, h.nodup, h.launched,
      fun i hi => howed _ _ i (h.owes i hi), h.failing⟩

/-- A stop operation moves on, and with it what its component counts. -/
theorem Inv.moveOperation (h : Inv s) {pc pc' : OperationPc} {f : Component → Component}
    (hk : s.operations[k]? = some ⟨i, pc⟩) (hkind : ∀ x, (f x).kind = x.kind)
    (hroster : RosterInv s.entries (s.operations.set k ⟨i, pc'⟩) (s.components.modify i f)) :
    Inv (s.moveOperation k i pc' f) := by
  have hmap : (s.operations.set k ⟨i, pc'⟩).map (·.entry) = s.operations.map (·.entry) :=
    map_entry_set hk _
  -- Before the first stop there are no operations.
  have hstops : ¬(s.state = .created ∨ s.state = .starting) := by
    intro hf
    simp [(h.core.fresh hf).1] at hk
  refine h.frame ?_ rfl rfl (fun _ _ hcall => hcall.moveOperation hmap)
  refine ⟨hroster, fun hf => absurd hf hstops, h.core.created, h.core.running, h.core.mode,
    h.core.stopped, h.core.recorded, h.core.drained, fun hran j x hj hx => ?_⟩
  have hj' : j ∈ s.operations.map (·.entry) := hmap ▸ hj
  rcases getElem?_modify_cases hx with ⟨rfl, x₀, hx₀, rfl⟩ | ⟨_, hx₀⟩
  · rw [hkind]
    exact h.core.order hran _ x₀ hj' hx₀
  · exact h.core.order hran j x hj' hx₀

/-- A step of the coroutine that stops a component. -/
theorem Inv.operationStep (h : Inv s) {fails : Bool} (hs : s.operationStep k fails = some s') :
    Inv s' := by
  unfold Lifecycle.operationStep at hs
  split at hs
  case h_1 | h_5 => cases hs
  case h_2 i hk =>
    cases hs
    refine h.moveOperation hk (fun _ => rfl) (h.core.roster.moveOperation hk rfl (fun _ => rfl)
      (fun _ => rfl) (fun x hx => ?_) (fun _ => id))
    exact congrArg (· + 1) hx
  case h_3 i hk =>
    cases hs
    refine h.moveOperation hk (fun _ => rfl) (h.core.roster.moveOperation hk rfl (fun _ => rfl)
      (fun _ => rfl) (fun x hx => ?_) (fun x hx => ?_))
    · exact congrArg (· - 1) hx
    · exact (congrArg (· + (!fails).toNat) hx).trans (Nat.zero_add _)
  case h_4 i failed hk =>
    cases hs
    exact h.moveOperation hk (fun _ => rfl) (h.core.roster.moveOperation hk rfl (fun _ => rfl)
      (fun _ => rfl) (fun _ => id) (fun _ => id))

theorem startedAt_append_unstarted {entries : List Entry} (he : e.started = false) (i : Nat) :
    startedAt (entries ++ [e]) i = startedAt entries i :=
  any_append_singleton he i

/-- `add` registers a component, which is not started. -/
theorem Inv.add (h : Inv s) {kind : Kind} {component : Option Nat}
    (hs : s.add kind component = .ok s') : Inv s' := by
  unfold Lifecycle.add at hs
  split at hs
  case h_1 => cases hs
  case h_2 identity =>
    split at hs
    case isTrue => cases hs
    case isFalse hstate =>
      rw [ne_eq, Decidable.not_not] at hstate
      split at hs
      case isTrue => cases hs
      case isFalse =>
        cases hs
        obtain ⟨hops, hlen, hfresh, hran, hpending, hdrained⟩ := h.core.fresh (.inl hstate)
        have hread : ∀ i, startedAt (s.entries ++ [⟨kind, identity, false, none⟩]) i =
            startedAt s.entries i := startedAt_append_unstarted rfl
        have hcore : Core { s with
            entries := s.entries ++ [⟨kind, identity, false, none⟩]
            components := s.components ++ [⟨kind, false, 0, 0, 0, false⟩] } := by
          refine ⟨h.core.roster.register hlen kind identity,
            fun _ => ⟨hops, ?_, ?_, hran, hpending, hdrained⟩, fun _ i => ?_,
            h.core.running, h.core.mode, fun hf => ?_, fun i hi => ?_, fun hd => ?_, fun hr => ?_⟩
          · rw [length_append, length_append, hlen]
            rfl
          · simp only [hread]
            exact forall_getElem?_concat hfresh (h.core.created hstate _).symm
          · exact (hread i).trans (h.core.created hstate i)
          · change s.state = .stopped at hf
            simp [hstate] at hf
          · exact h.core.recorded i ((hread i).symm.trans hi)
          · change s.beforeGraphDrained = true at hd
            simp [hdrained] at hd
          · change s.ran = true at hr
            simp [hran] at hr
        refine ⟨hcore, h.gate, fun c hc => ?_⟩
        -- Whoever is inside has left the state in which entries are added.
        refine (h.calls c hc).frame ?_
        have hcall := h.calls c hc
        cases hpc : c.pc with
        | atGate | returned | threw => rfl
        | starting =>
          rw [hpc] at hcall
          exact absurd (hstate.symm.trans hcall.2) (by decide)
        | launching | awaiting =>
          rw [hpc] at hcall
          exact absurd (hstate.symm.trans hcall.state) (by decide)

/-! ### Every run -/

/-- A new lifecycle. -/
theorem inv_init : Inv init where
  core := {
    roster := ⟨fun _ _ h => (nomatch h), fun _ _ h => (nomatch h), fun _ _ h => (nomatch h),
      fun _ _ h => (nomatch h)⟩
    fresh := fun _ => ⟨rfl, rfl, fun _ _ h => (nomatch h), rfl, rfl, rfl⟩
    created := fun _ _ => rfl
    running := fun _ => rfl
    mode := fun h => by rcases h with h | h <;> cases h
    stopped := fun _ => rfl
    recorded := fun _ h => (nomatch h)
    drained := fun h => by cases h
    order := fun h => by cases h }
  gate := rfl
  calls _ h := nomatch h

/-- A step of a call of `start` or of one of the stops. -/
theorem Inv.callStep (h : Inv s) (hs : s.callStep t o = some s') :
    Inv s' := by
  unfold Lifecycle.callStep at hs
  split at hs
  case h_1 => cases hs
  case h_2 c ht =>
    split at hs
    case h_1 critical hpc =>
      split at hs
      case isTrue =>
        -- The call never was inside, and others may be.
        cases hs
        have hout : c.pc.inside = false := by rw [hpc]; rfl
        refine ⟨h.core.ofCalls _ _, ?_,
          forall_mem_set (fun d hd => (h.calls d hd).ofCalls _ _) (by rintro ⟨⟩)⟩
        refine (countP_set_same ht ?_).trans h.gate
        rw [hout]
        rfl
      case isFalse =>
        split at hs
        case isTrue => cases hs
        case isFalse hfree =>
          cases hs
          exact h.enter ht (Bool.not_eq_true _ ▸ hfree) hpc
    case h_2 todo hpc => cases hs; exact h.startStep ht hpc
    case h_3 p entries todo hpc => exact h.launchStep ht hpc hs
    case h_4 p todo failure hpc => exact h.awaitStep ht hpc hs
    case h_5 | h_6 => cases hs

/-- **The invariant holds in every run.** -/
theorem reachable_inv (h : system.Reachable s) : Inv s := by
  refine h.invariant inv_init (fun {s a s'} _ hinv _ hs => ?_)
  cases a with
  | add kind component =>
    obtain rfl : (s.add kind component).toOption.getD s = s' := some.inj hs
    cases hadd : s.add kind component with
    | error => exact hinv
    | ok s' => exact hinv.add hadd
  | call method =>
    cases hs
    refine ⟨hinv.core.ofCalls _ _, ?_,
      forall_mem_concat (fun c hc => (hinv.calls c hc).ofCalls _ _) rfl⟩
    change (s.calls ++ [_]).countP _ = s.busy.toNat
    rw [countP_append, hinv.gate]
    rfl
  | run t o => exact hinv.callStep hs
  | operation k fails => exact hinv.operationStep hs

end ServiceLib.Service
