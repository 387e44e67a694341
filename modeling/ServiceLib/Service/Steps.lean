import ServiceLib.Service.Invariant

namespace ServiceLib.Service

/-!
# Service lifecycle — the phases of a stop

What the rounds of the two loops of `stopPhase` and the ends of phases do to the invariant.
-/

open List Option Lifecycle

variable {s : Lifecycle} {t : Nat} {c : Call} {f : Entry → Entry} {g : Stage}

/-! ### Effects on the entries -/

/-- The core does not look at the calls. -/
theorem Core.ofCalls (h : Core s) (calls : List Call) (busy : Bool) :
    Core { s with calls := calls, busy := busy } :=
  { h with }

/-- The same entries, of which none is started that was not started before. -/
def Shrinks (entries entries' : List Entry) : Prop :=
  ∀ (j : Nat) (e' : Entry), entries'[j]? = some e' →
    ∃ e, entries[j]? = some e ∧ e.kind = e'.kind ∧ (e'.started → e.started)

theorem Shrinks.refl (entries : List Entry) : Shrinks entries entries :=
  fun _ e' he' => ⟨e', he', rfl, id⟩

theorem Shrinks.modify {entries : List Entry} {i : Nat}
    (hkind : ∀ e, (f e).kind = e.kind) (hstarted : ∀ e, (f e).started → e.started) :
    Shrinks entries (entries.modify i f) := by
  intro j e' he'
  rcases getElem?_modify_cases he' with ⟨rfl, e, he, rfl⟩ | ⟨_, he⟩
  · exact ⟨e, he, (hkind e).symm, hstarted e⟩
  · exact ⟨e', he, rfl, id⟩

/-- What stopping does: entries, operations and components change, and `horder` says that the
    operations keep to the order. -/
theorem Core.shrink (h : Core s) (hstate : s.state = .stopping) {entries' : List Entry}
    {operations' : List StopOperation} {components' : List Component}
    (hshrinks : Shrinks s.entries entries')
    (hroster : RosterInv entries' operations' components')
    (horder : s.ran → ∀ (j : Nat) (x : Component), j ∈ operations'.map (·.entry) →
      components'[j]? = some x → ∀ (i : Nat) (e : Entry), s.entries[i]? = some e →
        e.started → x.kind.stage.rank ≤ e.kind.stage.rank) :
    Core { s with entries := entries', operations := operations', components := components' } where
  roster := hroster
  fresh hf := by
    change s.state = .created ∨ s.state = .starting at hf
    rw [hstate] at hf
    rcases hf with hf | hf <;> cases hf
  created hf := by
    change s.state = .created at hf
    simp [hstate] at hf
  running hf := by
    change s.state = .running at hf
    simp [hstate] at hf
  mode := h.mode
  stopped hf := by
    change s.state = .stopped at hf
    simp [hstate] at hf
  recorded j hj := by
    obtain ⟨e', he', hs'⟩ := exists_of_startedAt hj
    obtain ⟨e, he, -, hs⟩ := hshrinks j e' he'
    exact h.recorded j ((startedAt_eq he).trans (hs hs'))
  drained hd := by
    refine ⟨(h.drained hd).1, fun j e' he' hs' => ?_⟩
    obtain ⟨e, he, hkind, hs⟩ := hshrinks j e' he'
    rw [← hkind]
    exact (h.drained hd).2 j e he (hs hs')
  order hran j x hj hx i e' he' hs' := by
    obtain ⟨e, he, hkind, hs⟩ := hshrinks i e' he'
    rw [← hkind]
    exact horder hran j x hj hx i e he (hs hs')

/-- The last phase returned: nothing is started, and the entries are dropped. -/
theorem Core.clear (h : Core s) (hnone : ∀ i, startedAt s.entries i = false) :
    Core { s with rollbackPending := false, state := .stopped, started := [], entries := [] } where
  roster := h.roster.clear hnone
  fresh hf := by rcases hf with hf | hf <;> cases hf
  created hf := by cases hf
  running hf := by cases hf
  mode hf := by rcases hf with hf | hf <;> cases hf
  stopped _ := rfl
  recorded _ hi := by cases hi
  drained _ := ⟨rfl, fun _ _ he => by cases he⟩
  order _ _ _ _ _ _ _ he := by cases he

/-- A stage is only entered by a lifecycle that ran. -/
theorem Core.ran (h : Core s) (hstate : s.state = .stopping)
    (hpending : s.rollbackPending = (Phase.stage g).isRollback) : s.ran := by
  rw [h.mode (.inr hstate), hpending]
  rfl

theorem Core.not_ran (h : Core s) (hstate : s.state = .stopping)
    (hpending : s.rollbackPending) : s.ran = false := by
  rw [h.mode (.inr hstate), hpending]
  rfl

/-! ### The first loop -/

variable {owed todo entries : List Nat} {p : Phase} {i : Nat} {e : Entry}

/-- Every started entry is in the phase of `i` or in a later one. -/
theorem Launching.rank_le (hl : Launching s owed p entries todo) (h : Core s) (hran : s.ran)
    (hi : i ∈ entries) (he : s.entries[i]? = some e) {j : Nat} {e' : Entry}
    (hj : s.entries[j]? = some e') (hs : e'.started) : e.kind.stage.rank ≤ e'.kind.stage.rank := by
  cases p with
  | rollback rest =>
    simp [h.not_ran hl.state hl.pending] at hran
  | stage g =>
    have hg : e.kind.stage = g := hl.lists i hi e he
    rw [hg]
    rcases hl.cover j e' hj hs with hmem | hlater
    · have hg' : e'.kind.stage = g := hl.lists j hmem e' hj
      exact Nat.le_of_eq (congrArg Stage.rank hg'.symm)
    · exact Nat.le_of_lt hlater

/-- Core of a state in which the operation of entry `i` was launched. -/
theorem Launching.core (hl : Launching s owed p entries todo) (h : Core s) (hi : i ∈ entries)
    (he : s.entries[i]? = some e) (hstarted : e.started) (hstopping : e.stopping = none) :
    Core (s.launch i) := by
  refine h.shrink hl.state (Shrinks.modify (fun _ => rfl) (fun _ => id))
    (h.roster.launch he hstarted hstopping) (fun hran j x hj hx k e' he' hs' => ?_)
  rw [map_append, mem_append] at hj
  rcases hj with hj | hj
  · exact h.order hran j x hj hx k e' he' hs'
  · obtain rfl : j = i := mem_singleton.mp hj
    obtain ⟨x', hx', hkind, -⟩ := h.roster.agrees_entry he
    rw [hx] at hx'
    cases hx'
    rw [hkind]
    exact hl.rank_le h hran hi he he' hs'

/-- A round of the first loop that finds its entry stopped, or stopping. -/
theorem Launching.skip (hl : Launching s owed p entries (i :: todo)) (he : s.entries[i]? = some e)
    (hskip : e.started → e.stopping ≠ none) : Launching s owed p entries todo where
  state := hl.state
  pending := hl.pending
  cover := hl.cover
  lists := hl.lists
  nodup := hl.nodup
  rounds j hj := hl.rounds j (mem_cons_of_mem _ hj)
  launched j hj hnot e' he' hs := by
    by_cases hji : j = i
    · subst hji
      rw [he] at he'
      cases he'
      exact hskip hs
    · exact hl.launched j hj (fun hmem => (mem_cons.mp hmem).elim hji hnot) e' he' hs
  owes := hl.owes

/-- A round of the first loop that launches an operation. -/
theorem Launching.launch (hl : Launching s owed p entries (i :: todo)) :
    Launching (s.launch i) owed p entries todo := by
  have hshrinks : Shrinks s.entries (s.launch i).entries :=
    Shrinks.modify (fun _ => rfl) (fun _ => id)
  refine ⟨hl.state, hl.pending, fun j e' he' hs' => ?_, fun j hj e' he' => ?_, hl.nodup,
    fun j hj => hl.rounds j (mem_cons_of_mem _ hj), fun j hj hnot e' he' hs' => ?_,
    fun j hj => ?_⟩
  · obtain ⟨e, he, hkind, hs⟩ := hshrinks j e' he'
    rw [← hkind]
    exact hl.cover j e he (hs hs')
  · obtain ⟨e, he, hkind, -⟩ := hshrinks j e' he'
    rw [← hkind]
    exact hl.lists j hj e he
  · rcases getElem?_modify_cases he' with ⟨rfl, e, -, rfl⟩ | ⟨hne, he⟩
    · exact some_ne_none _
    · exact hl.launched j hj (fun hmem => (mem_cons.mp hmem).elim hne hnot) e' he hs'
  · obtain ⟨e, he, hs, hwhere, hreach, hops⟩ := hl.owes j hj
    have hops' : j ∈ (s.launch i).operations.map (·.entry) := by
      change j ∈ (s.operations ++ [_]).map _
      rw [map_append]
      exact mem_append_left _ hops
    by_cases hij : i = j
    · subst hij
      exact ⟨_, modify_self he, hs, hwhere, hreach, hops'⟩
    · exact ⟨e, (getElem?_modify_ne _ _ hij).trans he, hs, hwhere, hreach, hops'⟩

/-- The first loop is over. -/
theorem Launching.awaiting (hl : Launching s owed p entries []) :
    Awaiting s owed p entries none where
  state := hl.state
  pending := hl.pending
  cover _ := hl.cover
  lists := hl.lists
  nodup := hl.nodup
  launched i hi := hl.launched i hi not_mem_nil
  owes := hl.owes
  failing hf := absurd rfl hf

/-! ### Moving a call -/

theorem CallInv.ofCalls {pc : CallPc} (h : CallInv s owed pc) (calls : List Call) (busy : Bool) :
    CallInv { s with calls := calls, busy := busy } owed pc := by
  cases pc with
  | atGate | returned | threw | starting => exact h
  | launching | awaiting => exact { h with }

section Move

variable {s' : Lifecycle} {c' : Call} {pc : CallPc}

section

variable (h : Inv s) (ht : s.calls[t]? = some c) (hin : c.pc.inside ∨ s.busy = false)
  (hcore : Core s') (hcalls : s'.calls = s.calls)
include h ht hin hcore hcalls

/-- Call `t` goes on to `pc`, in a lifecycle that is now `s'` but for that. -/
theorem Inv.setCall (hbusy : s'.busy = pc.inside) (hcall : CallInv s' c'.owed pc) :
    Inv (s'.setCall t c' pc) := by
  have hset : (s'.setCall t c' pc).calls = s.calls.set t { c' with pc := pc } := by
    rw [Lifecycle.setCall, hcalls]
  exact h.stepCall ht hin hset hbusy (hcore.ofCalls _ _) (hcall.ofCalls _ _)

theorem Inv.leave (hout : pc.inside = false) (hcall : CallInv s' c'.owed pc) :
    Inv (s'.leave t c' pc) := by
  have hset : (s'.leave t c' pc).calls = s.calls.set t { c' with pc := pc } := by
    rw [Lifecycle.leave, Lifecycle.setCall, hcalls]
  exact h.stepCall ht hin hset hout.symm (hcore.ofCalls _ _) (hcall.ofCalls _ _)

theorem Inv.endBefore (howed : c'.owed = []) : Inv (s'.endBefore t c') := by
  unfold Lifecycle.endBefore
  split
  · exact h.leave ht hin hcore hcalls rfl howed
  · exact h.leave ht hin hcore hcalls rfl howed

end

end Move

/-- An exception leaves the section. -/
theorem Inv.fail (h : Inv s) (ht : s.calls[t]? = some c) (hin : c.pc.inside)
    {e : LifecycleError} (he : e.ofStop → c.owed = []) : Inv (s.fail t c e) := by
  unfold Lifecycle.fail
  split
  · exact h.leave ht (.inl hin) h.core rfl rfl (fun hstop => by cases hstop)
  · exact h.leave ht (.inl hin) h.core rfl rfl he

/-- Whoever is inside keeps the gate. -/
theorem Inv.busy_of_inside (h : Inv s) (ht : s.calls[t]? = some c) (hin : c.pc.inside) :
    s.busy := by
  cases hb : s.busy with
  | true => rfl
  | false =>
    have hgate := h.gate
    rw [hb] at hgate
    exact absurd hin (countP_eq_zero.mp hgate c (mem_of_getElem? ht))

/-! ### The first loop, in a call -/

/-- A round of the loop that launches the operations. -/
theorem Inv.launchStep (h : Inv s) (ht : s.calls[t]? = some c)
    {ok : Bool} (hpc : c.pc = .launching p entries todo) {s' : Lifecycle}
    (hs : s.launchStep t c p entries todo ok = some s') : Inv s' := by
  have hin : c.pc.inside := by rw [hpc]; rfl
  have hbusy := h.busy_of_inside ht hin
  have hl : Launching s c.owed p entries todo := h.atPc ht hpc
  unfold Lifecycle.launchStep at hs
  split at hs
  case h_1 =>
    cases hs
    exact h.setCall ht (.inl hin) h.core rfl hbusy hl.awaiting
  case h_2 i todo =>
    split at hs
    case h_1 => cases hs
    case h_2 e he =>
      split at hs
      case isTrue hskip =>
        cases hs
        refine h.setCall ht (.inl hin) h.core rfl hbusy (hl.skip he (fun hstarted hnone => ?_))
        rcases hskip with hskip | hskip
        · simp [hskip] at hstarted
        · simp [hnone] at hskip
      case isFalse hgo =>
        rw [not_or, Bool.not_eq_false, not_isSome_iff_eq_none] at hgo
        split at hs
        · cases hs
          have hi := hl.rounds i mem_cons_self
          exact h.setCall ht (.inl hin) (hl.core h.core hi he hgo.1 hgo.2) rfl hbusy hl.launch
        · cases hs
          exact h.fail ht hin (fun hstop => by cases hstop)

/-! ### The second loop -/

section Await

variable {failure : Option LifecycleError}

/-- A round of the second loop that finds its entry stopped. -/
theorem Awaiting.skip (ha : Awaiting s owed p (i :: todo) failure) (he : s.entries[i]? = some e)
    (hstopped : e.started = false) : Awaiting s owed p todo failure := by
  have hne : ∀ (j : Nat) (e' : Entry), s.entries[j]? = some e' → e'.started → j ≠ i := by
    rintro j e' he' hs rfl
    rw [he] at he'
    cases he'
    simp [hstopped] at hs
  have htail : ∀ j, j ≠ i → j ∈ i :: todo → j ∈ todo := fun j hji hmem =>
    (mem_cons.mp hmem).resolve_left hji
  refine ⟨ha.state, ha.pending, fun hf j e' he' hs => ?_,
    fun j hj => ha.lists j (mem_cons_of_mem _ hj), (nodup_cons.mp ha.nodup).2,
    fun j hj => ha.launched j (mem_cons_of_mem _ hj), fun j hj => ?_, fun hf j hj => ?_⟩
  · exact (ha.cover hf j e' he' hs).imp_left (htail j (hne j e' he' hs))
  · obtain ⟨e', he', hs, hwhere, hreach, hops⟩ := ha.owes j hj
    exact ⟨e', he', hs, hwhere.imp_left (htail j (hne j e' he' hs)), hreach, hops⟩
  · obtain ⟨e', he', hs, -⟩ := ha.owes j hj
    exact htail j (hne j e' he' hs) (ha.failing hf j hj)

/-- A round of the second loop that has waited for entry `i`: it is no longer owed.  `failure'`
    is `failure`, or says that entry `i` failed. -/
theorem Awaiting.settle (ha : Awaiting s owed p (i :: todo) failure) (h : Core s)
    (he : s.entries[i]? = some e) (hstarted : e.started)
    {components' : List Component} {failure' : Option LifecycleError}
    (hfailure : failure' = none → failure = none ∧ (f e).started = false) :
    Awaiting { s with entries := s.entries.modify i f, components := components' }
      (owed.filter (· != i)) p todo failure' := by
  have hnot : i ∉ todo := (nodup_cons.mp ha.nodup).1
  have hother : ∀ j, j ≠ i → (s.entries.modify i f)[j]? = s.entries[j]? := fun j hji =>
    getElem?_modify_ne _ _ (Ne.symm hji)
  have htail : ∀ j, j ≠ i → j ∈ i :: todo → j ∈ todo := fun j hji hmem =>
    (mem_cons.mp hmem).resolve_left hji
  have hrest : ∀ j ∈ todo, ∀ e', (s.entries.modify i f)[j]? = some e' →
      j ∈ i :: todo ∧ s.entries[j]? = some e' := by
    intro j hj e' he'
    have hji : j ≠ i := fun heq => hnot (heq ▸ hj)
    exact ⟨mem_cons_of_mem _ hj, (hother j hji).symm.trans he'⟩
  -- What is owed after this round is another entry, and stands as before.
  have howed : ∀ j ∈ owed.filter (· != i), j ≠ i ∧ Owed s p (i :: todo) j ∧ j ∈ owed := by
    intro j hj
    obtain ⟨hmem, hji⟩ := mem_filter.mp hj
    exact ⟨bne_iff_ne.mp hji, ha.owes j hmem, hmem⟩
  refine ⟨ha.state, ha.pending, fun hnone j e' he' hs => ?_, fun j hj e' he' => ?_,
    (nodup_cons.mp ha.nodup).2, fun j hj e' he' => ?_, fun j hj => ?_, fun hsome j hj => ?_⟩
  · rcases getElem?_modify_cases he' with ⟨rfl, e₀, he₀, rfl⟩ | ⟨hji, he₀⟩
    · rw [he] at he₀
      cases he₀
      simp [(hfailure hnone).2] at hs
    · exact (ha.cover (hfailure hnone).1 j e' he₀ hs).imp_left (htail j hji)
  · obtain ⟨hj', he₀⟩ := hrest j hj e' he'
    exact ha.lists j hj' e' he₀
  · obtain ⟨hj', he₀⟩ := hrest j hj e' he'
    exact ha.launched j hj' e' he₀
  · obtain ⟨hji, ⟨e', he', hs, hwhere, hreach, hops⟩, -⟩ := howed j hj
    exact ⟨e', (hother j hji).trans he', hs, hwhere.imp_left (htail j hji), hreach, hops⟩
  · obtain ⟨hji, ⟨e', he', hs, hwhere, hreach, hops⟩, hmem⟩ := howed j hj
    rcases hwhere with hwhere | hlater
    · exact htail j hji hwhere
    · -- An entry of a later phase has had an operation, so entry `i` cannot be started.
      exfalso
      cases p with
      | rollback rest => exact hreach
      | stage g =>
        obtain ⟨x, hx, hkind, -⟩ := h.roster.agrees_entry he'
        have hle := h.order (h.ran ha.state ha.pending) j x hops hx i e he hstarted
        have hg : e.kind.stage = g := ha.lists i mem_cons_self e he
        rw [hkind, hg] at hle
        exact Nat.not_lt.mpr hle hlater

end Await

/-! ### Between phases -/

section Phases

variable {s' : Lifecycle} {c' : Call}

/-- A stage begins: the started entries are its own or those of later stages. -/
theorem Launching.ofStage (hstate : s.state = .stopping)
    (hpending : s.rollbackPending = false)
    (hcover : ∀ (i : Nat) (e : Entry), s.entries[i]? = some e → e.started →
      g.rank ≤ e.kind.stage.rank)
    (howes : ∀ i ∈ owed, Owed s (.stage g) (s.stageEntries g) i) :
    Launching s owed (.stage g) (s.stageEntries g) (s.stageEntries g) where
  state := hstate
  pending := hpending
  cover i e he hs := by
    rcases Nat.lt_or_eq_of_le (hcover i e he hs) with hlt | heq
    · exact .inr hlt
    · exact .inl (mem_stageEntries.mpr ⟨e, he, (Stage.rank_inj heq).symm⟩)
  lists i hi e he := by
    obtain ⟨e', he', hg⟩ := mem_stageEntries.mp hi
    rw [he] at he'
    cases he'
    exact hg
  nodup := s.nodup_stageEntries g
  rounds _ hi := hi
  launched _ hi hnot := absurd hi hnot
  owes := howes

/-- `stopStarted` goes on with the entries `todo`: nothing else is started. -/
theorem Inv.rollbackFrom (h : Inv s) (ht : s.calls[t]? = some c)
    (hin : c.pc.inside ∨ s.busy = false) (hcore : Core s') (hcalls : s'.calls = s.calls)
    (hbusy : s'.busy) (hstate : s'.state = .stopping) (hpending : s'.rollbackPending)
    (howed : c'.owed = []) {todo : List Nat} (hcover : ∀ i, startedAt s'.entries i → i ∈ todo) :
    Inv (s'.rollbackFrom t c' todo) := by
  cases todo with
  | nil =>
    have hnone : ∀ i, startedAt s'.entries i = false := fun i => by
      cases hi : startedAt s'.entries i with
      | false => rfl
      | true => cases hcover i hi
    unfold Lifecycle.rollbackFrom
    simp only
    split
    · exact h.leave ht hin (hcore.clear hnone) hcalls rfl (fun hstop => by cases hstop)
    · exact h.endBefore ht hin (hcore.clear hnone) hcalls howed
  | cons i rest =>
    refine h.setCall ht hin hcore hcalls hbusy ?_
    refine ⟨hstate, hpending, fun j e he hs => ?_, fun _ _ _ _ => trivial, nodup_singleton i,
      fun _ hj => hj, fun _ hj hnot => absurd hj hnot, fun j hj => ?_⟩
    · rcases mem_cons.mp (hcover j ((startedAt_eq he).trans hs)) with rfl | hrest
      · exact .inl mem_cons_self
      · exact .inr hrest
    · simp [howed] at hj

/-- A `stopPhase` returned normally. -/
theorem Inv.endPhase (h : Inv s) (ht : s.calls[t]? = some c)
    (hpc : c.pc = .awaiting p [] none) : Inv (s.endPhase t c p) := by
  have hin : c.pc.inside := by rw [hpc]; rfl
  have ha : Awaiting s c.owed p [] none := h.atPc ht hpc
  have hlater : ∀ (i : Nat) (e : Entry), s.entries[i]? = some e → e.started →
      p.later i e.kind := fun i e he hs =>
    (ha.cover rfl i e he hs).resolve_left not_mem_nil
  cases p with
  | rollback rest =>
    refine h.rollbackFrom ht (.inl hin) h.core rfl (h.busy_of_inside ht hin) ha.state ha.pending
      (eq_nil_iff_forall_not_mem.mpr (fun i hi => ?_)) (fun i hi => ?_)
    · obtain ⟨_, _, _, _, hreach, _⟩ := ha.owes i hi
      exact hreach
    · obtain ⟨e, he, hs⟩ := exists_of_startedAt hi
      exact hlater i e he hs
  | stage g =>
    cases g with
    | admission =>
      refine h.setCall ht (.inl hin) h.core rfl (h.busy_of_inside ht hin)
        (.ofStage ha.state ha.pending (fun i e he hs => hlater i e he hs) (fun i hi => ?_))
      obtain ⟨e, he, hs, hwhere, hreach, hops⟩ := ha.owes i hi
      have hrank : 0 < e.kind.stage.rank := hwhere.resolve_left not_mem_nil
      have hg : e.kind.stage = .executors :=
        Stage.rank_inj (Nat.le_antisymm hreach hrank)
      exact ⟨e, he, hs, .inl (mem_stageEntries.mpr ⟨e, he, hg⟩), hreach, hops⟩
    | executors =>
      have hcore : Core { s with beforeGraphDrained := true } := by
        refine ⟨h.core.roster, fun hf => ?_, h.core.created, h.core.running, h.core.mode,
          h.core.stopped, h.core.recorded, fun _ => ⟨ha.pending, fun i e he hs => ?_⟩,
          h.core.order⟩
        · have hstate : s.state = .stopping := ha.state
          change s.state = .created ∨ s.state = .starting at hf
          rw [hstate] at hf
          rcases hf with hf | hf <;> cases hf
        · exact Stage.rank_inj (Nat.le_antisymm (Stage.rank_le _) (hlater i e he hs))
      refine h.endBefore ht (.inl hin) hcore rfl
        (eq_nil_iff_forall_not_mem.mpr (fun i hi => ?_))
      -- What is owed was of this stage.
      obtain ⟨e, _, _, hwhere, hreach, _⟩ := ha.owes i hi
      have hrank : 1 < e.kind.stage.rank := hwhere.resolve_left not_mem_nil
      exact Nat.not_lt.mpr hreach hrank
    | sinks =>
      have hbound : ∀ (i : Nat) (kind : Kind), ¬ (Phase.stage .sinks).later i kind :=
        fun _ _ hlt => Nat.not_lt.mpr (Stage.rank_le _) hlt
      have hnone : ∀ i, startedAt s.entries i = false := fun i => by
        cases hi : startedAt s.entries i with
        | false => rfl
        | true =>
          obtain ⟨e, he, hs⟩ := exists_of_startedAt hi
          exact absurd (hlater i e he hs) (hbound i _)
      have hpending : s.rollbackPending = false := ha.pending
      have hcore := h.core.clear hnone
      rw [← hpending] at hcore
      refine h.leave ht (.inl hin) hcore rfl rfl
        (eq_nil_iff_forall_not_mem.mpr (fun i hi => ?_))
      obtain ⟨e, _, _, hwhere, _⟩ := ha.owes i hi
      exact hbound i _ (hwhere.resolve_left not_mem_nil)

end Phases

end ServiceLib.Service
