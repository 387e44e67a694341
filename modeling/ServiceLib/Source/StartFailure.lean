import ServiceLib.Lib.Transition

namespace ServiceLib.Source.Startup

/-!
# Data sources — an endpoint whose start failed

`start` of the local source and of the Kafka source claims the endpoint with a compare-exchange on
`started_` and then takes several steps that can throw.  Only the last of them, the spawn of the
producer's coroutine, stands in a `try` block that gives the claim back; the start of the map of
pending requests does not, and that map cannot be started twice (`restart_leaves_marked`).
`failed_start_unmarked_iff` says which calls give their claim back.
-/

/-- The endpoints whose `start` has this shape. -/
inductive EndpointKind
  | localSource
  | kafka
  deriving DecidableEq, Repr

structure Endpoint where
  kind : EndpointKind
  hasResult : Bool

/-- The errors that leave `start`.  `resource` is what a step throws that allocates or spawns. -/
inductive StartError
  | configNotFound
  | alreadyStarted
  | storeAlreadyStarted
  | storeStopped
  | resource
  deriving DecidableEq, Repr

/-- What a call of `start` meets: the answer of `endpointConfig`, none when it throws, and which of
    the steps after it throw. -/
structure StepOutcomes where
  enabled : Option Bool := some true
  /-- Kafka: `connectorConfig` or `EnsureKafkaTopic`. -/
  topicFails : Bool := false
  /-- The allocation of a new `requestStopSource_`. -/
  stopSourceFails : Bool := false
  /-- Kafka: `withExternalCancellation`. -/
  cancellationFails : Bool := false
  /-- The spawn of the map's timer. -/
  timerFails : Bool := false
  /-- The spawn of the producer's coroutine. -/
  spawnFails : Bool := false

/-! ### The map of pending requests -/

/-- `RotatingMap::State`. -/
inductive MapState
  | created
  | running
  | stopping
  | stopped
  | failed
  deriving DecidableEq, Repr

/-- `RotatingMap::start`. -/
def MapState.start (m : MapState) (timerFails : Bool) : Except StartError Unit × MapState :=
  match m with
  | .created => if timerFails then (.error .resource, .failed) else (.ok (), .running)
  | .running | .failed => (.error .storeAlreadyStarted, m)
  | .stopping | .stopped => (.error .storeStopped, m)

/-- `RotatingMap::stop`: it stores `kStopped`, or it waits until another `stop` has done so.
    Nothing in it throws. -/
def MapState.stop (_ : MapState) : MapState := .stopped

/-- `~RotatingMap` aborts on a map that was started and not stopped. -/
def MapState.aborts : MapState → Bool
  | .created | .stopped => false
  | _ => true

/-! ### Starting and stopping an endpoint -/

structure State where
  started : Bool
  /-- Kafka: `started_` of the endpoint around the implementation. -/
  outerStarted : Bool
  pending : MapState
  /-- History: a `start` took the endpoint up and returned, and no `stop` was called since. -/
  live : Bool
  deriving DecidableEq, Repr

namespace State

def init : State where
  started := false
  outerStarted := false
  pending := .created
  live := false

/-- `if (hasResult_) pending_.start(context)`. -/
def startPending (P : Endpoint) (s : State) (o : StepOutcomes) : Except StartError Unit × State :=
  if P.hasResult then
    ((s.pending.start o.timerFails).1, { s with pending := (s.pending.start o.timerFails).2 })
  else (.ok (), s)

/-- `if (hasResult_) pending_.stop(context)`. -/
def stopPending (P : Endpoint) (s : State) : State :=
  if P.hasResult then { s with pending := s.pending.stop } else s

/-- `start` from its compare-exchange on. -/
def claimStart (P : Endpoint) (s : State) (o : StepOutcomes) : Except StartError Unit × State :=
  if s.started then (.error .alreadyStarted, s)
  else if o.stopSourceFails then (.error .resource, { s with started := true })
  else if P.kind = .kafka ∧ o.cancellationFails then (.error .resource, { s with started := true })
  else
    match startPending P { s with started := true } o with
    | (.error e, s₁) => (.error e, s₁)
    | (.ok (), s₁) =>
      -- The `try` block, with its handler.
      if o.spawnFails then (.error .resource, { s₁.stopPending P with started := false })
      else (.ok (), { s₁ with live := true })

/-- `start`: what the endpoint is configured to, and the claim. -/
def start (P : Endpoint) (s : State) (o : StepOutcomes) : Except StartError Unit × State :=
  match o.enabled with
  | none => (.error .configNotFound, s)
  | some false => (.ok (), s)
  | some true =>
    match P.kind with
    | .localSource => s.claimStart P o
    | .kafka =>
      if o.topicFails then (.error .resource, s)
      else
        match s.claimStart P o with
        | (.error e, s₁) => (.error e, s₁)
        | (.ok (), s₁) => (.ok (), { s₁ with outerStarted := true })

/-- `stop` of the endpoint that has the flag `started_` of its own.  An error of the producer's
    `stop` is swallowed. -/
def release (P : Endpoint) (s : State) : State :=
  if s.started then { s.stopPending P with started := false } else s

/-- `stop`: the Kafka endpoint passes it on only if its own `start` came to an end. -/
def stop (P : Endpoint) (s : State) : State :=
  match P.kind with
  | .localSource => { s.release P with live := false }
  | .kafka =>
    if s.outerStarted then { s.release P with outerStarted := false, live := false }
    else { s with live := false }

/-- The destructors of the endpoint and of its map abort. -/
def aborts (s : State) : Bool := s.started || s.pending.aborts

end State

inductive Action
  | start (o : StepOutcomes)
  | stop

/-- Sequences of calls of `start` and `stop`. -/
def system (P : Endpoint) : System State Action where
  init := State.init
  step s a := match a with
    | .start o => some (s.start P o).2
    | .stop => some (s.stop P)

/-! ### When a failed start gives its claim back -/

/-- A call that gets as far as the compare-exchange. -/
def StepOutcomes.claims (P : Endpoint) (o : StepOutcomes) : Bool :=
  o.enabled == some true && !(P.kind == .kafka && o.topicFails)

/-- Nothing throws between the claim and the `try` block: the stop source and the context are
    allocated, and a map of pending requests has not been started before and gets its timer. -/
def Clear (P : Endpoint) (s : State) (o : StepOutcomes) : Prop :=
  o.stopSourceFails = false ∧ (P.kind = .kafka → o.cancellationFails = false) ∧
    (P.hasResult → s.pending = .created ∧ o.timerFails = false)

/-- A call that claims the endpoint meets nothing that throws before the `try` block. -/
def Covered (P : Endpoint) (s : State) (o : StepOutcomes) : Prop :=
  s.started = false → o.claims P → Clear P s o

/-- A call on an endpoint that is not marked leaves it so if it throws. -/
def UnmarkedOnFailure (P : Endpoint) (s : State) (o : StepOutcomes) : Prop :=
  s.started = false → ∀ e, (s.start P o).1 = .error e → (s.start P o).2.started = false

variable {P : Endpoint} {s s' : State} {o : StepOutcomes}

theorem MapState.start_created : MapState.created.start false = (.ok (), .running) := rfl

/-- The map starts once only, and only with its timer. -/
theorem MapState.start_error {m : MapState} {fails : Bool} (h : ¬(m = .created ∧ fails = false)) :
    ∃ e, (m.start fails).1 = .error e := by
  cases m with
  | created =>
    cases fails with
    | false => exact absurd ⟨rfl, rfl⟩ h
    | true => exact ⟨_, rfl⟩
  | running | stopping | stopped | failed => exact ⟨_, rfl⟩

namespace State

/-- A clear start is decided by the spawn, whose failure takes everything back. -/
theorem claimStart_of_clear (hs : s.started = false) (h : Clear P s o) :
    s.claimStart P o = if o.spawnFails then (.error .resource, s.stopPending P) else
      (.ok (), { s with started := true, live := true,
                        pending := if P.hasResult then .running else s.pending }) := by
  obtain ⟨started, outer, pending, live⟩ := s
  obtain rfl : started = false := hs
  obtain ⟨hsource, hcancel, hpending⟩ := h
  have hcontext : ¬(P.kind = .kafka ∧ o.cancellationFails) := by
    rintro ⟨hk, hf⟩
    exact absurd ((hcancel hk).symm.trans hf) Bool.false_ne_true
  unfold claimStart
  rw [if_neg Bool.false_ne_true, hsource, if_neg Bool.false_ne_true, if_neg hcontext]
  cases hr : P.hasResult with
  | false => simp [startPending, stopPending, hr]
  | true =>
    obtain ⟨hcreated, htimer⟩ := hpending hr
    obtain rfl : pending = .created := hcreated
    simp [startPending, stopPending, MapState.stop, hr, htimer, MapState.start_created]

/-- A start that is not clear throws in front of the `try` block and keeps its claim. -/
theorem claimStart_of_not_clear (hs : s.started = false) (h : ¬Clear P s o) :
    ∃ e, (s.claimStart P o).1 = .error e ∧ (s.claimStart P o).2.started := by
  unfold claimStart
  rw [if_neg (by rw [hs]; exact Bool.false_ne_true)]
  split
  · exact ⟨_, rfl, rfl⟩
  rename_i hsource
  split
  · exact ⟨_, rfl, rfl⟩
  rename_i hcontext
  -- What is left to go wrong is the start of the map.
  have hpending : ¬(P.hasResult → s.pending = .created ∧ o.timerFails = false) := by
    refine fun hp => h ⟨Bool.eq_false_iff.mpr hsource, fun hk => ?_, hp⟩
    exact Bool.eq_false_iff.mpr (fun hf => hcontext ⟨hk, hf⟩)
  obtain ⟨hr, hmap⟩ := Classical.not_imp.mp hpending
  obtain ⟨e, he⟩ := MapState.start_error hmap
  refine ⟨e, ?_, ?_⟩ <;> simp [startPending, hr, he]

/-- The Kafka endpoint's own checks come before the claim, its own flag after it. -/
theorem start_of_claims (h : o.claims P) :
    s.start P o = ((s.claimStart P o).1, { (s.claimStart P o).2 with
      outerStarted := (P.kind == .kafka && (s.claimStart P o).1.isOk) ||
        (s.claimStart P o).2.outerStarted }) := by
  unfold StepOutcomes.claims at h
  unfold start
  cases he : o.enabled with
  | none => simp [he] at h
  | some b =>
    cases b with
    | false => simp [he] at h
    | true =>
      cases hk : P.kind with
      | localSource => rfl
      | kafka =>
        have ht : o.topicFails = false := by simpa [he, hk] using h
        dsimp only
        rw [ht, if_neg Bool.false_ne_true]
        split <;> rename_i hc <;> rw [hc] <;> rfl

/-- A call that does not get to the claim leaves the endpoint alone, whether it throws or not. -/
theorem start_of_not_claims (h : o.claims P = false) :
    (s.start P o).2 = s ∧ (s.start P o).1 ≠ .error .alreadyStarted := by
  unfold StepOutcomes.claims at h
  unfold start
  split
  · exact ⟨rfl, by rintro ⟨⟩⟩
  · exact ⟨rfl, by rintro ⟨⟩⟩
  next he =>
    cases hk : P.kind with
    | localSource => simp [he, hk] at h
    | kafka =>
      have ht : o.topicFails := by simpa [he, hk] using h
      simp [ht]

/-- A covered call returns with the endpoint marked, or it leaves the flags as they were; a call on
    a marked endpoint is refused. -/
theorem start_covered (h : Covered P s o) :
    (s.start P o).2 = s ∨
      s.started = false ∧ (s.start P o).2 = s.stopPending P ∨
      s.started = false ∧ (s.start P o).1 = .ok () ∧ (s.start P o).2 = { s with
        started := true, live := true, outerStarted := P.kind == .kafka || s.outerStarted,
        pending := if P.hasResult then .running else s.pending } := by
  cases hclaims : o.claims P with
  | false => exact .inl (start_of_not_claims hclaims).1
  | true =>
    rw [start_of_claims hclaims]
    cases hs : s.started with
    | true =>
      left
      unfold claimStart
      rw [if_pos hs]
      simp [Except.isOk, Except.toBool]
    | false =>
      right
      rw [claimStart_of_clear hs (h hs hclaims)]
      cases o.spawnFails with
      | true =>
        left
        refine ⟨rfl, ?_⟩
        simp [Except.isOk, Except.toBool]
      | false =>
        right
        refine ⟨rfl, rfl, ?_⟩
        simp [Except.isOk, Except.toBool]

end State

theorem stopPending_started : (s.stopPending P).started = s.started := by
  unfold State.stopPending
  split <;> rfl

/-- **A failed start gives its claim back exactly if it is covered.** -/
theorem unmarkedOnFailure_iff_covered : UnmarkedOnFailure P s o ↔ Covered P s o := by
  constructor
  · intro h hs hclaims
    by_contra hclear
    obtain ⟨e, he, hmarked⟩ := State.claimStart_of_not_clear hs hclear
    have hstart := State.start_of_claims (s := s) hclaims
    have hunmarked := h hs e (by rw [hstart, he])
    rw [hstart] at hunmarked
    exact absurd (hunmarked.symm.trans hmarked) Bool.false_ne_true
  · intro h hs e he
    rcases State.start_covered h with hsame | ⟨-, hback⟩ | ⟨-, hok, -⟩
    · rw [hsame, hs]
    · rw [hback, stopPending_started, hs]
    · simp [hok] at he

/-! ### Sequences of calls -/

/-- What holds between two calls of a covered run. -/
structure Inv (P : Endpoint) (s : State) : Prop where
  marked : s.started = s.live
  outer : P.kind = .kafka → s.outerStarted = s.started
  pending : s.started = false ∨ P.hasResult = false → s.pending.aborts = false

/-- The condition on a run: its starts are covered. -/
def CoveredCall (P : Endpoint) (s : State) : Action → Prop
  | .start o => Covered P s o
  | .stop => True

theorem Inv.stopPending (h : Inv P s) : Inv P (s.stopPending P) := by
  unfold State.stopPending
  split
  · exact { h with pending := fun _ => rfl }
  · exact h

theorem Inv.start (h : Inv P s) (hc : Covered P s o) : Inv P (s.start P o).2 := by
  rcases State.start_covered hc with hsame | ⟨-, hback⟩ | ⟨hs, -, hup⟩
  · rw [hsame]
    exact h
  · rw [hback]
    exact h.stopPending
  · rw [hup]
    refine ⟨rfl, fun hk => by simp [hk], fun hr => ?_⟩
    have hr : P.hasResult = false := hr.resolve_left (by simp)
    simp only [hr]
    exact h.pending (.inl hs)

/-- Releasing an endpoint stops its map, whether it had been marked or not. -/
theorem Inv.release (h : Inv P s) :
    (s.release P).started = false ∧ (s.release P).pending.aborts = false := by
  unfold State.release
  split
  · refine ⟨rfl, ?_⟩
    unfold State.stopPending
    split
    · rfl
    next hr =>
      exact h.pending (.inr (Bool.eq_false_iff.mpr hr))
  next hs =>
    have hs := Bool.eq_false_iff.mpr hs
    exact ⟨hs, h.pending (.inl hs)⟩

theorem Inv.stop (h : Inv P s) : Inv P (s.stop P) := by
  obtain ⟨hs, hpending⟩ := h.release
  unfold State.stop
  cases hk : P.kind with
  | localSource => exact ⟨hs, (by rw [hk]; rintro ⟨⟩), fun _ => hpending⟩
  | kafka =>
    dsimp only
    split
    · exact ⟨hs, fun _ => hs.symm, fun _ => hpending⟩
    · -- A `stop` that is not passed on finds an endpoint that is not marked.
      rename_i houter
      have hs : s.started = false := (h.outer hk).symm.trans (Bool.eq_false_iff.mpr houter)
      exact { h with marked := hs }

theorem reachable_inv (h : (system P).ReachableIf (CoveredCall P) s) : Inv P s := by
  refine h.invariant (I := Inv P) ⟨rfl, fun _ => rfl, fun _ => rfl⟩
    (fun {s a s'} _ hi hok hs => ?_)
  cases a with
  | start o => cases hs; exact hi.start hok
  | stop => cases hs; exact hi.stop

theorem startPending_ne_alreadyStarted : (s.startPending P o).1 ≠ .error .alreadyStarted := by
  unfold State.startPending
  split
  · cases s.pending <;> cases o.timerFails <;> rintro ⟨⟩
  · rintro ⟨⟩

/-- An endpoint that is not marked does not refuse a start. -/
theorem start_ne_alreadyStarted (hs : s.started = false) :
    (s.start P o).1 ≠ .error .alreadyStarted := by
  cases hclaims : o.claims P with
  | false => exact (State.start_of_not_claims hclaims).2
  | true =>
    rw [State.start_of_claims hclaims]
    have hmap := startPending_ne_alreadyStarted (P := P) (s := { s with started := true }) (o := o)
    unfold State.claimStart
    rw [if_neg (by rw [hs]; exact Bool.false_ne_true)]
    split
    · rintro ⟨⟩
    split
    · rintro ⟨⟩
    split
    next hstart =>
      rw [hstart] at hmap
      exact hmap
    · split <;> rintro ⟨⟩

/-- **A failed start leaves the endpoint not started exactly under the condition.**  A call that
    throws gives its claim back if and only if it is covered; and in a sequence of covered starts
    and of stops an endpoint is marked only while it runs, so that after a start that threw the
    destructors do not abort and a later start is not refused. -/
theorem failed_start_unmarked_iff (P : Endpoint) :
    (∀ s o, UnmarkedOnFailure P s o ↔ Covered P s o) ∧
      ∀ s, (system P).ReachableIf (CoveredCall P) s →
        s.started = s.live ∧
          (s.live = false →
            s.aborts = false ∧ ∀ o, (s.start P o).1 ≠ .error .alreadyStarted) := by
  refine ⟨fun s o => unmarkedOnFailure_iff_covered, fun s hr => ?_⟩
  have hi := reachable_inv hr
  refine ⟨hi.marked, fun hlive => ?_⟩
  have hs : s.started = false := hi.marked.trans hlive
  refine ⟨?_, fun o => start_ne_alreadyStarted hs⟩
  unfold State.aborts
  rw [hs, hi.pending (.inl hs)]
  rfl

/-- A restart of an endpoint with results: the map was stopped with the endpoint, its start throws,
    and the endpoint stays marked.  The next start is refused and the destructor aborts; a Kafka
    endpoint does not even pass a `stop` on. -/
theorem restart_leaves_marked :
    ((system ⟨.localSource, true⟩).run [.start {}, .stop, .start {}]).map
        (fun s => (s.started, s.live, s.aborts, (s.start ⟨.localSource, true⟩ {}).1)) =
      some (true, false, true, .error .alreadyStarted) ∧
    ((system ⟨.kafka, true⟩).run [.start {}, .stop, .start {}, .stop]).map
        (fun s => (s.started, s.live, s.aborts, (s.start ⟨.kafka, true⟩ {}).1)) =
      some (true, false, true, .error .alreadyStarted) :=
  ⟨rfl, rfl⟩

end ServiceLib.Source.Startup
