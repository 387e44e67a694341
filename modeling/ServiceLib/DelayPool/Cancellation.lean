import ServiceLib.DelayPool.Sleep

namespace ServiceLib.DelayPool

/-!
# Delay pool — no cancellation is lost

A cancellation callback and the `delay` call it races with agree through two flags: the
callback sets `cancelRequested` and then reads `admitted`, the call sets `admitted` and then
reads `cancelRequested`.  Whoever comes second publishes the task, and `cancellationPublished`
makes it only one of them.
-/

open List State

/-! ### What a cancellation depends on -/

/-- A call, as far as its cancellation is concerned. -/
structure Progress where
  pc : DelayPc
  admitted : Bool
  cancelRequested : Bool
  published : Bool
  deriving DecidableEq

def DelayCall.progress (c : DelayCall) : Progress :=
  ⟨c.pc, c.admitted, c.cancelRequested, c.cancellationPublished⟩

def State.progress (s : State) (t : TaskId) : Option Progress :=
  s.calls[t]?.map DelayCall.progress

variable {c c' : DelayCall} {t i : TaskId} {s s' : State} {x : Canceller} {k : Nat}

theorem progress_eq (hc : s.calls[t]? = some c) : s.progress t = some c.progress := by
  rw [progress, hc]
  rfl

theorem pcOf_eq_progress (s : State) (t : TaskId) : s.pcOf t = (s.progress t).map Progress.pc := by
  unfold pcOf progress
  cases s.calls[t]? <;> rfl

section

variable (hc : s.calls[i]? = some c)
include hc

/-- The record of call `i` becomes `c'`. -/
theorem progress_set_self (hcalls : s'.calls = s.calls.set i c') :
    s'.progress i = some c'.progress :=
  progress_eq (hcalls ▸ getElem?_set_some hc c')

theorem progress_setCall (c' : DelayCall) : (s.setCall i c').progress i = some c'.progress :=
  progress_set_self hc rfl

theorem progress_set (hcalls : s'.calls = s.calls.set i c')
    (h : t ≠ i ∨ c'.progress = c.progress) : s'.progress t = s.progress t := by
  rw [progress, hcalls]
  exact map_getElem?_set hc h

end

theorem SchedulerMove.progress (hm : SchedulerMove s s') (t : TaskId) :
    s'.progress t = s.progress t :=
  hm.map_calls (fun _ _ => rfl) t

/-! ### Publishers -/

/-- The call of task `t`, or a cancellation callback, is at step `p` of
    `publishCancellation`. -/
def State.publisher (s : State) (t : TaskId) (p : PublishPc) : Prop :=
  s.pcOf t = some (.publishing p) ∨ ⟨t, .publishing p⟩ ∈ s.cancellers

/-- Somebody is on the way to exchange `cancellationPublished` of task `t`. -/
def State.willExchange (s : State) (t : TaskId) : Prop :=
  s.pcOf t = some .rechecking ∨ ⟨t, .checkAdmitted⟩ ∈ s.cancellers ∨ s.publisher t .exchanging

/-- Task `t` is about to be published: the exchange is still to be won, or its winner has yet
    to push. -/
def State.aboutToPublish (s : State) (t : TaskId) : Prop :=
  ((∃ p, s.progress t = some p ∧ p.published = false) ∧ s.willExchange t) ∨
    s.publisher t .pushing

/-- The tasks the scheduler took from the inbox and has yet to move. -/
def SchedulerPc.drained : SchedulerPc → List TaskId
  | .draining rest | .finalDraining rest => rest
  | _ => []

/-- The timer of `t`, if there is one, is at the front; or the clock has reached it and the
    scheduler is awake. -/
def State.Settled (s : State) (t : TaskId) : Prop :=
  ∀ key, (key, t) ∈ s.timers →
    key = timeMin ∨ (key ≤ s.world.now ∧ s.scheduler.sleeps = false)

/-- What becomes of the cancellation of task `t`. -/
inductive Covered (s : State) (t : TaskId) : Prop
  | publish (h : s.aboutToPublish t)
  | inbox (h : t ∈ s.inbox)
  | drained (h : t ∈ s.scheduler.drained)
  | settled (h : s.Settled t)

/-- Callbacks that have requested the cancellation. -/
def CancelPc.requested : CancelPc → Bool
  | .checkAdmitted | .publishing _ => true
  | _ => false

def CancelPc.publishes : CancelPc → Bool
  | .publishing _ => true
  | _ => false

def DelayPc.publishes : DelayPc → Bool
  | .publishing _ => true
  | _ => false

/-- Program counters behind the store to `admitted`. -/
def DelayPc.admitted : DelayPc → Bool
  | .rechecking | .publishing _ | .signalling | .leaving | .returned => true
  | _ => false

/-- Program counters that only a call with a timer reaches. -/
def DelayPc.rechecks : DelayPc → Bool
  | .rechecking | .publishing _ => true
  | _ => false

theorem DelayPc.rechecks_of_publishes {pc : DelayPc} (h : pc.publishes) : pc.rechecks := by
  cases pc <;> first | rfl | cases h

/-! ### The invariant of one task -/

/-- The flags of a task agree with the program counter of its call. -/
structure Progress.Consistent (p : Progress) : Prop where
  admitted : p.admitted → p.pc.admitted
  stored : p.pc.rechecks → p.admitted
  publishing : p.pc.publishes → p.cancelRequested
  published : p.published → p.admitted ∧ p.cancelRequested

/-- What holds for the cancellation of task `t`. -/
structure CancelInvAt (s : State) (t : TaskId) : Prop where
  consistent : ∀ p, s.progress t = some p → p.Consistent
  requested : ∀ pc, ⟨t, pc⟩ ∈ s.cancellers → pc.requested →
    ∃ p, s.progress t = some p ∧ p.cancelRequested ∧
      (pc.publishes → p.admitted)
  covered : ∀ p, s.progress t = some p → p.admitted → p.cancelRequested →
    Covered s t

/-- No cancellation is lost. -/
def CancelInv (s : State) : Prop := ∀ t, CancelInvAt s t

theorem init_cancelInv : CancelInv init := by
  intro t
  constructor <;> simp [init, progress]

/-- Nobody has won the exchange for task `t` yet. -/
def State.Unpublished (s : State) (t : TaskId) : Prop :=
  ∃ p, s.progress t = some p ∧ p.published = false

/-- **Whoever is about to publish the task** still is, or what it did instead covers the
    request. -/
theorem State.aboutToPublish.moved (h : s.aboutToPublish t)
    (hnot : s.Unpublished t → s'.Unpublished t)
    (hcall : ∀ pc, s.pcOf t = some pc → s'.pcOf t = some pc ∨
      (s.Unpublished t → pc = .rechecking ∨ pc = .publishing .exchanging → Covered s' t) ∧
        (pc = .publishing .pushing → Covered s' t))
    (hcan : ∀ pc, pc.requested → ⟨t, pc⟩ ∈ s.cancellers → ⟨t, pc⟩ ∈ s'.cancellers ∨
      (s.Unpublished t → pc = .checkAdmitted ∨ pc = .publishing .exchanging → Covered s' t) ∧
        (pc = .publishing .pushing → Covered s' t)) : Covered s' t := by
  rcases h with ⟨hun, hpc | hmem | hpc | hmem⟩ | hpc | hmem
  · rcases hcall _ hpc with hpc | ⟨hex, -⟩
    · exact .publish (.inl ⟨hnot hun, .inl hpc⟩)
    · exact hex hun (.inl rfl)
  · rcases hcan _ rfl hmem with hmem | ⟨hex, -⟩
    · exact .publish (.inl ⟨hnot hun, .inr (.inl hmem)⟩)
    · exact hex hun (.inl rfl)
  · rcases hcall _ hpc with hpc | ⟨hex, -⟩
    · exact .publish (.inl ⟨hnot hun, .inr (.inr (.inl hpc))⟩)
    · exact hex hun (.inr rfl)
  · rcases hcan _ rfl hmem with hmem | ⟨hex, -⟩
    · exact .publish (.inl ⟨hnot hun, .inr (.inr (.inr hmem))⟩)
    · exact hex hun (.inr rfl)
  · rcases hcall _ hpc with hpc | ⟨-, hpush⟩
    · exact .publish (.inr (.inl hpc))
    · exact hpush rfl
  · rcases hcan _ rfl hmem with hmem | ⟨-, hpush⟩
    · exact .publish (.inr (.inr hmem))
    · exact hpush rfl

/-- **Frame rule.**  A task whose call and callbacks did not move stays as it is, as long as
    its request stays covered. -/
theorem CancelInvAt.frame (h : CancelInvAt s t) (hprog : s'.progress t = s.progress t)
    (hcan : ∀ pc, pc.requested → (⟨t, pc⟩ ∈ s'.cancellers ↔ ⟨t, pc⟩ ∈ s.cancellers))
    (hinbox : t ∈ s.inbox → Covered s' t) (hdrained : t ∈ s.scheduler.drained → Covered s' t)
    (hsettled : s.Settled t → Covered s' t) : CancelInvAt s' t where
  consistent := by rw [hprog]; exact h.consistent
  requested := by
    intro pc hmem hreq
    rw [hprog]
    exact h.requested pc ((hcan pc hreq).mp hmem) hreq
  covered := by
    intro p hp hadm hreq
    rw [hprog] at hp
    cases h.covered p hp hadm hreq with
    | publish hpub =>
      refine hpub.moved (fun ⟨p, hp, hnot⟩ => ⟨p, hprog.trans hp, hnot⟩) (fun pc hpc => .inl ?_)
        (fun pc hr hmem => .inl ((hcan pc hr).mpr hmem))
      rwa [pcOf_eq_progress, hprog, ← pcOf_eq_progress]
    | inbox hin => exact hinbox hin
    | drained hd => exact hdrained hd
    | settled hset => exact hsettled hset

/-- The parts of a state that the scheduler and the clock decide are the same, and the inbox
    has not shrunk. -/
structure SameQueues (s s' : State) : Prop where
  timers : s'.timers = s.timers
  scheduler : s'.scheduler = s.scheduler
  now : s.world.now ≤ s'.world.now
  inbox : ∀ u ∈ s.inbox, u ∈ s'.inbox

theorem sameQueues_of_eq (htimers : s'.timers = s.timers := by rfl)
    (hsched : s'.scheduler = s.scheduler := by rfl) (hworld : s'.world = s.world := by rfl)
    (hinbox : s'.inbox = s.inbox := by rfl) : SameQueues s s' :=
  ⟨htimers, hsched, Int.le_of_eq (congrArg World.now hworld.symm),
    by rw [hinbox]; exact fun _ hu => hu⟩

theorem SameQueues.settled (h : SameQueues s s') (hset : s.Settled t) : s'.Settled t := by
  intro key hkey
  rw [h.timers] at hkey
  rw [h.scheduler]
  rcases hset key hkey with hmin | ⟨hdue, hawake⟩
  · exact .inl hmin
  · exact .inr ⟨Int.le_trans hdue h.now, hawake⟩

/-- In a step that leaves the queues alone, only a publication in progress needs a look. -/
theorem Covered.quiet (h : Covered s t) (hq : SameQueues s s')
    (hpub : s.aboutToPublish t → Covered s' t) : Covered s' t := by
  cases h with
  | publish habout => exact hpub habout
  | inbox hin => exact .inbox (hq.inbox t hin)
  | drained hd => exact .drained (by rw [hq.scheduler]; exact hd)
  | settled hset => exact .settled (hq.settled hset)

/-- A task that nobody moved, in a step that leaves the queues alone. -/
theorem CancelInvAt.quiet (h : CancelInvAt s t) (hprog : s'.progress t = s.progress t := by rfl)
    (hcan : ∀ pc, pc.requested → (⟨t, pc⟩ ∈ s'.cancellers ↔ ⟨t, pc⟩ ∈ s.cancellers) := by
      intros; rfl)
    (hq : SameQueues s s' := by exact sameQueues_of_eq) : CancelInvAt s' t :=
  h.frame hprog hcan (fun hin => .inbox (hq.inbox t hin))
    (fun hd => .drained (by rw [hq.scheduler]; exact hd)) (fun hset => .settled (hq.settled hset))

/-! ### Steps of a delay call -/

/-- The record of task `t` becomes `c'`; a callback of it was there before or fits the record. -/
theorem CancelInvAt.update (h : CancelInvAt s t) (hc : s.calls[t]? = some c)
    (hprog : s'.progress t = some c'.progress) (hcons : c'.progress.Consistent)
    (hmono : (c.cancelRequested → c'.cancelRequested) ∧
      (c.admitted → c'.admitted))
    (hcan : ∀ pc, ⟨t, pc⟩ ∈ s'.cancellers → pc.requested → ⟨t, pc⟩ ∈ s.cancellers ∨
      (c'.cancelRequested ∧ (pc.publishes → c'.admitted)))
    (hcov : c'.admitted → c'.cancelRequested → Covered s' t) :
    CancelInvAt s' t := by
  refine ⟨?_, ?_, ?_⟩
  · intro p hp
    cases hprog.symm.trans hp
    exact hcons
  · intro pc hmem hreq
    rcases hcan pc hmem hreq with hmem | ⟨hcr, hpa⟩
    · obtain ⟨p, hp, hcr, hpa⟩ := h.requested pc hmem hreq
      cases (progress_eq hc).symm.trans hp
      exact ⟨_, hprog, hmono.1 hcr, fun hpub => hmono.2 (hpa hpub)⟩
    · exact ⟨_, hprog, hcr, hpa⟩
  · intro p hp
    cases hprog.symm.trans hp
    exact hcov

/-- Before `admitted` is stored, nothing can have been published. -/
theorem Progress.Consistent.unadmitted {p : Progress} (h : p.Consistent)
    (hpc : p.pc.admitted = false) : p.admitted = false ∧ p.published = false := by
  have hadm : p.admitted = false := by
    cases hadm : p.admitted with
    | false => rfl
    | true => simp [h.admitted hadm] at hpc
  refine ⟨hadm, ?_⟩
  cases hpub : p.published with
  | false => rfl
  | true => simp [(h.published hpub).1] at hadm

/-- A call moves on before `admitted` is stored, whatever it does to the rest of the pool. -/
theorem CancelInvAt.early (h : CancelInvAt s i) (c' : DelayCall) (hc : s.calls[i]? = some c)
    {pc : DelayPc} (hpc : c.pc = pc) (hcalls : s'.calls = s.calls.set i c' := by rfl)
    (hcan : s'.cancellers = s.cancellers := by rfl) (hnot : pc.admitted = false := by rfl)
    (hpc' : c'.pc.rechecks = false := by rfl) (hadm : c'.admitted = c.admitted := by rfl)
    (hpub : c'.cancellationPublished = c.cancellationPublished := by rfl)
    (hmono : c.cancelRequested → c'.cancelRequested := by simp) : CancelInvAt s' i := by
  obtain ⟨hnot, hnotpub⟩ := (h.consistent _ (progress_eq hc)).unadmitted
    (by rw [← hpc] at hnot; exact hnot)
  have hnot' : c'.admitted = false := hadm.trans hnot
  have hnotpub' : c'.cancellationPublished = false := hpub.trans hnotpub
  have hcons : c'.progress.Consistent := by
    refine ⟨fun hf => ?_, fun hf => ?_, fun hf => ?_, fun hf => ?_⟩
    · simp [show c'.progress.admitted = false from hnot'] at hf
    · simp [show c'.progress.pc.rechecks = false from hpc'] at hf
    · have hre : c'.pc.rechecks := DelayPc.rechecks_of_publishes hf
      simp [hpc'] at hre
    · simp [show c'.progress.published = false from hnotpub'] at hf
  refine h.update hc (progress_set_self hc hcalls) hcons ⟨hmono, fun ha => ?_⟩
    (fun _ hmem _ => .inl (hcan ▸ hmem)) (fun ha => ?_)
  · simp [show c.admitted = false from hnot] at ha
  · simp [hnot'] at ha

/-- A call moves on behind the store to `admitted`: the request stays covered if the call was
    not itself the one to publish it. -/
theorem Covered.setCall (h : Covered s i) (hc : s.calls[i]? = some c)
    (hcalls : s'.calls = s.calls.set i c') (hcan : s'.cancellers = s.cancellers)
    (hq : SameQueues s s') (hpub : c'.cancellationPublished = c.cancellationPublished)
    (hex : c.cancellationPublished = false →
      c.pc = .rechecking ∨ c.pc = .publishing .exchanging → Covered s' i)
    (hpush : c.pc = .publishing .pushing → Covered s' i) : Covered s' i := by
  refine h.quiet hq fun hpublish => hpublish.moved ?_ (fun pc hpc => .inr ?_)
    (fun _ _ hmem => .inl (hcan ▸ hmem))
  · rintro ⟨p, hp, hnot⟩
    cases (progress_eq hc).symm.trans hp
    exact ⟨_, progress_set_self hc hcalls, hpub.trans hnot⟩
  · rw [pcOf, hc] at hpc
    cases hpc
    refine ⟨?_, hpush⟩
    rintro ⟨p, hp, hnot⟩
    cases (progress_eq hc).symm.trans hp
    exact hex hnot

/-- A call moves on behind the store to `admitted` and leaves the flags alone. -/
theorem CancelInvAt.late (h : CancelInvAt s i) (hc : s.calls[i]? = some c)
    (hcalls : s'.calls = s.calls.set i c') {pc : DelayPc} (hpc : c.pc = pc)
    (hex : c.cancellationPublished = false → c.cancelRequested →
      pc = .rechecking ∨ pc = .publishing .exchanging → Covered s' i := by simp)
    (hpush : pc = .publishing .pushing → Covered s' i := by simp)
    (hpublishing : c'.pc.publishes → c.cancelRequested := by rintro ⟨⟩)
    (hpc' : c'.pc.admitted := by rfl) (hq : SameQueues s s' := by exact sameQueues_of_eq)
    (hstored : c'.pc.rechecks → pc.rechecks := by simp [DelayPc.rechecks])
    (hcan : s'.cancellers = s.cancellers := by rfl)
    (hflags : c'.admitted = c.admitted ∧ c'.cancelRequested = c.cancelRequested ∧
      c'.cancellationPublished = c.cancellationPublished := by simp) : CancelInvAt s' i := by
  subst hpc
  obtain ⟨hadm, hreq, hpub⟩ := hflags
  have hprog := progress_eq hc
  have hold := h.consistent _ hprog
  have hcons : c'.progress.Consistent := by
    refine ⟨fun _ => hpc', fun hp => ?_, fun hp => ?_, fun hp => ?_⟩
    · exact hadm.trans (hold.stored (hstored hp))
    · exact hreq.trans (hpublishing hp)
    · obtain ⟨ha, hr⟩ := hold.published (hpub.symm.trans hp)
      exact ⟨hadm.trans ha, hreq.trans hr⟩
  refine h.update hc (progress_set_self hc hcalls) hcons
    ⟨fun hr => hreq.trans hr, fun ha => hadm.trans ha⟩ (fun _ hmem _ => .inl (hcan ▸ hmem)) ?_
  intro ha hr
  have hr' : c.cancelRequested := hreq.symm.trans hr
  exact (h.covered _ hprog (hadm.symm.trans ha) hr').setCall hc hcalls hcan hq hpub
    (fun hnot => hex hnot hr') hpush

theorem Ensured.cancellers {s₁ : State} (he : Ensured s s₁) : s₁.cancellers = s.cancellers := by
  cases he <;> rfl

/-- The task of the call that moves. -/
theorem delayMove_cancelInvAt (h : CancelInvAt s i) (hc : s.calls[i]? = some c)
    (hm : DelayMove s i c s') : CancelInvAt s' i := by
  have hold := h.consistent _ (progress_eq hc)
  cases hm with
  | fired now τ rest hpc =>
    exact h.early _ hc hpc
  | nodeFail now hpc hmu s₁ he =>
    exact h.early { c with pc := .unwinding .resource } hc hpc (by rw [← he.calls]; rfl)
      he.cancellers
  | immediate now hpc hmu hopen s₁ he =>
    exact h.early { c with pc := .leaving } hc hpc (by rw [← he.calls]; rfl) he.cancellers
  | enqueue now hpc hmu hopen s₁ he =>
    exact h.early { c with pc := .admitting, queued := true } hc hpc (by rw [← he.calls]; rfl)
      he.cancellers
  | admitted hpc =>
    -- The call reads `cancelRequested` next, so a request that came before is in its hands.
    obtain ⟨-, hnotpub⟩ := hold.unadmitted (by show c.pc.admitted = false; rw [hpc]; rfl)
    have hself := progress_setCall hc { c with admitted := true, pc := .rechecking }
    refine h.update hc hself ⟨fun _ => rfl, fun _ => rfl, (by rintro ⟨⟩), fun hf => ?_⟩
      ⟨id, fun _ => rfl⟩ (fun _ hmem _ => .inl hmem)
      (fun _ _ => .publish (.inl ⟨⟨_, hself, hnotpub⟩, .inl ?_⟩))
    · simp [show c.progress.published = true from hf] at hnotpub
    · rw [pcOf_eq_progress, hself]
      rfl
  | recheck hpc =>
    have hself := progress_setCall hc { c with
      pc := if c.cancelRequested then .publishing .exchanging else .signalling }
    refine h.late hc rfl hpc (fun hnot hreq _ => ?_) (by simp) ?_ ?_
    rotate_left
    · dsimp only
      split
      · exact fun _ => ‹_›
      · exact fun hf => by cases hf
    · dsimp only
      split <;> rfl
    · refine .publish (.inl ⟨⟨_, hself, hnot⟩, .inr (.inr (.inl ?_))⟩)
      rw [pcOf_eq_progress, hself]
      simp [DelayCall.progress, hreq]
  | published hpc hp =>
    refine h.late hc rfl hpc (fun hnot => ?_)
    simp [hp] at hnot
  | exchange hpc hp =>
    have ha := hold.stored (by show c.pc.rechecks = true; rw [hpc]; rfl)
    have hr := hold.publishing (by show c.pc.publishes = true; rw [hpc]; rfl)
    have hself := progress_setCall hc
      { c with cancellationPublished := true, pc := .publishing .pushing }
    refine h.update hc hself ⟨fun _ => rfl, fun _ => ha, fun _ => hr, fun _ => ⟨ha, hr⟩⟩
      ⟨id, id⟩ (fun _ hmem _ => .inl hmem) (fun _ _ => .publish (.inr (.inl ?_)))
    rw [pcOf_eq_progress, hself]
    rfl
  | push hpc =>
    exact h.late hc rfl hpc (by simp) (fun _ => .inbox mem_cons_self)
      (fun _ => hold.publishing (by show c.pc.publishes = true; rw [hpc]; rfl)) rfl
      ⟨rfl, rfl, Int.le_refl _, fun _ hu => mem_cons_of_mem _ hu⟩
  | send hpc | signal hpc | leave hpc =>
    exact h.late hc rfl hpc
  | _ => exact h.early _ hc ‹c.pc = _›

/-! ### Steps of a cancellation callback -/

/-- The callbacks of `t` after callback `k`, of a task `x.task`, moved. -/
theorem mem_setCanceller (hx : s.cancellers[k]? = some x) (pc : CancelPc) {q : CancelPc}
    (hmem : ⟨t, q⟩ ∈ s.cancellers) (hne : t ≠ x.task ∨ q ≠ x.pc) :
    ⟨t, q⟩ ∈ s.cancellers.set k { x with pc := pc } := by
  refine mem_set_of_ne hx hmem ?_
  rintro rfl
  exact hne.elim (fun h => h rfl) (fun h => h rfl)

/-- A callback of another task moved. -/
theorem mem_setCanceller_iff (hx : s.cancellers[k]? = some x) (pc : CancelPc) (ht : t ≠ x.task)
    (q : CancelPc) : ⟨t, q⟩ ∈ s.cancellers.set k { x with pc := pc } ↔ ⟨t, q⟩ ∈ s.cancellers := by
  refine ⟨fun hmem => ?_, fun hmem => mem_setCanceller hx pc hmem (.inl ht)⟩
  rcases mem_or_eq_of_mem_set hmem with hmem | heq
  · exact hmem
  · exact absurd (congrArg Canceller.task heq) ht

/-- A callback of `t` moves to `pc`; the call record becomes `c'`, at the same program
    counter. -/
theorem CancelInvAt.setCanceller (h : CancelInvAt s x.task) (hc : s.calls[x.task]? = some c)
    {pc : CancelPc} (hprog : s'.progress x.task = some c'.progress)
    (hcons : c'.progress.Consistent)
    (hcov : c'.admitted → c'.cancelRequested → Covered s' x.task)
    (hcan : s'.cancellers = s.cancellers.set k { x with pc := pc } := by rfl)
    (hself : pc.requested →
      c'.cancelRequested ∧ (pc.publishes → c'.admitted) := by rintro ⟨⟩)
    (hmono : (c.cancelRequested → c'.cancelRequested) ∧
      (c.admitted → c'.admitted) := by simp) : CancelInvAt s' x.task := by
  refine h.update hc hprog hcons hmono (fun q hmem hreq => ?_) hcov
  rw [hcan] at hmem
  rcases mem_or_eq_of_mem_set hmem with hmem | heq
  · exact .inl hmem
  · obtain rfl : q = pc := congrArg Canceller.pc heq
    exact .inr (hself hreq)

/-- A callback moves on: the request stays covered if it was not itself the one to publish
    it. -/
theorem Covered.setCanceller (h : Covered s x.task) (hx : s.cancellers[k]? = some x)
    (hc : s.calls[x.task]? = some c) {pc q : CancelPc} (hpc : x.pc = q)
    (hprog : s'.progress x.task = s.progress x.task)
    (hex : c.cancellationPublished = false →
      q = .checkAdmitted ∨ q = .publishing .exchanging → Covered s' x.task := by simp)
    (hpush : q = .publishing .pushing → Covered s' x.task := by simp)
    (hcan : s'.cancellers = s.cancellers.set k { x with pc := pc } := by rfl)
    (hq : SameQueues s s' := by exact sameQueues_of_eq) : Covered s' x.task := by
  subst hpc
  refine h.quiet hq fun hpublish => hpublish.moved (fun ⟨p, hp, hnot⟩ => ⟨p, hprog.trans hp, hnot⟩)
    (fun pc hpc => .inl ?_) (fun q _ hmem => ?_)
  · rwa [pcOf_eq_progress, hprog, ← pcOf_eq_progress]
  -- A callback of this task is still there, unless it is the one that moved.
  · by_cases hne : q = x.pc
    · subst hne
      refine .inr ⟨?_, hpush⟩
      rintro ⟨p, hp, hnot⟩
      cases (progress_eq hc).symm.trans hp
      exact hex hnot
    · exact .inl (hcan ▸ mem_setCanceller hx pc hmem (.inr hne))

/-- The task of the callback that moves. -/
theorem cancelMove_cancelInvAt (h : CancelInvAt s x.task) (hx : s.cancellers[k]? = some x)
    (hc : s.calls[x.task]? = some c) (hm : CancelMove s k x c s') : CancelInvAt s' x.task := by
  have hold := progress_eq hc
  have hcons := h.consistent _ hold
  have hxmem : ⟨x.task, x.pc⟩ ∈ s.cancellers := mem_of_getElem? hx
  have hrequested : x.pc.requested → c.cancelRequested ∧
      (x.pc.publishes → c.admitted) := by
    intro hreq
    obtain ⟨p, hp, hcr, hpa⟩ := h.requested x.pc hxmem hreq
    rw [hold] at hp
    cases hp
    exact ⟨hcr, hpa⟩
  cases hm with
  | again hpc hr =>
    exact h.setCanceller hc hold hcons
      (fun ha hr => (h.covered _ hold ha hr).setCanceller hx hc hpc rfl)
  | request hpc hr =>
    -- Whoever sets the flag goes on to publish.
    have hself := progress_setCall hc { c with cancelRequested := true }
    have hnotpub : c.cancellationPublished = false := by
      cases hpub : c.cancellationPublished with
      | false => rfl
      | true =>
        have := (hcons.published hpub).2
        simp [show c.progress.cancelRequested = false from hr] at this
    refine h.setCanceller hc hself ⟨hcons.admitted, hcons.stored, fun _ => rfl, ?_⟩
      (fun _ _ => ?_) rfl (fun _ => ⟨rfl, fun hf => by cases hf⟩)
    · exact fun hpub => ⟨(hcons.published hpub).1, rfl⟩
    · exact .publish (.inl ⟨⟨_, hself, hnotpub⟩, .inr (.inl (mem_set (lt_of_getElem? hx) _))⟩)
  | early hpc ha =>
    refine h.setCanceller hc hold hcons (fun ha' => ?_)
    simp [ha] at ha'
  | admitted hpc ha =>
    have hr := (hrequested (by rw [hpc]; rfl)).1
    refine h.setCanceller hc hold hcons (fun ha hr => ?_) rfl (fun _ => ⟨hr, fun _ => ha⟩)
    exact (h.covered _ hold ha hr).setCanceller hx hc hpc rfl (fun hnot _ =>
      .publish (.inl ⟨⟨_, hold, hnot⟩, .inr (.inr (.inr (mem_set (lt_of_getElem? hx) _)))⟩))
  | published hpc hp =>
    have hself := progress_setCall hc c
    refine h.setCanceller hc hself hcons (fun ha hr => ?_)
    refine (h.covered _ hold ha hr).setCanceller hx hc hpc (hself.trans hold.symm) (fun hnot => ?_)
    simp [hp] at hnot
  | exchange hpc hp =>
    obtain ⟨hr, ha⟩ := hrequested (by rw [hpc]; rfl)
    have ha := ha (by rw [hpc]; rfl)
    have hself := progress_setCall hc { c with cancellationPublished := true }
    exact h.setCanceller hc hself
      ⟨hcons.admitted, hcons.stored, hcons.publishing, fun _ => ⟨ha, hr⟩⟩
      (fun _ _ => .publish (.inr (.inr (mem_set (lt_of_getElem? hx) _)))) rfl
      (fun _ => ⟨hr, fun _ => ha⟩)
  | push hpc =>
    obtain ⟨hr, ha⟩ := hrequested (by rw [hpc]; rfl)
    have hself := progress_setCall hc c
    exact h.setCanceller hc hself hcons (fun _ _ => .inbox mem_cons_self) rfl
      (fun _ => ⟨hr, fun _ => ha (by rw [hpc]; rfl)⟩)
  | send hpc =>
    have hself := progress_setCall hc c
    exact h.setCanceller hc hself hcons (fun ha hr =>
      (h.covered _ hold ha hr).setCanceller hx hc hpc (hself.trans hold.symm))

end ServiceLib.DelayPool
