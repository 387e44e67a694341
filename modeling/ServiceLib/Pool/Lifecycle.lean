import ServiceLib.Pool.Moves

namespace ServiceLib.Pool

/-!
# Pool — the start/stop protocol

The invariant of the lifecycle part of a pool.  Only the winners of `start` and `stop` and
the manager touch that part, so the invariant (`Control.WellFormed`) speaks about `Control`
alone and every other coroutine preserves it for free (`step_ctl`).

The point of the protocol is `Control.WellFormed.settled`: once `stop` goes on to take the
executors' handles, the manager will never create an executor again, in particular not a
manager that a concurrent `start` has yet to create.
-/

open State Control

variable {Q R : Type}

/-! ### Phases -/

/-- A `start` without a manager: not yet created, or never to be. -/
@[grind] def StartPc.noManager : StartPc → Bool
  | .idle | .building | .spawning | .failing | .failingState => true
  | _ => false

/-- A `start` that may still create the manager. -/
@[grind] def StartPc.beforeManager : StartPc → Bool
  | .building | .spawning => true
  | _ => false

/-- A `start` that has assigned `managerTask_` and not thrown. -/
@[grind] def StartPc.assigned : StartPc → Bool
  | .publishing | .awaitReady | .resolving | .returned => true
  | _ => false

/-- A `start` that has not sent `fieldsPublished_`. -/
@[grind] def StartPc.unpublished : StartPc → Bool
  | .idle | .building | .spawning | .assigning | .publishing | .failing => true
  | _ => false

/-- A `start` that is between its compare-exchange and its end. -/
@[grind] def StartPc.inProgress : StartPc → Bool
  | .idle | .returned | .threw _ => false
  | _ => true

/-- A `stop` that has waited for the fields of a concurrent `start`. -/
@[grind] def StopPc.published : StopPc → Bool
  | .idle | .awaitFields => false
  | _ => true

/-- A `stop` for which the manager is out of the way. -/
@[grind] def StopPc.settled : StopPc → Bool
  | .takeExecutors | .awaitExecutors _ | .awaitWatches | .storeStopped | .notifyStopped
  | .returned => true
  | _ => false

/-- A `stop` that has stored `kStopped`. -/
@[grind] def StopPc.stored : StopPc → Bool
  | .notifyStopped | .returned => true
  | _ => false

/-- The states in which a pool takes no more tasks. -/
@[grind] def PoolState.closed : PoolState → Bool
  | .draining | .stopping | .stopped => true
  | _ => false

/-- The states that belong to `stop`. -/
@[grind] def PoolState.claimed : PoolState → Bool
  | .stopping | .stopped => true
  | _ => false

/-- A manager that has left its loop. -/
@[grind] def ManagerPc.over : ManagerPc → Bool
  | .exiting | .finished => true
  | _ => false

/-- No manager is running and none will be. -/
@[grind] def Control.managerGone (c : Control) : Prop :=
  c.manager.over ∨ c.manager = .absent ∧ c.starter.beforeManager = false

/-! ### The invariant -/

/-- What holds of the lifecycle part of a pool between any two steps. -/
@[grind cases] structure Control.WellFormed (c : Control) : Prop where
  done_eq : c.done = c.state.closed
  claimed : c.state.claimed = false ↔ c.stopper = .idle
  stopped : c.state = .stopped ↔ c.stopper.stored
  created : c.state = .created → c.starter = .idle
  starting : c.state = .starting → c.starter.inProgress
  running : c.state = .running → c.startupResult = .ready ∧ c.starter = .returned
  draining : c.state = .draining → c.manager.over
  failed : c.state = .failed → ∃ e, c.starter = .threw e
  noManager : c.starter.noManager → c.manager = .absent
  task : c.managerTask ∨ c.manager = .absent ∨ c.starter = .assigning
  task_present : c.managerTask ∨ c.starter = .assigning → c.manager ≠ .absent
  assigned : c.starter.assigned → c.managerTask
  published : c.fieldsPublished → c.starter.unpublished = false
  result_stopped : c.startupResult = .stopped → c.done
  result_final : c.startupResult = .cancelled ∨ c.startupResult = .failed →
    c.manager.over
  joined : c.stopper.published → c.managerTask ∨ c.managerGone
  settled : c.stopper.settled → c.managerGone

theorem Control.init_wellFormed : init.WellFormed := by
  constructor <;> simp [init, PoolState.closed, PoolState.claimed, StopPc.stored,
    StartPc.assigned, StopPc.published, StopPc.settled]

/-! ### Transitions of the lifecycle part -/

/-- `start` returns or throws, and the state says which. -/
theorem Control.startOutcome_cases (r : StartupResult) :
    r = .ready ∧ startOutcome r = (.running, .returned) ∨
      ∃ e, startOutcome r = (.failed, .threw e) := by
  cases r with
  | ready => exact .inl ⟨rfl, rfl⟩
  | cancelled | stopped | pending | failed => exact .inr ⟨_, rfl⟩

namespace Control.WellFormed

variable {c : Control} {q : StartPc} {task pub : Bool}

theorem callStart (h : c.WellFormed) (ctx : Context) : (c.callStart ctx).WellFormed := by
  unfold Control.callStart
  split
  · constructor <;> dsimp only <;> grind
  · exact h

/-- A manager that is gone stays gone when `start` moves on without a new chance to create
    one. -/
theorem managerGone_of_starter {st : PoolState} {p : StartPc}
    (hbefore : p.beforeManager → c.starter.beforeManager) (hg : c.managerGone) :
    { c with state := st, managerTask := task, fieldsPublished := pub,
             starter := p }.managerGone := by
  rcases hg with hover | ⟨habs, hb⟩
  · exact .inl hover
  · refine .inr ⟨habs, ?_⟩
    cases hp : p.beforeManager with
    | false => rfl
    | true => simp [hbefore hp] at hb

section

variable (h : c.WellFormed)
include h

/-- A `start` in progress that goes on. -/
theorem setStarter (p : StartPc) (task pub : Bool) (hold : c.starter.inProgress)
    (hp : p.inProgress) (hno : p.noManager → c.manager = .absent)
    (htask : task ∨ c.manager = .absent ∨ p = .assigning)
    (hpresent : task ∨ p = .assigning → c.manager ≠ .absent)
    (hassigned : p.assigned → task) (hpub : pub → p.unpublished = false)
    (hmono : c.managerTask → task) (hbefore : p.beforeManager → c.starter.beforeManager) :
    { c with managerTask := task, fieldsPublished := pub, starter := p }.WellFormed :=
  { h with
    created := fun hc => by rw [h.created hc] at hold; cases hold
    starting := fun _ => hp
    running := fun hc => by rw [(h.running hc).2] at hold; cases hold
    failed := fun hc => by
      obtain ⟨e, he⟩ := h.failed hc
      rw [he] at hold
      cases hold
    noManager := hno
    task := htask
    task_present := hpresent
    assigned := hassigned
    published := hpub
    joined := fun hs => (h.joined hs).imp hmono (managerGone_of_starter hbefore)
    settled := fun hs => managerGone_of_starter hbefore (h.settled hs) }

theorem not_published (hpc : c.starter = q) (hp : c.fieldsPublished)
    (hq : q.unpublished := by rfl) : False := by
  have hf := h.published hp
  simp [hpc, hq] at hf

/-- A `start` without a manager goes on without one. -/
theorem goOnWithout (hpc : c.starter = q) (p : StartPc) (pub : Bool)
    (hpub : pub → p.unpublished = false) (hq : q.inProgress ∧ q.noManager := by decide)
    (hp : p.inProgress ∧ p.noManager := by decide)
    (hbefore : p.beforeManager → q.beforeManager := by decide) :
    { c with fieldsPublished := pub, starter := p }.WellFormed := by
  subst hpc
  have habs := h.noManager hq.2
  refine h.setStarter p c.managerTask pub hq.1 hp.1 (fun _ => habs) (.inr (.inl habs)) ?_ ?_
    hpub id hbefore
  · rintro (ht | rfl)
    · exact h.task_present (.inl ht)
    · cases hp.2
  · cases p <;> simp_all [StartPc.noManager, StartPc.assigned]

/-- A `start` goes on whose manager is assigned. -/
theorem goOnWith (hpc : c.starter = q) (p : StartPc)
    (htask : task) (hpresent : c.manager ≠ .absent)
    (hpub : pub → p.unpublished = false) (hq : q.inProgress := by rfl)
    (hp : p.inProgress ∧ p.noManager = false ∧ p.beforeManager = false := by decide) :
    { c with managerTask := task, fieldsPublished := pub, starter := p }.WellFormed := by
  subst hpc
  refine h.setStarter p task pub hq hp.1 ?_ (.inl htask) (fun _ => hpresent) (fun _ => htask)
    hpub (fun _ => htask) ?_
  · simp [hp.2.1]
  · simp [hp.2.2]

/-- The end of a `start` that got past the creation of its fields. -/
theorem endStart (st : PoolState) (p : StartPc)
    (hpc : c.starter = .resolving ∨ c.starter = .failingState)
    (hp : p = .returned ∧ c.starter = .resolving ∨ ∃ e, p = .threw e)
    (hclosed : st.closed = c.state.closed) (hclaimed : st.claimed = c.state.claimed)
    (hstopped : st = .stopped ↔ c.state = .stopped)
    (hdraining : st = .draining → c.state = .draining) (hcreated : st ≠ .created)
    (hstarting : st ≠ .starting)
    (hrunning : st = .running → c.startupResult = .ready ∧ p = .returned)
    (hfailed : st = .failed → ∃ e, p = .threw e) :
    { c with state := st, starter := p }.WellFormed := by
  -- What the invariant asks about a `start` that is over.
  have hover : p.noManager = false ∧ p.beforeManager = false ∧ p.unpublished = false ∧
      p ≠ .assigning := by
    rcases hp with ⟨rfl, -⟩ | ⟨e, rfl⟩
    · exact ⟨rfl, rfl, rfl, nofun⟩
    · exact ⟨rfl, rfl, rfl, nofun⟩
  obtain ⟨hno, hbefore, hunpub, hassigning⟩ := hover
  have hbefore' : p.beforeManager → c.starter.beforeManager := by
    intro hb
    simp [hbefore] at hb
  have hold : c.starter ≠ .assigning := by
    rcases hpc with hpc | hpc <;> rw [hpc] <;> nofun
  exact { h with
    done_eq := h.done_eq.trans hclosed.symm
    claimed := by
      show st.claimed = false ↔ _
      rw [hclaimed]
      exact h.claimed
    stopped := hstopped.trans h.stopped
    created := fun hc => absurd hc hcreated
    starting := fun hc => absurd hc hstarting
    running := hrunning
    draining := fun hd => h.draining (hdraining hd)
    failed := hfailed
    noManager := fun hn => by simp [hno] at hn
    task := by
      rcases h.task with ht | hm | ha
      · exact .inl ht
      · exact .inr (.inl hm)
      · exact absurd ha hold
    task_present := fun ht => h.task_present (ht.imp_right (fun ha => absurd ha hassigning))
    assigned := by
      intro ha
      rcases hp with ⟨-, hres⟩ | ⟨e, rfl⟩
      · exact h.assigned (by rw [hres]; rfl)
      · cases ha
    published := fun _ => hunpub
    joined := fun hs => (h.joined hs).imp id (managerGone_of_starter hbefore')
    settled := fun hs => managerGone_of_starter hbefore' (h.settled hs) }

/-- A `start` that failed while it still owned `kStarting`. -/
theorem failStart (hst : c.state = .starting) (e : PoolError)
    (hpc : c.starter = .resolving ∨ c.starter = .failingState) :
    { c with state := .failed, starter := .threw e }.WellFormed := by
  refine h.endStart .failed (.threw e) hpc (.inr ⟨e, rfl⟩) ?_ ?_ ?_ nofun nofun nofun nofun
    (fun _ => ⟨e, rfl⟩)
  · rw [hst]; rfl
  · rw [hst]; rfl
  · rw [hst]; exact ⟨nofun, nofun⟩

/-- A `start` that lost `kStarting` to a concurrent `stop` or drain. -/
theorem loseStart (hst : c.state ≠ .starting) (e : PoolError)
    (hpc : c.starter = .resolving ∨ c.starter = .failingState) :
    { c with starter := .threw e }.WellFormed := by
  refine h.endStart c.state (.threw e) hpc (.inr ⟨e, rfl⟩) rfl rfl Iff.rfl id ?_ hst ?_
    (fun _ => ⟨e, rfl⟩)
  · intro hc
    have hidle := h.created hc
    rcases hpc with hpc | hpc <;> rw [hpc] at hidle <;> cases hidle
  · intro hr
    have hret := (h.running hr).2
    rcases hpc with hpc | hpc <;> rw [hpc] at hret <;> cases hret

theorem resolveStart (hpc : c.starter = .resolving) : c.resolveStart.WellFormed := by
  unfold Control.resolveStart
  split
  next hst =>
    rcases startOutcome_cases c.startupResult with ⟨hr, ho⟩ | ⟨e, ho⟩
    · rw [ho]
      refine h.endStart .running .returned (.inl hpc) (.inl ⟨rfl, hpc⟩) ?_ ?_ ?_ nofun nofun
        nofun (fun _ => ⟨hr, rfl⟩) nofun
      · rw [hst]; rfl
      · rw [hst]; rfl
      · rw [hst]; exact ⟨nofun, nofun⟩
    · rw [ho]
      exact h.failStart hst e (.inl hpc)
  next hst =>
    exact h.loseStart hst _ (.inl hpc)

/-- Creating the manager.  No `stop` is past the fields of this `start` yet, as there is
    neither a manager to join nor one that is gone. -/
theorem spawnManager (hpc : c.starter = .spawning) :
    { c with manager := .loopHead, starter := .assigning }.WellFormed := by
  have habs : c.manager = .absent := h.noManager (by rw [hpc]; rfl)
  have hlive : c.starter.inProgress := by rw [hpc]; rfl
  have hnogone : ¬ c.managerGone := by
    rintro (hover | ⟨-, hb⟩)
    · rw [habs] at hover; cases hover
    · rw [hpc] at hb; cases hb
  have hunjoined : c.stopper.published → False := by
    intro hs
    rcases h.joined hs with ht | hg
    · exact h.task_present (.inl ht) habs
    · exact hnogone hg
  have hnotover : ManagerPc.over c.manager → False := by
    intro hover
    rw [habs] at hover
    cases hover
  exact { h with
    created := fun hc => by rw [h.created hc] at hlive; cases hlive
    starting := fun _ => rfl
    running := fun hc => by rw [(h.running hc).2] at hlive; cases hlive
    draining := fun hd => (hnotover (h.draining hd)).elim
    failed := by
      intro hf
      obtain ⟨e, he⟩ := h.failed hf
      rw [he] at hlive
      cases hlive
    noManager := nofun
    task := .inr (.inr rfl)
    task_present := fun _ => nofun
    assigned := nofun
    published := fun hp => (h.not_published hpc hp).elim
    result_final := fun hr => (hnotover (h.result_final hr)).elim
    joined := fun hs => (hunjoined hs).elim
    settled := fun hs => (hnogone (h.settled hs)).elim }

/-- A step of `start`. -/
theorem startStep {c' : Control} {fails : Bool} (hs : c.startStep fails = some c') :
    c'.WellFormed := by
  cases hpc : c.starter <;> simp only [Control.startStep, hpc] at hs
  case building =>
    split at hs <;> cases hs
    · exact h.goOnWithout hpc .failing _ (fun hp => (h.not_published hpc hp).elim)
    · exact { h.goOnWithout hpc .spawning _ (fun hp => (h.not_published hpc hp).elim) with }
  case spawning =>
    split at hs <;> cases hs
    · exact h.goOnWithout hpc .failing _ (fun hp => (h.not_published hpc hp).elim)
    · exact h.spawnManager hpc
  case assigning =>
    cases hs
    exact h.goOnWith hpc .publishing rfl (h.task_present (.inr hpc))
      (fun hp => (h.not_published hpc hp).elim)
  case publishing =>
    cases hs
    have htask : c.managerTask := h.assigned (by rw [hpc]; rfl)
    exact h.goOnWith hpc .awaitReady htask (h.task_present (.inl htask)) (fun _ => rfl)
  case awaitReady =>
    split at hs <;> cases hs
    have htask : c.managerTask := h.assigned (by rw [hpc]; rfl)
    exact h.goOnWith hpc .resolving htask (h.task_present (.inl htask)) (fun _ => rfl)
  case resolving => cases hs; exact h.resolveStart hpc
  case failing =>
    cases hs
    exact h.goOnWithout hpc .failingState true (fun _ => rfl)
  case failingState =>
    cases hs
    by_cases hst : c.state = .starting
    · rw [if_pos hst]
      exact h.failStart hst _ (.inr hpc)
    · rw [if_neg hst]
      exact h.loseStart hst _ (.inr hpc)
  all_goals cases hs

/-- Outside `kStarting` the manager is joinable or gone, so `stop` need not wait for the
    fields of `start`.  In `kDraining` it may be gone before `managerTask_` is assigned. -/
theorem joinable (hst : c.state.claimed = false) (hns : c.state ≠ .starting) :
    c.managerTask ∨ c.managerGone := by
  cases hc : c.state with
  | created =>
    have hidle := h.created hc
    right; right
    exact ⟨h.noManager (by rw [hidle]; rfl), by rw [hidle]; rfl⟩
  | starting => exact absurd hc hns
  | running =>
    left
    exact h.assigned (by rw [(h.running hc).2]; rfl)
  | draining => right; left; exact h.draining hc
  | failed =>
    obtain ⟨e, he⟩ := h.failed hc
    rcases h.task with ht | hm | ha
    · exact .inl ht
    · right; right
      exact ⟨hm, by rw [he]; rfl⟩
    · simp [he] at ha
  | stopping | stopped => rw [hc] at hst; cases hst

/-- After `fieldsPublished_` a concurrent `stop` sees a manager to join, or there is none. -/
theorem joinable_of_published (hp : c.fieldsPublished) : c.managerTask ∨ c.managerGone := by
  have hpub := h.published hp
  rcases h.task with ht | hm | ha
  · exact .inl ht
  · right; right
    refine ⟨hm, ?_⟩
    cases hs : c.starter <;> simp_all [StartPc.unpublished, StartPc.beforeManager]
  · rw [ha] at hpub
    cases hpub

theorem done_of_stopper (hne : c.stopper ≠ .idle) : c.done := by
  rw [h.done_eq]
  have hcl := mt h.claimed.mp hne
  cases hst : c.state <;> simp_all [PoolState.claimed, PoolState.closed]

theorem claimStop (hst : c.state.claimed = false) : c.claimStop.WellFormed := by
  have hjoin := h.joinable hst
  unfold Control.claimStop
  constructor <;> dsimp only <;> grind

/-- `stop` may move on as long as it does not claim more about the manager than is true. -/
theorem setStopper {q : StopPc} (hpc : c.stopper = q) (p : StopPc)
    (hjoined : p.published → c.managerTask ∨ c.managerGone)
    (hsettled : p.settled → c.managerGone := by simp [StopPc.settled])
    (hq : q ≠ .idle := by simp) (hp : p ≠ .idle := by simp)
    (hstored : p.stored = q.stored := by rfl) : { c with stopper := p }.WellFormed := by
  subst hpc
  constructor <;> dsimp only <;> grind

theorem storeStopped (hpc : c.stopper = .storeStopped) :
    { c with state := .stopped, stopper := .notifyStopped }.WellFormed := by
  constructor <;> dsimp only <;> grind

/-- Moves of the manager inside its loop, and its exit, disturb nobody. -/
theorem setManager {q : ManagerPc} (hpc : c.manager = q) (m : ManagerPc)
    (hq : q ≠ .absent := by simp) (hm : m ≠ .absent := by first | split <;> simp | simp)
    (hover : q.over → m.over := by simp [ManagerPc.over]) : { c with manager := m }.WellFormed := by
  subst hpc
  constructor <;> dsimp only <;> grind

theorem resolveStartup (r : StartupResult) (hr : r = .stopped → c.done)
    (hr' : r = .cancelled ∨ r = .failed → c.manager.over) : (c.resolveStartup r).WellFormed := by
  unfold Control.resolveStartup
  split
  · constructor <;> dsimp only <;> grind
  · exact h

theorem drain (hst : c.state = .starting ∨ c.state = .running) (hm : c.manager ≠ .absent) :
    { c with state := .draining, done := true, manager := .exiting }.WellFormed := by
  constructor <;> dsimp only <;> grind

/-- The events and the cancellation flag of the manager are not part of the invariant. -/
theorem setEvents (ready cancelled : Bool) :
    { c with readyEvent := ready, managerCancelled := cancelled }.WellFormed :=
  { h with }

end

end Control.WellFormed

section

variable (c : Control) (r : StartupResult)
include c r

namespace Control

@[simp] theorem resolveStartup_manager : (c.resolveStartup r).manager = c.manager := by
  unfold Control.resolveStartup; split <;> rfl

@[simp] theorem resolveStartup_stopper : (c.resolveStartup r).stopper = c.stopper := by
  unfold Control.resolveStartup; split <;> rfl

@[simp] theorem resolveStartup_managerTask : (c.resolveStartup r).managerTask = c.managerTask := by
  unfold Control.resolveStartup; split <;> rfl

@[simp] theorem resolveStartup_state : (c.resolveStartup r).state = c.state := by
  unfold Control.resolveStartup; split <;> rfl

@[simp] theorem resolveStartup_done : (c.resolveStartup r).done = c.done := by
  unfold Control.resolveStartup; split <;> rfl

end Control

end

/-! ### The winner of stop and the manager -/

variable {s s' : State Q R} {f : Bool} {n : Option Int} {hw : Int}

/-- A step of `stop`. -/
theorem stopStep_wellFormed (h : s.ctl.WellFormed) (hs : s.stopStep = some s') :
    s'.ctl.WellFormed := by
  cases hpc : s.ctl.stopper <;> simp only [stopStep, hpc] at hs
  case awaitFields =>
    split at hs <;> cases hs
    exact h.setStopper hpc _ (fun _ => h.joinable_of_published ‹_›)
  case joinManager =>
    have hjoin := h.joined (by rw [hpc]; rfl)
    split at hs <;> cases hs
    · have h' := h.resolveStartup .stopped (fun _ => h.done_of_stopper (by simp [hpc])) (by simp)
      exact h'.setStopper (by simpa using hpc) _
        (fun _ => .inl (by simpa using ‹s.ctl.managerTask = true›))
    · have hgone := hjoin.resolve_left ‹_›
      exact h.setStopper hpc _ (fun _ => .inr hgone) (fun _ => hgone)
  case signalReady =>
    cases hs
    exact (h.setEvents true s.ctl.managerCancelled).setStopper hpc _
      (fun _ => h.joined (by rw [hpc]; rfl))
  case cancelManager =>
    cases hs
    exact (h.setEvents s.ctl.readyEvent true).setStopper hpc _
      (fun _ => h.joined (by rw [hpc]; rfl))
  case awaitManager =>
    split at hs <;> cases hs
    have hgone : s.ctl.managerGone := .inl (by rw [‹s.ctl.manager = _›]; rfl)
    exact h.setStopper hpc _ (fun _ => .inr hgone) (fun _ => hgone)
  case storeStopped => cases hs; exact h.storeStopped hpc
  case takeExecutors | awaitExecutors | awaitWatches | notifyStopped =>
    have hgone := h.settled (by rw [hpc]; rfl)
    split at hs <;> cases hs
    exact h.setStopper hpc _ (fun _ => .inr hgone) (fun _ => hgone)
  all_goals cases hs

/-- A step of the manager. -/
theorem managerStep_wellFormed (h : s.ctl.WellFormed)
    (hs : s.managerStep n hw f = some s') : s'.ctl.WellFormed := by
  -- Inside the loop the manager only moves its own program counter.
  cases hpc : s.ctl.manager <;> simp only [managerStep, hpc] at hs
  case resolveCancelled =>
    split at hs <;> cases hs
    · have h' := h.setManager hpc .exiting
      have h'' := h'.resolveStartup .cancelled (by simp) (by simp [ManagerPc.over])
      simpa [Control.resolveStartup, ‹s.ctl.startupResult = _›] using h''
    · exact h.setManager hpc _
  case drain =>
    split at hs <;> cases hs
    unfold requestDrain
    split
    · exact h.drain ‹_› (by simp [hpc])
    · exact h.setManager hpc _
  case checkDone =>
    split at hs
    · cases hs
    · split at hs <;> cases hs
      · exact (h.resolveStartup .stopped (fun _ => ‹_›) (by simp)).setManager
          (by simpa using hpc) .exiting
      · exact h.setManager hpc _
  case reconcile =>
    split at hs <;> cases hs
    unfold reconcile
    dsimp only
    repeat' split
    all_goals exact h.setManager hpc _
  case resolveFailed =>
    cases hs
    have h' := h.setManager hpc .exiting
    have h'' := h'.resolveStartup .failed (by simp) (by simp [ManagerPc.over])
    unfold Control.resolveStartup at h'' ⊢
    split
    next hp =>
      rw [if_pos hp] at h''
      exact h''
    next hp =>
      rw [if_neg hp] at h''
      exact h''
  case resolveReady =>
    cases hs
    exact (h.resolveStartup .ready (by simp) (by simp)).setManager (by simpa using hpc) _
  case sendReady | exiting =>
    cases hs
    exact (h.setEvents true s.ctl.managerCancelled).setManager hpc _
  case spawning k =>
    cases k <;> cases hs <;> exact h.setManager hpc _
  case claimed =>
    split at hs <;> cases hs <;> exact h.setManager hpc _
  case adopting =>
    split at hs <;> cases hs
    exact h.setManager hpc _
  case loopHead | reserving | spawnFailed | spawnFailedPending | checkCancelled | sleeping =>
    cases hs
    exact h.setManager hpc _
  all_goals cases hs

/-! ### Who changes the state of the pool -/

/-- `start` moves the state out of `kStarting` only. -/
theorem startStep_state {c c' : Control} (hs : c.startStep f = some c') :
    c'.done = c.done ∧ (c'.state = c.state ∨ c.state = .starting) := by
  grind [Control.startStep, Control.resolveStart]

/-- After its compare-exchange, `stop` only ever stores `kStopped`. -/
theorem stopStep_state (hs : s.stopStep = some s') :
    s'.ctl.done = s.ctl.done ∧ (s'.ctl.state = s.ctl.state ∨ s'.ctl.state = .stopped) := by
  grind [stopStep, notifyAll, Control.resolveStartup]

/-- The manager changes the state of the pool by draining it only. -/
theorem managerStep_state (hs : s.managerStep n hw f = some s') :
    s'.ctl.state = s.ctl.state ∧ s'.ctl.done = s.ctl.done ∨
      (s.ctl.state = .starting ∨ s.ctl.state = .running) ∧ s'.ctl.state = .draining ∧
        s'.ctl.done := by
  simp only [managerStep, reconcile, requestDrain] at hs
  grind [notifyAll, spawnExecutor, Control.resolveStartup]

variable [WaitQueue Q R] {a : Action R}

/-- Only `start`, `stop` and the manager touch the lifecycle part of a pool. -/
theorem step_ctl (hs : step s a = some s') :
    s'.ctl = s.ctl ∨ (∃ ctx, s'.ctl = s.ctl.callStart ctx) ∨
      (∃ f, s.ctl.startStep f = some s'.ctl) ∨
      s.ctl.state.claimed = false ∧ s'.ctl = s.ctl.claimStop ∨
      s.stopStep = some s' ∨ ∃ n hw f, s.managerStep n hw f = some s' := by
  cases move_of_step hs with
  | background | waiters | cancel | callAdd => exact .inl rfl
  | callStart ctx => exact .inr (.inl ⟨ctx, rfl⟩)
  | start fails c hc => exact .inr (.inr (.inl ⟨fails, hc⟩))
  | claimStop hmu hst hst' =>
    refine .inr (.inr (.inr (.inl ⟨?_, rfl⟩)))
    cases hc : s.ctl.state <;> first | rfl | exact absurd hc ‹_›
  | stop s' hs => exact .inr (.inr (.inr (.inr (.inl hs))))
  | manager n hw f s' hs => exact .inr (.inr (.inr (.inr (.inr ⟨n, hw, f, hs⟩))))
  | executor e x s' hx hm | cancelled e x s' hx hc hm | add i c f g w s' hc hm
  | watch k alive w s' hm => exact .inl hm.ctl
  | spurious e s' hn => exact .inl hn.ctl

/-! ### Every step keeps the invariant -/

/-- **The protocol invariant is inductive.** -/
theorem step_wellFormed (h : s.ctl.WellFormed) (hs : step s a = some s') :
    s'.ctl.WellFormed := by
  rcases step_ctl hs with hc | ⟨ctx, hc⟩ | ⟨f, hc⟩ | ⟨hcl, hc⟩ | hc | ⟨n, hw, f, hc⟩
  · rw [hc]; exact h
  · rw [hc]; exact h.callStart ctx
  · exact h.startStep hc
  · rw [hc]; exact h.claimStop hcl
  · exact stopStep_wellFormed h hc
  · exact managerStep_wellFormed h hc

/-- The protocol invariant holds in every reachable state. -/
theorem reachable_wellFormed {ok : State Q R → Action R → Prop} (h : (system Q).ReachableIf ok s) :
    s.ctl.WellFormed :=
  h.invariant (I := fun s => s.ctl.WellFormed) init_wellFormed
    (fun _ hi _ hs => step_wellFormed hi hs)

end ServiceLib.Pool
