import ServiceLib.DelayPool.ExactlyOnce

namespace ServiceLib.DelayPool

/-!
# Delay pool — what the sleeping scheduler knows

The scheduler sleeps until the first timer it saw, or until `queueChanged` is sent.  Two
things can happen behind its back: a `delay` call puts an earlier timer in front, and a
cancellation is pushed onto the inbox.  Both are followed by a `Send`.
-/

open List Option State

/-! ### The timer queue -/

/-- In key order, as a multimap is. -/
def InOrder (l : List (Time × TaskId)) : Prop := l.Pairwise (fun a b => a.1 ≤ b.1)

variable {l : List (Time × TaskId)} {s s' s₁ : State} {c c' : DelayCall} {t i : TaskId} {k : Nat}
  {e : Time × TaskId} {x : Canceller} {a : Action}

theorem mem_insertTimer {key : Time} :
    e ∈ insertTimer key t l ↔ e = (key, t) ∨ e ∈ l := by
  rw [(insertTimer_perm key t l).mem_iff, mem_cons]

/-- An insertion keeps the order. -/
theorem InOrder.insertTimer (h : InOrder l) (key : Time) (t : TaskId) :
    InOrder (insertTimer key t l) := by
  induction l with
  | nil => exact pairwise_singleton _ _
  | cons e rest ih =>
    obtain ⟨hfirst, hrest⟩ := pairwise_cons.mp h
    unfold DelayPool.insertTimer
    split
    next hle =>
      refine pairwise_cons.mpr ⟨fun a ha => ?_, ih hrest⟩
      rcases mem_insertTimer.mp ha with rfl | ha
      · exact hle
      · exact hfirst a ha
    next hlt =>
      have hkey : key ≤ e.1 := Int.le_of_lt (Int.not_le.mp hlt)
      refine pairwise_cons.mpr ⟨fun a ha => ?_, h⟩
      rcases mem_cons.mp ha with rfl | ha
      · exact hkey
      · exact Int.le_trans hkey (hfirst a ha)

theorem mem_of_mem_extractTimer (h : e ∈ extractTimer t l) : e ∈ l := by
  induction l with
  | nil => exact h
  | cons a rest ih =>
    unfold extractTimer at h
    split at h
    · exact mem_cons_of_mem a h
    · rcases mem_cons.mp h with rfl | h
      · exact mem_cons_self
      · exact mem_cons_of_mem a (ih h)

/-- An extraction keeps the order. -/
theorem InOrder.extractTimer (h : InOrder l) (t : TaskId) : InOrder (extractTimer t l) := by
  induction l with
  | nil => exact h
  | cons e rest ih =>
    obtain ⟨hfirst, hrest⟩ := pairwise_cons.mp h
    unfold DelayPool.extractTimer
    split
    · exact hrest
    · exact pairwise_cons.mpr
        ⟨fun a ha => hfirst a (mem_of_mem_extractTimer ha), ih hrest⟩

/-- A new timer is either first, or the first timer stays. -/
theorem insertTimer_head? (key : Time) (t : TaskId) (l : List (Time × TaskId)) :
    (insertTimer key t l).head? = some (key, t) ∨ (insertTimer key t l).head? = l.head? := by
  cases l with
  | nil => exact .inl rfl
  | cons e rest =>
    unfold insertTimer
    split
    · exact .inr rfl
    · exact .inl rfl

theorem InOrder.expedite (h : InOrder s.timers) (t : TaskId) : InOrder (s.expedite t).timers := by
  unfold State.expedite
  split
  · split
    · exact (h.extractTimer t).insertTimer timeMin t
    · exact h
  · exact h

/-! ### Calls that hold the mutex -/

/-- Program counters between the insertion of a timer and the release of `mu`. -/
def DelayPc.inside : DelayPc → Bool
  | .admitting | .rechecking | .publishing _ | .signalling => true
  | _ => false

/-- Whether call `i` is there. -/
def State.inside (s : State) (i : TaskId) : Bool := (s.pcOf i).any DelayPc.inside

theorem inside_eq (hc : s.calls[i]? = some c) : s.inside i = c.pc.inside := by
  simp [inside, pcOf, hc]

theorem inside_set (s' : State)
    (hc : s.calls[i]? = some c) (hcalls : s'.calls = s.calls.set i c') (t : TaskId) :
    s'.inside t = if t = i then c'.pc.inside else s.inside t := by
  by_cases ht : t = i
  · subst ht
    rw [if_pos rfl, inside_eq (hcalls ▸ getElem?_set_some hc c')]
  · rw [if_neg ht, inside, inside, pcOf_set hc hcalls (.inl ht)]

theorem inside_set_same (hc : s.calls[i]? = some c) (hcalls : s'.calls = s.calls.set i c')
    (hpc : c'.pc.inside = c.pc.inside) (t : TaskId) : s'.inside t = s.inside t := by
  rw [inside_set s' hc hcalls]
  split
  next ht =>
    subst ht
    rw [hpc, inside_eq hc]
  · rfl

theorem inside_congr (h : ∀ j, s'.pcOf j = s.pcOf j) (t : TaskId) : s'.inside t = s.inside t := by
  rw [inside, inside, h t]

/-! ### The sleeping scheduler -/

/-- The scheduler in its main wait. -/
def SchedulerPc.sleeps : SchedulerPc → Bool
  | .waiting _ => true
  | _ => false

/-- What the scheduler's wake time has to do with the timer queue. -/
structure SleepInv (s : State) : Prop where
  sorted : InOrder s.timers
  mutex : ∀ i, s.inside i → s.mu = some i
  parked : ∀ next, s.scheduler = .waiting next → s.queueChanged = false →
    next = s.timers.head?.map Prod.fst ∨ ∃ i, s.inside i ∧ s.isFirst i

theorem init_sleepInv : SleepInv init := by
  constructor
  · exact Pairwise.nil
  · simp [init, inside, pcOf]
  · simp [init]

/-- No call enters or leaves the critical section. -/
theorem SleepInv.setCalls {calls : List DelayCall} (h : SleepInv s)
    (hinside : ∀ i, inside { s with calls } i = s.inside i) : SleepInv { s with calls } where
  sorted := h.sorted
  mutex i hi := h.mutex i ((hinside i).symm.trans hi)
  parked next hnext hqc := by
    refine (h.parked next hnext hqc).imp id ?_
    rintro ⟨i, hi, hfirst⟩
    exact ⟨i, (hinside i).trans hi, hfirst⟩

/-- Steps of a call that keep it inside or outside. -/
theorem SleepInv.setCall (h : SleepInv s)
    (hc : s.calls[i]? = some c) (hpc : c'.pc.inside = c.pc.inside) : SleepInv (s.setCall i c') :=
  h.setCalls (inside_set_same hc rfl hpc)

/-- A scheduler that is signalled is not asleep for long. -/
theorem SleepInv.signalled (h : SleepInv s) : SleepInv { s with queueChanged := true } :=
  { h with parked := fun _ _ hq => by cases hq }

theorem Ensured.mu (he : Ensured s s₁) : s₁.mu = s.mu := by
  cases he <;> rfl

section

variable (h : SleepInv s)
include h

/-- A scheduler that `ensureTaskStorageLocked` made does not sleep. -/
theorem SleepInv.ensured (he : Ensured s s₁) : SleepInv s₁ := by
  cases he with
  | present => exact h
  | fresh => exact { h with parked := fun _ hf => by cases hf }

/-- A `delay` call inserts its timer: if it comes first, the call is now the one to send. -/
theorem SleepInv.enqueue
    (hc : s.calls[i]? = some c) (hmu : s.mu = none) : SleepInv ((s.accept i).enqueue i c) := by
  have hinside := inside_set ((s.accept i).enqueue i c) hc rfl
  have hfree : ∀ t, s.inside t → False := by
    intro t ht
    have := h.mutex t ht
    simp [hmu] at this
  refine ⟨h.sorted.insertTimer _ i, ?_, ?_⟩
  · intro t ht
    rw [hinside] at ht
    split at ht
    next hti =>
      rw [hti]
      rfl
    · exact absurd ht (fun ht => hfree t ht)
  · intro next hnext hq
    have hold : next = s.timers.head?.map Prod.fst := by
      refine (h.parked next hnext hq).resolve_right ?_
      rintro ⟨t, ht, -⟩
      exact hfree t ht
    rcases insertTimer_head? (if c.cancelRequested then timeMin else c.runAt) i s.timers
      with hfirst | hkeep
    · refine .inr ⟨i, ?_, ?_⟩
      · rw [hinside, if_pos rfl]
        rfl
      · simp [isFirst, State.enqueue, accept, hfirst]
    · exact .inl (hold.trans (congrArg _ hkeep.symm))

/-- The end of a `delay` call: it sends if its timer is first. -/
theorem SleepInv.signal (hc : s.calls[i]? = some c) (hpc : c.pc = .signalling) :
    SleepInv { s.setCall i { c with pc := .leaving } with
      queueChanged := s.queueChanged || s.isFirst i, mu := none } := by
  have hin : s.inside i := by rw [inside_eq hc, hpc]; rfl
  have hinside := inside_set { s.setCall i { c with pc := .leaving } with
    queueChanged := s.queueChanged || s.isFirst i, mu := none } hc rfl
  -- Nobody else is inside, because `i` holds the mutex.
  have honly : ∀ t, s.inside t → t = i := by
    intro t ht
    have hmu := (h.mutex t ht).symm.trans (h.mutex i hin)
    exact some.inj hmu
  refine ⟨h.sorted, ?_, ?_⟩
  · intro t ht
    rw [hinside] at ht
    split at ht
    · cases ht
    next hti =>
      exact absurd (honly t ht) hti
  · intro next hnext hq
    have hq' : (s.queueChanged || s.isFirst i) = false := hq
    rw [Bool.or_eq_false_iff] at hq'
    refine .inl ((h.parked next hnext hq'.1).resolve_right ?_)
    rintro ⟨t, ht, hfirst⟩
    simp [honly t ht, hq'.2] at hfirst

/-- A step of `delay`: whoever puts a timer in front is about to send. -/
theorem delayMove_sleepInv (hc : s.calls[i]? = some c) (hm : DelayMove s i c s') : SleepInv s' := by
  cases hm with
  | nodeFail now hpc hmu s₁ he =>
    exact (h.ensured he).setCall (he.calls ▸ hc) (by rw [hpc]; rfl)
  | immediate now hpc hmu hopen s₁ he =>
    exact { (h.ensured he).setCall (he.calls ▸ hc) (by rw [hpc]; rfl) with }
  | enqueue now hpc hmu hopen s₁ he =>
    exact (h.ensured he).enqueue (he.calls ▸ hc) (he.mu ▸ hmu)
  | recheck hpc =>
    refine h.setCall hc ?_
    rw [hpc]
    dsimp only
    split <;> rfl
  | send hpc => exact h.signalled.setCall hc (by rw [hpc]; rfl)
  | signal hpc => exact h.signal hc hpc
  | _ => exact { h.setCall hc (by simp [DelayPc.inside, *]) with }

theorem cancelMove_sleepInv {k : Nat}
    (hc : s.calls[x.task]? = some c) (hm : CancelMove s k x c s') : SleepInv s' := by
  have hinside := inside_congr (hm.pcOf hc)
  cases hm with
  | send => exact { h.signalled.setCalls hinside with }
  | _ => exact { h.setCalls hinside with }

/-- A step of the scheduler, which plans its sleep under `mu`. -/
theorem schedulerMove_sleepInv (hm : SchedulerMove s s') : SleepInv s' := by
  have hinside := inside_congr hm.pcOf
  have hmutex : ∀ i, s'.inside i → s.mu = some i := fun i hi =>
    h.mutex i ((hinside i).symm.trans hi)
  cases hm with
  | expedite t rest | finalExpedite t rest =>
    have hsorted := h.sorted.expedite t
    obtain ⟨timers, heq⟩ := expedite_eq s t
    rw [heq] at hsorted hmutex ⊢
    exact ⟨hsorted, hmutex, by rintro _ ⟨⟩⟩
  | idle hpc hmu ht =>
    refine ⟨h.sorted, hmutex, fun next hnext _ => .inl ?_⟩
    cases hnext
    show none = s.timers.head?.map Prod.fst
    rw [ht]
    rfl
  | sleep hpc hmu key t rest ht hkey =>
    refine ⟨h.sorted, hmutex, fun next hnext _ => .inl ?_⟩
    cases hnext
    show some key = s.timers.head?.map Prod.fst
    rw [ht]
    rfl
  | take hpc hmu key t rest ht =>
    have hsorted := h.sorted
    rw [ht] at hsorted
    exact ⟨(pairwise_cons.mp hsorted).2, hmutex, by rintro _ ⟨⟩⟩
  | retry t hpc hmu =>
    exact ⟨h.sorted.insertTimer _ t, hmutex, by rintro _ ⟨⟩⟩
  | _ => exact { h with parked := fun _ hnext => by cases hnext }

/-- Every step keeps the plan of the sleep. -/
theorem step_sleepInv (hs : step s a = some s') : SleepInv s' := by
  cases move_of_step hs with
  | world | startAgain | startFail | callback | callStop => exact { h with }
  | start hmu hst s₁ he => exact { h.ensured he with }
  | callDelay ctx d =>
    refine h.setCalls (fun i => ?_)
    simp only [inside, pcOf, Option.any_map]
    exact any_append_singleton rfl i
  | delay i c hc s' hm => exact delayMove_sleepInv h hc hm
  | cancel k x c hx hc s' hm => exact cancelMove_sleepInv h hc hm
  | scheduler s' hm => exact schedulerMove_sleepInv h hm
  | coroutine k x hx s' hm =>
    cases hm with
    | claim hpc c hc hcl => exact { h.setCall hc (by rfl) with }
    | _ => exact { h with }
  | stop k x hx s' hm =>
    cases hm with
    | signal => exact { h.signalled with }
    | _ => exact { h with }

end

theorem reachable_sleepInv {ok : State → Action → Prop}
    (h : system.ReachableIf ok s) : SleepInv s :=
  h.invariant init_sleepInv (fun _ hi _ hs => step_sleepInv hi hs)

/-! ### The inbox -/

/-- Somebody pushed onto the inbox and is about to send the signal. -/
def State.sending (s : State) : Prop :=
  (∃ i, s.pcOf i = some (.publishing .sending)) ∨
    ∃ t, ⟨t, .publishing .sending⟩ ∈ s.cancellers

/-- The scheduler has looked at the inbox, or is looking, and will not look again before it
    has slept. -/
def SchedulerPc.looked : SchedulerPc → Bool
  | .draining _ | .inspecting | .waiting _ => true
  | _ => false

/-- An inbox that the scheduler has not seen is signalled. -/
def InboxInv (s : State) : Prop :=
  s.scheduler.looked → s.inbox ≠ [] → s.queueChanged ∨ s.sending

/-- **Frame rule.**  The inbox does not grow, signals and senders stay. -/
theorem InboxInv.frame (h : InboxInv s)
    (hsched : s'.scheduler.looked → s.scheduler.looked ∧
      (s.queueChanged → s'.queueChanged)) (hinbox : s'.inbox = s.inbox)
    (hsend : s.sending → s'.queueChanged ∨ s'.sending) : InboxInv s' := by
  intro hlook hne
  obtain ⟨hlook', hqc⟩ := hsched hlook
  rw [hinbox] at hne
  rcases h hlook' hne with hq | hsending
  · exact .inl (hqc hq)
  · exact hsend hsending

/-- Senders are untouched by a step of a call that is not one of them. -/
theorem sending_of_set (hc : s.calls[i]? = some c) (hcalls : s'.calls = s.calls.set i c')
    (hcan : s'.cancellers = s.cancellers) (hpc : c.pc ≠ .publishing .sending ∨ c'.pc = c.pc)
    (h : s.sending) : s'.sending := by
  rcases h with ⟨j, hj⟩ | ⟨t, ht⟩
  · refine .inl ⟨j, (pcOf_set hc hcalls ?_).trans hj⟩
    by_cases hji : j = i
    · right
      refine hpc.resolve_left (fun hne => hne ?_)
      rw [pcOf, hji, hc] at hj
      exact some.inj hj
    · exact .inl hji
  · exact .inr ⟨t, by rw [hcan]; exact ht⟩

theorem sending_congr (hpc : ∀ j, s'.pcOf j = s.pcOf j)
    (hcan : ∀ t, ⟨t, .publishing .sending⟩ ∈ s.cancellers →
      ⟨t, .publishing .sending⟩ ∈ s'.cancellers) (h : s.sending) : s'.sending := by
  rcases h with ⟨j, hj⟩ | ⟨t, ht⟩
  · exact .inl ⟨j, (hpc j).trans hj⟩
  · exact .inr ⟨t, hcan t ht⟩

section

variable (h : InboxInv s)
include h

/-- Steps of a `delay` call that is not sending. -/
theorem InboxInv.setCall (hc : s.calls[i]? = some c)
    (hpc : c.pc ≠ .publishing .sending) : InboxInv (s.setCall i c') :=
  h.frame (fun hlook => ⟨hlook, id⟩) rfl
    (fun hsend => .inr (sending_of_set hc rfl rfl (.inl hpc) hsend))

theorem InboxInv.ensured (he : Ensured s s₁) : InboxInv s₁ := by
  cases he with
  | present => exact h
  | fresh => exact fun hlook => by cases hlook

/-- A step of `delay`. -/
theorem delayMove_inboxInv (hc : s.calls[i]? = some c) (hm : DelayMove s i c s') : InboxInv s' := by
  cases hm with
  | nodeFail now hpc hmu s₁ he | immediate now hpc hmu hopen s₁ he
  | enqueue now hpc hmu hopen s₁ he =>
    exact (h.ensured he).setCall (he.calls ▸ hc) (by simp [hpc])
  | signal hpc =>
    refine h.frame (fun hlook => ⟨hlook, fun hq => ?_⟩) rfl
      (fun hsend => .inr (sending_of_set hc rfl rfl (.inl (by simp [hpc])) hsend))
    show (s.queueChanged || s.isFirst i)
    rw [hq]
    rfl
  | push hpc =>
    refine fun _ _ => .inr (.inl ⟨i, ?_⟩)
    exact congrArg (Option.map DelayCall.pc) (getElem?_set_some hc _)
  | send hpc => exact fun _ _ => .inl rfl
  | _ => exact h.setCall hc (by simp [*])

/-- A stop callback that pushes a task is about to send. -/
theorem cancelMove_inboxInv (hx : s.cancellers[k]? = some x)
    (hc : s.calls[x.task]? = some c) (hm : CancelMove s k x c s') : InboxInv s' := by
  have hpcOf := hm.pcOf hc
  have hother : ∀ pc : CancelPc, x.pc ≠ .publishing .sending →
      ∀ t, ⟨t, .publishing .sending⟩ ∈ s.cancellers →
        ⟨t, .publishing .sending⟩ ∈ s.cancellers.set k { x with pc := pc } := by
    intro pc hne t ht
    refine mem_set_of_ne hx ht (fun heq => hne ?_)
    rw [← heq]
  cases hm with
  | again hpc | request hpc | early hpc | admitted hpc | published hpc | exchange hpc =>
    exact h.frame (fun hlook => ⟨hlook, id⟩) rfl
      (fun hsend => .inr (sending_congr hpcOf (hother _ (by simp [hpc])) hsend))
  | push hpc => exact fun _ _ => .inr (.inr ⟨x.task, mem_set (lt_of_getElem? hx) _⟩)
  | send hpc => exact fun _ _ => .inl rfl

/-- A step of the scheduler. -/
theorem schedulerMove_inboxInv (hm : SchedulerMove s s') : InboxInv s' := by
  have hpcOf := hm.pcOf
  cases hm with
  | drain | finalDrain => exact fun _ hne => absurd rfl hne
  | expedite t rest hpc =>
    obtain ⟨timers, heq⟩ := expedite_eq s t
    rw [heq] at hpcOf ⊢
    exact h.frame (fun _ => ⟨by rw [hpc]; rfl, id⟩) rfl
      (fun hsend => .inr (sending_congr hpcOf (fun _ hu => hu) hsend))
  | drained hpc | idle hpc | sleep hpc =>
    exact h.frame (fun _ => ⟨by rw [hpc]; rfl, id⟩) rfl
      (fun hsend => .inr (sending_congr hpcOf (fun _ hu => hu) hsend))
  | _ => exact fun hlook => by cases hlook

/-- Every step keeps the inbox announced. -/
theorem step_inboxInv (hs : step s a = some s') : InboxInv s' := by
  cases move_of_step hs with
  | world | startAgain | startFail | callStop => exact h
  | start hmu hst s₁ he =>
    have h₁ := h.ensured he
    exact h₁
  | callDelay ctx d =>
    refine h.frame (fun hlook => ⟨hlook, id⟩) rfl (fun hsend => .inr ?_)
    rcases hsend with ⟨j, hj⟩ | hcan
    · obtain ⟨c, hc, hpc⟩ := map_eq_some_iff.mp hj
      exact .inl ⟨j, map_eq_some_iff.mpr ⟨c, getElem?_concat hc _, hpc⟩⟩
    · exact .inr hcan
  | callback k τ t hk =>
    refine h.frame (fun hlook => ⟨hlook, id⟩) rfl (fun hsend => .inr ?_)
    exact sending_congr (s := s) (fun _ => rfl) (fun _ hu => mem_append_left _ hu) hsend
  | delay i c hc s' hm => exact delayMove_inboxInv h hc hm
  | cancel k x c hx hc s' hm => exact cancelMove_inboxInv h hx hc hm
  | scheduler s' hm => exact schedulerMove_inboxInv h hm
  | coroutine k x hx s' hm =>
    cases hm with
    | claim hpc c hc hcl =>
      exact h.frame (fun hlook => ⟨hlook, id⟩) rfl
        (fun hsend => .inr (sending_of_set hc rfl rfl (.inr rfl) hsend))
    | _ => exact h
  | stop k x hx s' hm =>
    cases hm with
    | signal => exact fun _ _ => .inl rfl
    | _ => exact h

end

theorem reachable_inboxInv {ok : State → Action → Prop} (h : system.ReachableIf ok s) :
    InboxInv s :=
  h.invariant (fun hlook => by cases hlook) (fun _ hi _ hs => step_inboxInv hi hs)

end ServiceLib.DelayPool
