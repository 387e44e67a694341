import ServiceLib.DelayPool.Cancellation

namespace ServiceLib.DelayPool

/-!
# Delay pool — the scheduler wakes in time

The scheduler's own steps keep every requested cancellation covered: what it takes from the
inbox it moves to the front, and it goes to sleep only on a queue without anything due.

`scheduler_wakes` collects the guarantees.
-/

open List Option State

/-! ### Steps of the scheduler -/

variable {s s' : State} {t i : TaskId} {u : TaskId}

/-- A task is in the timer queue at most once. -/
theorem TaskInv.timer_unique (h : TaskInv s)
    (ht : t ∈ s.queuedTasks) : t ∉ (extractTimer t s.timers).map Prod.snd := by
  have hcount := extractTimer_count ht t
  have hbal := h.balance t
  have hone := h.count_le_one t
  rw [if_pos rfl] at hcount
  have hqueued : s.queuedTasks.count t = (s.timers.map Prod.snd).count t := rfl
  exact count_eq_zero.mp (by omega)

/-- The scheduler moves the timer of `t` to the front: nothing more is to be done for it. -/
theorem TaskInv.settled_expedite (h : TaskInv s) (t : TaskId) :
    ∀ key, (key, t) ∈ (s.expedite t).timers → key = timeMin := by
  intro key hkey
  unfold State.expedite at hkey
  have hqueued : (key, t) ∈ s.timers → (s.mark t).queued := fun hmem =>
    (h.queued_iff t).mp (mem_map.mpr ⟨_, hmem, rfl⟩)
  split at hkey
  next c hc =>
    split at hkey
    next hq =>
      rcases mem_insertTimer.mp hkey with heq | hmem
      · exact congrArg Prod.fst heq
      · have hin : t ∈ s.queuedTasks := (h.queued_iff t).mpr (by rw [mark_eq hc]; exact hq)
        exact absurd (mem_map.mpr ⟨_, hmem, rfl⟩) (h.timer_unique hin)
    next hq =>
      have := hqueued hkey
      rw [mark_eq hc] at this
      exact absurd this hq
  next hc =>
    have := hqueued hkey
    simp [mark, hc] at this

/-- The timers of other tasks stay where they are. -/
theorem mem_expedite_of_ne (hu : u ≠ t) {key : Time}
    (hmem : (key, u) ∈ (s.expedite t).timers) : (key, u) ∈ s.timers := by
  unfold State.expedite at hmem
  split at hmem
  · split at hmem
    · rcases mem_insertTimer.mp hmem with heq | hmem
      · exact absurd (congrArg Prod.snd heq) hu
      · exact mem_of_mem_extractTimer hmem
    · exact hmem
  · exact hmem

/-- The scheduler is awake behind the step, and the timer of `t` is where it was, or gone. -/
theorem State.Settled.awake (h : s.Settled t)
    (htimers : ∀ key, (key, t) ∈ s'.timers → (key, t) ∈ s.timers) (hworld : s'.world = s.world)
    (hawake : s'.scheduler.sleeps = false) : s'.Settled t := by
  intro key hkey
  rw [hworld]
  exact (h key (htimers key hkey)).imp id (fun hdue => ⟨hdue.1, hawake⟩)

/-- One task of the drained inbox is dealt with. -/
theorem CancelInvAt.expedite {rest : List TaskId}
    (h : CancelInvAt s t) (hinv : TaskInv s) (hdr : s.scheduler.drained = u :: rest)
    (pc : SchedulerPc) (hawake : pc.sleeps = false) (hpc : pc.drained = rest)
    (hprog : progress { s.expedite u with scheduler := pc } t = s.progress t) :
    CancelInvAt { s.expedite u with scheduler := pc } t := by
  have hmoved : t = u → State.Settled { s.expedite u with scheduler := pc } t := by
    rintro rfl key hkey
    exact .inl (hinv.settled_expedite t key hkey)
  have hother : t ≠ u → ∀ key, (key, t) ∈ (s.expedite u).timers → (key, t) ∈ s.timers :=
    fun htu _ hmem => mem_expedite_of_ne htu hmem
  obtain ⟨timers, heq⟩ := expedite_eq s u
  rw [heq] at hmoved hother hprog ⊢
  refine h.frame hprog (fun _ _ => Iff.rfl) (fun hin => .inbox hin) (fun hd => ?_) (fun hset => ?_)
  · rw [hdr] at hd
    rcases mem_cons.mp hd with htu | hd
    · exact .settled (hmoved htu)
    · exact .drained (by rw [show SchedulerPc.drained _ = rest from hpc]; exact hd)
  · by_cases htu : t = u
    · exact .settled (hmoved htu)
    · exact .settled (hset.awake (hother htu) rfl hawake)

/-- A step of the scheduler that neither drains nor sleeps, and at most removes timers. -/
theorem CancelInvAt.schedulerStep (h : CancelInvAt s t)
    (hprog : s'.progress t = s.progress t) (hcan : s'.cancellers = s.cancellers)
    (hinbox : s'.inbox = s.inbox) (hdr : s.scheduler.drained = [])
    (htimers : ∀ key, (key, t) ∈ s'.timers → (key, t) ∈ s.timers) (hworld : s'.world = s.world)
    (hawake : s'.scheduler.sleeps = false) : CancelInvAt s' t := by
  refine h.frame hprog (fun q _ => by rw [hcan]) (fun hin => .inbox (by rw [hinbox]; exact hin))
    (fun hd => ?_) (fun hset => .settled (hset.awake htimers hworld hawake))
  simp [hdr] at hd

/-- A step of the scheduler. -/
theorem schedulerMove_cancelInvAt (h : CancelInvAt s t)
    (hinv : TaskInv s) (hsleep : SleepInv s) (hm : SchedulerMove s s') : CancelInvAt s' t := by
  have hprog := hm.progress t
  cases hm with
  | drain hpc | finalDrain hpc =>
    refine h.frame rfl (fun _ _ => Iff.rfl) (fun hin => .drained hin) (fun hd => ?_)
      (fun hset => .settled (hset.awake (fun _ hk => hk) rfl rfl))
    rw [hpc] at hd
    cases hd
  | expedite u rest hpc =>
    exact h.expedite hinv (by rw [hpc]; rfl) (.draining rest) rfl rfl hprog
  | finalExpedite u rest hpc =>
    exact h.expedite hinv (by rw [hpc]; rfl) (.finalDraining rest) rfl rfl hprog
  | drained | stopping | finish | wake | dispatch | dispatchFail | retryWake =>
    exact h.schedulerStep rfl rfl rfl (by simp [SchedulerPc.drained, *]) (fun _ hk => hk) rfl rfl
  | take hpc hmu key u rest ht =>
    refine h.schedulerStep hprog rfl rfl (by rw [hpc]; rfl) (fun k hk => ?_) rfl rfl
    rw [ht]
    exact mem_cons_of_mem _ hk
  | idle hpc hmu ht =>
    refine h.frame rfl (fun _ _ => Iff.rfl) (fun hin => .inbox hin) (fun hd => ?_)
      (fun _ => .settled (fun key hkey => ?_))
    · rw [hpc] at hd
      cases hd
    · replace hkey : (key, t) ∈ s.timers := hkey
      simp [ht] at hkey
  | sleep hpc hmu first u rest ht hkey =>
    -- Whatever the clock has reached would have been taken instead.
    refine h.frame rfl (fun _ _ => Iff.rfl) (fun hin => .inbox hin) (fun hd => ?_)
      (fun hset => .settled (fun key hmem => ?_))
    · rw [hpc] at hd
      cases hd
    · refine (hset key hmem).imp id (fun hdue => ?_)
      have hsorted := hsleep.sorted
      replace hmem : (key, t) ∈ s.timers := hmem
      rw [ht] at hsorted hmem
      have hle : first ≤ key := by
        rcases mem_cons.mp hmem with heq | hmem
        · exact Int.le_of_eq (congrArg Prod.fst heq).symm
        · exact (pairwise_cons.mp hsorted).1 _ hmem
      exact absurd (Int.le_trans hle hdue.1) (Int.not_le.mpr hkey)
  | retry u hpc hmu =>
    refine h.frame hprog (fun _ _ => Iff.rfl) (fun hin => .inbox hin) (fun hd => ?_)
      (fun hset => .settled (fun key hkey => ?_))
    · rw [hpc] at hd
      cases hd
    · rcases mem_insertTimer.mp hkey with heq | hmem
      · -- The task was due; it is put back at the present instant.
        exact .inr ⟨Int.le_of_eq (congrArg Prod.fst heq), rfl⟩
      · exact (hset key hmem).imp id (fun hdue => ⟨hdue.1, rfl⟩)

/-! ### All steps -/

/-- What a step of a `delay` call leaves alone, besides the other calls. -/
structure OthersKept (s s' : State) (i : TaskId) : Prop where
  cancellers : s'.cancellers = s.cancellers
  inbox : ∀ u ∈ s.inbox, u ∈ s'.inbox
  timers : ∀ key t, t ≠ i → (key, t) ∈ s'.timers → (key, t) ∈ s.timers
  world : s'.world = s.world
  scheduler : s'.scheduler = s.scheduler ∨ s.tasks = false ∧ s'.scheduler = .loopHead

theorem Ensured.othersKept {s₁ : State} (he : Ensured s s₁) (i : TaskId) : OthersKept s s₁ i := by
  cases he with
  | present => exact ⟨rfl, fun _ hu => hu, fun _ _ _ hk => hk, rfl, .inl rfl⟩
  | fresh ht => exact ⟨rfl, fun _ hu => hu, fun _ _ _ hk => hk, rfl, .inr ⟨ht, rfl⟩⟩

/-- A `delay` call touches only the timers of its own task. -/
theorem DelayMove.othersKept {c : DelayCall} (hm : DelayMove s i c s') : OthersKept s s' i := by
  cases hm with
  | push => exact ⟨rfl, fun _ hu => mem_cons_of_mem _ hu, fun _ _ _ hk => hk, rfl, .inl rfl⟩
  | nodeFail now hpc hmu s₁ he | immediate now hpc hmu hopen s₁ he =>
    have hkept := he.othersKept i
    exact ⟨hkept.cancellers, hkept.inbox, hkept.timers, hkept.world, hkept.scheduler⟩
  | enqueue now hpc hmu hopen s₁ he =>
    have hkept := he.othersKept i
    refine ⟨hkept.cancellers, hkept.inbox, fun key t ht hk => ?_, hkept.world, hkept.scheduler⟩
    rcases mem_insertTimer.mp hk with heq | hmem
    · exact absurd (congrArg Prod.snd heq) ht
    · exact hkept.timers key t ht hmem
  | _ => exact ⟨rfl, fun _ hu => hu, fun _ _ _ hk => hk, rfl, .inl rfl⟩

/-- The tasks of the other calls. -/
theorem CancelInvAt.other (h : CancelInvAt s t)
    (hinv : TaskInv s) (hkept : OthersKept s s' i) (ht : t ≠ i)
    (hprog : s'.progress t = s.progress t) : CancelInvAt s' t := by
  have hidle : s.tasks = false → s.scheduler.drained = [] := fun hf => by
    rw [hinv.storage hf]
    rfl
  refine h.frame hprog (fun q _ => by rw [hkept.cancellers])
    (fun hin => .inbox (hkept.inbox t hin)) (fun hd => ?_) (fun hset => .settled ?_)
  · rcases hkept.scheduler with heq | ⟨hf, -⟩
    · exact .drained (by rw [heq]; exact hd)
    · simp [hidle hf] at hd
  · intro key hkey
    rw [hkept.world]
    refine (hset key (hkept.timers key t ht hkey)).imp id (fun hdue => ⟨hdue.1, ?_⟩)
    rcases hkept.scheduler with heq | ⟨-, hhead⟩
    · rw [heq]
      exact hdue.2
    · rw [hhead]
      rfl

theorem start_cancelInvAt {f : Bool} (h : CancelInvAt s t)
    (hinv : TaskInv s) (hs : s.start f = some s') : CancelInvAt s' t := by
  unfold start at hs
  split at hs
  · cases hs
  · split at hs
    · cases hs
      cases hok : (s.ensureTaskStorage f).2 with
      | true =>
        have he := ensured_of_ensureTaskStorage hok
        have hkept := he.othersKept (t + 1)
        rw [if_pos rfl]
        refine h.other hinv ⟨hkept.cancellers, hkept.inbox, hkept.timers, hkept.world,
          hkept.scheduler⟩ (Nat.ne_of_lt (Nat.lt_succ_self t)) ?_
        show (calls _)[t]?.map DelayCall.progress = _
        rw [he.calls]
        rfl
      | false =>
        obtain ⟨-, heq⟩ := ensureTaskStorage_fail hok
        rw [if_neg Bool.false_ne_true, heq]
        exact h.quiet
    · cases hs
      exact h

/-- **No step loses a cancellation.** -/
theorem step_cancelInv {a : Action} (h : CancelInv s) (hinv : TaskInv s)
    (hsleep : SleepInv s) (hs : step s a = some s') : CancelInv s' := by
  intro t
  cases a with
  | tick now =>
    simp only [step] at hs
    split at hs <;> cases hs
    exact (h t).quiet rfl (fun _ _ => Iff.rfl) ⟨rfl, rfl, ‹_›, fun _ hu => hu⟩
  | fire τ =>
    cases hs
    exact (h t).quiet rfl (fun _ _ => Iff.rfl) ⟨rfl, rfl, Int.le_refl _, fun _ hu => hu⟩
  | start f => exact start_cancelInvAt (h t) hinv hs
  | callDelay ctx d =>
    cases hs
    by_cases heq : t = s.calls.length
    · -- The new call has no flag set, and nobody has a reference to its task.
      subst heq
      have hfresh : s.progress s.calls.length = none := by
        rw [progress, getElem?_eq_none (Nat.le_refl _)]
        rfl
      have hnew : progress { s with
          calls := s.calls ++ [{ ctx, delayDuration := d, pc := .entered }] } s.calls.length =
          some ⟨.entered, false, false, false⟩ := by
        simp [progress, DelayCall.progress]
      refine ⟨fun p hp => ?_, fun q hmem hreq => ?_, fun p hp ha => ?_⟩
      · rw [hnew] at hp
        cases hp
        constructor <;> intro hf <;> cases hf
      · obtain ⟨p, hp, -⟩ := (h s.calls.length).requested q hmem hreq
        simp [hfresh] at hp
      · rw [hnew] at hp
        cases hp
        cases ha
    · exact (h t).quiet (congrArg (Option.map DelayCall.progress) (getElem?_concat_of_ne heq _))
  | delay i f g =>
    obtain ⟨c, hc, hm⟩ := delayMove_of_delayStep hs
    by_cases ht : t = i
    · subst ht
      exact delayMove_cancelInvAt (h t) hc hm
    · obtain ⟨-, c', hcalls⟩ := hm.frame
      exact (h t).other hinv hm.othersKept ht (progress_set hc hcalls (.inl ht))
  | callback k =>
    simp only [step, runCallback] at hs
    split at hs
    · cases hs
    · split at hs <;> cases hs
      -- A callback that has only been started has not requested anything.
      refine (h t).quiet rfl (fun q hq => ?_)
      refine ⟨fun hmem => ?_, fun hmem => mem_append_left _ hmem⟩
      rcases mem_append.mp hmem with hmem | hmem
      · exact hmem
      · rw [(Canceller.mk.inj (mem_singleton.mp hmem)).2] at hq
        cases hq
  | cancel k =>
    obtain ⟨x, c, hx, hc, hm⟩ := cancelMove_of_cancelStep hs
    by_cases ht : t = x.task
    · subst ht
      exact cancelMove_cancelInvAt (h x.task) hx hc hm
    · have hmem := fun pc q => mem_setCanceller_iff hx pc ht q
      cases hm with
      | again | early | admitted =>
        exact (h t).quiet rfl (fun q _ => hmem _ q)
      | request | published | exchange | send =>
        exact (h t).quiet (progress_set hc rfl (.inl ht)) (fun q _ => hmem _ q)
      | push =>
        exact (h t).quiet (progress_set hc rfl (.inl ht)) (fun q _ => hmem _ q)
          ⟨rfl, rfl, Int.le_refl _, fun _ hu => mem_cons_of_mem _ hu⟩
  | scheduler f g =>
    exact schedulerMove_cancelInvAt (h t) hinv hsleep (schedulerMove_of_schedulerStep hs)
  | coroutine k =>
    obtain ⟨x, hx, hm⟩ := coroutineMove_of_coroutineStep hs
    cases hm with
    | claim hpc c hc hcl =>
      refine (h t).quiet (progress_set hc rfl ?_)
      exact .inr rfl
    | _ => exact (h t).quiet
  | callStop ctx b =>
    cases hs
    exact (h t).quiet
  | stop k =>
    obtain ⟨x, hx, hm⟩ := stopMove_of_stopStep hs
    cases hm <;> exact (h t).quiet

/-- Nor does a run. -/
theorem reachable_cancelInv {ok : State → Action → Prop}
    (h : system.ReachableIf ok s) : CancelInv s :=
  h.invariant init_cancelInv
    (fun hr hi _ hs => step_cancelInv hi (reachable_taskInv hr) (reachable_sleepInv hr) hs)

/-! ### The guarantees of the scheduler -/

/-- The least key in the timer queue. -/
def State.leastKey (s : State) : Option Time := (s.timers.map Prod.fst).min?

/-- The first key is the least one. -/
theorem InOrder.min?_eq {l : List (Time × TaskId)} (h : InOrder l) :
    (l.map Prod.fst).min? = l.head?.map Prod.fst := by
  cases l with
  | nil => rfl
  | cons e rest =>
    show (e.1 :: rest.map Prod.fst).min? = some e.1
    rw [min?_eq_some_iff]
    refine ⟨mem_cons_self, fun b hb => ?_⟩
    rcases mem_cons.mp hb with rfl | hb
    · exact Int.le_refl _
    · obtain ⟨a, ha, rfl⟩ := mem_map.mp hb
      exact (pairwise_cons.mp h).1 a ha

/-- Task `t` is admitted, in the timer queue, and its cancellation was requested. -/
def State.cancelledTimer (s : State) (t : TaskId) : Bool :=
  s.calls[t]?.any (fun c => c.admitted && c.queued && c.cancelRequested)

/-- A cancelled timer is queued, and somebody will see to it. -/
theorem cancelledTimer_covered (h : system.Reachable s) (ht : s.cancelledTimer t) :
    Covered s t ∧ ∃ key, (key, t) ∈ s.timers := by
  unfold cancelledTimer at ht
  cases hc : s.calls[t]? with
  | none => simp [hc] at ht
  | some c =>
    rw [hc, any_some, Bool.and_eq_true, Bool.and_eq_true] at ht
    obtain ⟨⟨hadm, hqueued⟩, hreq⟩ := ht
    refine ⟨(reachable_cancelInv h t).covered _ (progress_eq hc) hadm hreq, ?_⟩
    have hmem := ((reachable_taskInv h).queued_iff t).mpr (by rw [mark_eq hc]; exact hqueued)
    obtain ⟨⟨key, u⟩, hkey, rfl⟩ := mem_map.mp hmem
    exact ⟨key, hkey⟩

/-- **The scheduler neither oversleeps nor loses a cancellation.**  In every reachable state:
    a scheduler that sleeps in its main wait without a signal sleeps until the least key of
    the timer queue, or the `delay` call that put a timer in front of it holds `mu` and is
    about to send; the inbox is empty or a publisher is about to send; and every admitted
    timer whose cancellation was requested is in the inbox, about to be published, or at the
    front.
    While the scheduler is awake such a timer may also be among those it took from the inbox
    and has yet to move, or, after a failed dispatch, back in the queue at an instant that the
    clock has reached. -/
theorem scheduler_wakes {s : State} (h : system.Reachable s) :
    (∀ next, s.scheduler = .waiting next → s.queueChanged = false →
      (next = s.leastKey ∨ ∃ i, s.mu = some i ∧ s.inside i = true ∧ s.isFirst i = true) ∧
      (s.inbox = [] ∨ s.sending) ∧
      ∀ t, s.cancelledTimer t = true →
        t ∈ s.inbox ∨ s.aboutToPublish t ∨ (timeMin, t) ∈ s.timers) ∧
    (∀ t, s.cancelledTimer t = true →
      t ∈ s.inbox ∨ s.aboutToPublish t ∨ (timeMin, t) ∈ s.timers ∨
        t ∈ s.scheduler.drained ∨ ∃ key, (key, t) ∈ s.timers ∧ key ≤ s.world.now) := by
  have hsleep := reachable_sleepInv h
  refine ⟨fun next hnext hqc => ⟨?_, ?_, fun t ht => ?_⟩, fun t ht => ?_⟩
  · rw [leastKey, hsleep.sorted.min?_eq]
    refine (hsleep.parked next hnext hqc).imp id ?_
    rintro ⟨i, hin, hfirst⟩
    exact ⟨i, hsleep.mutex i hin, hin, hfirst⟩
  · by_cases hin : s.inbox = []
    · exact .inl hin
    · refine .inr ((reachable_inboxInv h (by rw [hnext]; rfl) hin).resolve_left ?_)
      rw [hqc]
      exact Bool.false_ne_true
  · obtain ⟨hcov, key, hkey⟩ := cancelledTimer_covered h ht
    cases hcov with
    | publish hpub => exact .inr (.inl hpub)
    | inbox hin => exact .inl hin
    | drained hd => rw [hnext] at hd; cases hd
    | settled hset =>
      rcases hset key hkey with rfl | ⟨-, hawake⟩
      · exact .inr (.inr hkey)
      · rw [hnext] at hawake
        cases hawake
  · obtain ⟨hcov, key, hkey⟩ := cancelledTimer_covered h ht
    cases hcov with
    | publish hpub => exact .inr (.inl hpub)
    | inbox hin => exact .inl hin
    | drained hd => exact .inr (.inr (.inr (.inl hd)))
    | settled hset =>
      rcases hset key hkey with rfl | ⟨hdue, -⟩
      · exact .inr (.inr (.inl hkey))
      · exact .inr (.inr (.inr (.inr ⟨key, hkey, hdue⟩)))

/-- A cancelled timer whose first dispatch fails, up to where it is back in the queue. -/
def putBackSchedule : List Action :=
  [ [.start false, .callDelay { stopToken := some 7 } 10],
    replicate 9 (.delay 0 false false),
    [.fire 7, .callback 0], replicate 5 (.cancel 0),
    replicate 4 (.scheduler false false), [.scheduler true false, .scheduler false false]
  ].flatten

/-- The scheduler goes to sleep on an empty queue, then a `delay` call inserts its timer. -/
def insertSchedule : List Action :=
  [ [.start false], replicate 3 (.scheduler false false), [.callDelay {} 10],
    replicate 4 (.delay 0 false false) ].flatten

/-- Nobody is left to publish a task whose call has returned and whose callbacks are over. -/
theorem not_aboutToPublish (hpc : s.pcOf t = some .returned)
    (hcan : ∀ x ∈ s.cancellers, x.pc = .finished) : ¬ s.aboutToPublish t := by
  have hnot : ∀ p, ¬ s.publisher t p := by
    rintro p (hp | hmem)
    · simp [hpc] at hp
    · cases hcan _ hmem
  rintro (⟨-, hre | hcheck | hex⟩ | hpush)
  · simp [hpc] at hre
  · cases hcan _ hcheck
  · exact hnot _ hex
  · exact hnot _ hpush

/-- A task that is put back after a failed dispatch is not at the front, and until a `delay`
    call sends, a sleeping scheduler does not know of its timer. -/
theorem scheduler_putBack_insert :
    (∃ s, system.Reachable s ∧ s.cancelledTimer 0 = true ∧ 0 ∉ s.inbox ∧
      ¬ s.aboutToPublish 0 ∧ (timeMin, 0) ∉ s.timers) ∧
    (∃ s, system.Reachable s ∧ s.scheduler = .waiting none ∧ s.queueChanged = false ∧
      s.leastKey = some 10) := by
  constructor
  · obtain ⟨s, hs, ht, hin, hkey, hpc, hcan⟩ :=
      system.exists_reachable_of_run putBackSchedule
      (fun s => s.cancelledTimer 0 = true ∧ 0 ∉ s.inbox ∧ (timeMin, 0) ∉ s.timers ∧
        s.pcOf 0 = some .returned ∧ ∀ x ∈ s.cancellers, x.pc = .finished) (by decide +kernel)
    exact ⟨s, hs, ht, hin, not_aboutToPublish hpc hcan, hkey⟩
  · obtain ⟨s, hs, hsched, hqc, hkey⟩ := system.exists_reachable_of_run insertSchedule
      (fun s => s.scheduler = .waiting none ∧ s.queueChanged = false ∧
        s.leastKey = some 10) (by decide +kernel)
    exact ⟨s, hs, hsched, hqc, hkey⟩

/-- A timer is cancelled while the scheduler sleeps. -/
def cancelAsleepSchedule : List Action :=
  [ [.start false, .callDelay { stopToken := some 7 } 10],
    replicate 9 (.delay 0 false false), replicate 3 (.scheduler false false),
    [.scheduler false true], replicate 3 (.scheduler false false),
    [.fire 7, .callback 0], replicate 4 (.cancel 0) ].flatten

theorem scheduler_wakes_cancelAsleep :
    ∃ s, system.Reachable s ∧ s.scheduler = .waiting (some 10) ∧ s.queueChanged = false ∧
      s.inbox = [0] ∧ s.sending := by
  obtain ⟨s, hs, hsched, hqc, hin⟩ := system.exists_reachable_of_run cancelAsleepSchedule
    (fun s => s.scheduler = .waiting (some 10) ∧ s.queueChanged = false ∧
      s.inbox = [0]) (by decide +kernel)
  refine ⟨s, hs, hsched, hqc, hin, ?_⟩
  exact ((scheduler_wakes hs).1 _ hsched hqc).2.1.resolve_left (by rw [hin]; simp)

end ServiceLib.DelayPool
