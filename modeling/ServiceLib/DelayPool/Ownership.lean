import ServiceLib.DelayPool.Moves
import ServiceLib.Lib.ThreadList

namespace ServiceLib.DelayPool

/-!
# Delay pool — every accepted task has one owner

An accepted task is in the timer queue, in the hands of the scheduler, with a coroutine, or
finished, and never two of these at once (`TaskInv`).  Since `pending` is moved in the same
critical sections, it is the number of accepted tasks that are not finished.
-/

open List Option Coroutine State

/-! ### What ownership depends on -/

/-- The part of a call that says where its task is. -/
structure Mark where
  accepted : Bool := false
  claimed : Bool := false
  queued : Bool := false
  deriving DecidableEq

def DelayCall.mark (c : DelayCall) : Mark := ⟨c.pc.accepted, c.claimed, c.queued⟩

def State.mark (s : State) (t : TaskId) : Mark :=
  match s.calls[t]? with
  | some c => c.mark
  | none => {}

variable {c c' : DelayCall} {t i : TaskId} {s s' : State} {k : Nat} {x : Coroutine}

theorem mark_eq (hc : s.calls[t]? = some c) : s.mark t = c.mark := by
  simp [mark, hc]

/-- The marks after the record of call `i` was replaced. -/
theorem mark_set (s' : State) (hc : s.calls[i]? = some c) (hcalls : s'.calls = s.calls.set i c')
    (t : TaskId) : s'.mark t = if t = i then c'.mark else s.mark t := by
  have hlt : i < s.calls.length := lt_of_getElem? hc
  unfold mark
  rw [hcalls]
  by_cases ht : t = i
  · subst ht
    rw [getElem?_set_self hlt, if_pos rfl]
  · rw [getElem?_set_ne (Ne.symm ht), if_neg ht]

/-- What the new record leaves alone is the same for every task. -/
theorem mark_set_same (s' : State) (hc : s.calls[i]? = some c)
    (hcalls : s'.calls = s.calls.set i c') {α : Type} (f : Mark → α) (hmark : f c'.mark = f c.mark)
    (t : TaskId) : f (s'.mark t) = f (s.mark t) := by
  rw [mark_set s' hc hcalls]
  split
  next ht =>
    rw [hmark, ht, mark_eq hc]
  · rfl

theorem mark_append (hcalls : s'.calls = s.calls ++ [c]) (hmark : c.mark = {}) (t : TaskId) :
    s'.mark t = s.mark t := by
  unfold mark
  rw [hcalls]
  by_cases ht : t = s.calls.length
  · subst ht
    simpa using hmark
  · rw [getElem?_concat_of_ne ht]

theorem mark_setQueued (hc : s.calls[t]? = some c) (q : Bool) (u : TaskId) :
    (s.setQueued t q).mark u = if u = t then { s.mark t with queued := q } else s.mark u := by
  by_cases hu : u = t
  · subst hu
    simp [mark, setQueued, hc, DelayCall.mark]
  · simp [mark, setQueued, hu, Ne.symm hu]

/-! ### The timer queue -/

/-- Only the timers are written. -/
theorem expedite_eq (s : State) (t : TaskId) :
    ∃ timers, s.expedite t = { s with timers := timers } := by
  unfold State.expedite
  split
  · split
    · exact ⟨_, rfl⟩
    · exact ⟨s.timers, rfl⟩
  · exact ⟨s.timers, rfl⟩

/-- An insertion adds one entry. -/
theorem insertTimer_perm (key : Time) (t : TaskId) (l : List (Time × TaskId)) :
    (insertTimer key t l).Perm ((key, t) :: l) := by
  induction l with
  | nil => exact Perm.refl _
  | cons e rest ih =>
    unfold insertTimer
    split
    · exact (ih.cons e).trans (Perm.swap _ _ _)
    · exact Perm.refl _

theorem insertTimer_count (key : Time) (t u : TaskId) (l : List (Time × TaskId)) :
    ((insertTimer key t l).map Prod.snd).count u =
      (l.map Prod.snd).count u + if t = u then 1 else 0 := by
  rw [((insertTimer_perm key t l).map Prod.snd).count_eq, map_cons, count_cons]
  simp

/-- An extraction takes out one entry of the task. -/
theorem extractTimer_count {l : List (Time × TaskId)} (h : t ∈ l.map Prod.snd) (u : TaskId) :
    ((extractTimer t l).map Prod.snd).count u + (if t = u then 1 else 0) =
      (l.map Prod.snd).count u := by
  induction l with
  | nil => cases h
  | cons e rest ih =>
    unfold extractTimer
    split
    next he =>
      subst he
      rw [map_cons, count_cons]
      simp
    next he =>
      have hrest : t ∈ rest.map Prod.snd := by
        rcases mem_cons.mp h with h | h
        · exact absurd h.symm he
        · exact h
      have := ih hrest
      rw [map_cons, map_cons, count_cons, count_cons]
      omega

/-! ### The invariant -/

/-- Where the tasks of a delay pool are. -/
structure TaskInv (s : State) : Prop where
  balance : ∀ t, s.accepted.count t = s.queuedTasks.count t + s.scheduler.held.count t +
    s.dispatched.count t + s.finished.count t
  claimed : ∀ t, s.claimedTasks.count t + s.finished.count t = (s.mark t).claimed.toNat
  executed : ∀ t, s.executions.count t = s.runningTasks.count t + s.finished.count t
  nodup : s.accepted.Nodup
  accepted_iff : ∀ t, t ∈ s.accepted ↔ (s.mark t).accepted
  queued_iff : ∀ t, t ∈ s.queuedTasks ↔ (s.mark t).queued
  pending : s.pending = s.accepted.length - s.finished.length
  storage : s.tasks = false → s.scheduler = .absent

theorem init_taskInv : TaskInv init := by
  constructor <;> simp [init, queuedTasks, dispatched, claimedTasks,
    runningTasks, mark, SchedulerPc.held]

/-- The calls change, and the marks of their tasks do not. -/
theorem TaskInv.setCalls {calls : List DelayCall} (h : TaskInv s)
    (hmark : ∀ t, mark { s with calls } t = s.mark t) : TaskInv { s with calls } :=
  { h with
    claimed := fun t => (h.claimed t).trans (by rw [hmark])
    accepted_iff := fun t => (h.accepted_iff t).trans (by rw [hmark])
    queued_iff := fun t => (h.queued_iff t).trans (by rw [hmark]) }

/-- A call that moves on without its task changing hands. -/
theorem TaskInv.setCall (h : TaskInv s) (hc : s.calls[i]? = some c) (hmark : c'.mark = c.mark) :
    TaskInv (s.setCall i c') :=
  h.setCalls (mark_set_same _ hc rfl id hmark)

/-- The scheduler moves on and keeps its task. -/
theorem TaskInv.setScheduler (h : TaskInv s) {pc : SchedulerPc} (hne : s.scheduler ≠ .absent)
    (hheld : pc.held = s.scheduler.held) : TaskInv { s with scheduler := pc } :=
  { h with
    balance := fun t => (h.balance t).trans (by rw [← hheld]; rfl)
    storage := fun hf => absurd (h.storage hf) hne }

variable {s₁ : State}

/-- The storage is made before the first task comes. -/
theorem TaskInv.ensured (h : TaskInv s) (he : Ensured s s₁) : TaskInv s₁ := by
  cases he with
  | present => exact h
  | fresh ht =>
    have hheld : s.scheduler.held = [] := by
      rw [h.storage ht]
      rfl
    exact
      { h with
        balance := fun t => (h.balance t).trans (by rw [hheld]; rfl)
        storage := fun hf => by cases hf }

/-- A task that is not accepted is nowhere. -/
theorem TaskInv.nowhere (h : TaskInv s) (ht : (s.mark t).accepted = false) :
    t ∉ s.accepted ∧ s.queuedTasks.count t = 0 ∧ s.dispatched.count t = 0 ∧
      s.finished.count t = 0 := by
  have hnot : t ∉ s.accepted := by
    intro hmem
    simp [(h.accepted_iff t).mp hmem] at ht
  have hsum := h.balance t
  rw [count_eq_zero.mpr hnot] at hsum
  exact ⟨hnot, by omega, by omega, by omega⟩

theorem Ensured.calls (he : Ensured s s₁) : s₁.calls = s.calls := by
  cases he <;> rfl

theorem Ensured.call (he : Ensured s s₁) (hc : s.calls[i]? = some c) : s₁.calls[i]? = some c := by
  rw [he.calls]
  exact hc

/-! ### Acceptance -/

/-- The history after one more task was accepted. -/
theorem TaskInv.accept_history (h : TaskInv s) (hc : s.calls[i]? = some c)
    (hnew : c.pc.accepted = false) : (s.accepted ++ [i]).Nodup ∧
      s.pending + 1 = ((s.accepted ++ [i]).length : Int) - s.finished.length ∧
      ∀ t, (s.accepted ++ [i]).count t = s.accepted.count t + if i = t then 1 else 0 := by
  refine ⟨?_, ?_, fun t => ?_⟩
  · rw [nodup_append]
    refine ⟨h.nodup, (nodup_cons.mpr ⟨not_mem_nil, nodup_nil⟩), ?_⟩
    rintro a ha b hb rfl
    rw [mem_singleton.mp hb] at ha
    exact (h.nowhere (by rw [mark_eq hc]; exact hnew)).1 ha
  · have := h.pending
    rw [length_append, length_singleton]
    omega
  · rw [count_append, count_singleton]
    simp

/-- The marks say who is accepted, also after one more is. -/
theorem TaskInv.accept_iff (h : TaskInv s) (hc : s.calls[i]? = some c)
    (hcalls : s'.calls = s.calls.set i c') (hacc : c'.mark.accepted) (t : TaskId) :
    t ∈ s.accepted ++ [i] ↔ (s'.mark t).accepted := by
  rw [mark_set s' hc hcalls, mem_append, mem_singleton, h.accepted_iff t]
  by_cases ht : t = i
  · simp [ht, hacc]
  · simp [ht]

/-! ### Coroutines -/

theorem dispatched_dispatch (s : State) (i t : TaskId) :
    (s.dispatch i).dispatched.count t = s.dispatched.count t + if i = t then 1 else 0 := by
  refine (count_filterMap_append holds s.coroutines ⟨i, .claiming⟩ t).trans ?_
  simp [dispatched, holds, count_singleton]

theorem claimedTasks_dispatch (s : State) (i t : TaskId) :
    (s.dispatch i).claimedTasks.count t = s.claimedTasks.count t :=
  count_filterMap_append claims s.coroutines ⟨i, .claiming⟩ t

theorem runningTasks_dispatch (s : State) (i t : TaskId) :
    (s.dispatch i).runningTasks.count t = s.runningTasks.count t :=
  count_filterMap_append runs s.coroutines ⟨i, .claiming⟩ t

section

variable (h : TaskInv s)
include h

/-- An immediate task goes straight to a coroutine. -/
theorem TaskInv.immediate (hc : s.calls[i]? = some c) (hnew : c.pc.accepted = false) :
    TaskInv (((s.accept i).dispatch i).setCall i { c with pc := .leaving }) := by
  obtain ⟨hnodup, hpend, hcount⟩ := h.accept_history hc hnew
  -- The claim and the queue iterator of the task are untouched.
  have hmark := @mark_set_same _ _ _ _ (((s.accept i).dispatch i).setCall i
    { c with pc := .leaving }) hc rfl
  refine ⟨fun t => ?_, fun t => ?_, fun t => ?_, hnodup, h.accept_iff hc rfl rfl, fun t => ?_,
    hpend, h.storage⟩
  · show (s.accepted ++ [i]).count t = s.queuedTasks.count t + s.scheduler.held.count t +
      (s.dispatch i).dispatched.count t + s.finished.count t
    rw [dispatched_dispatch, hcount, h.balance t]
    omega
  · rw [hmark Mark.claimed rfl]
    show (s.dispatch i).claimedTasks.count t + _ = _
    rw [claimedTasks_dispatch]
    exact h.claimed t
  · show _ = (s.dispatch i).runningTasks.count t + _
    rw [runningTasks_dispatch]
    exact h.executed t
  · rw [hmark Mark.queued rfl]
    exact h.queued_iff t

/-- A timed task goes to the timer queue. -/
theorem TaskInv.enqueue (hc : s.calls[i]? = some c) (hnew : c.pc.accepted = false) :
    TaskInv ((s.accept i).enqueue i c) := by
  obtain ⟨hnodup, hpend, hcount⟩ := h.accept_history hc hnew
  have hmark := fun t => mark_set ((s.accept i).enqueue i c) hc rfl t
  have hqueue := fun t => insertTimer_count
    (if c.cancelRequested then timeMin else c.runAt) i t s.timers
  refine ⟨fun t => ?_, fun t => ?_, h.executed, hnodup, h.accept_iff hc rfl rfl, fun t => ?_,
    hpend, h.storage⟩
  · show (s.accepted ++ [i]).count t = ((insertTimer _ i s.timers).map Prod.snd).count t +
      s.scheduler.held.count t + s.dispatched.count t + s.finished.count t
    rw [hcount, h.balance t, hqueue t]
    show _ = (s.queuedTasks.count t + _) + _ + _ + _
    omega
  · rw [mark_set_same ((s.accept i).enqueue i c) hc rfl Mark.claimed rfl]
    exact h.claimed t
  · rw [← count_pos_iff]
    show 0 < ((insertTimer _ i s.timers).map Prod.snd).count t ↔ _
    rw [hqueue t, hmark]
    by_cases ht : t = i
    · subst ht
      simp [DelayCall.mark]
    · have hq := h.queued_iff t
      rw [← count_pos_iff] at hq
      rw [if_neg ht, if_neg (Ne.symm ht), ← hq]
      rfl

/-- A step of `delay`: its task changes hands when it is accepted, and only then. -/
theorem delayMove_taskInv (hc : s.calls[i]? = some c) (hm : DelayMove s i c s') : TaskInv s' := by
  obtain ⟨ctx, d, pc, runAt, claimed, requested, queued, admitted, published⟩ := c
  cases hm with
  | nodeFail now hpc hmu s₁ hs₁ =>
    cases hpc
    exact (h.ensured hs₁).setCall (hs₁.call hc) rfl
  | immediate now hpc hmu hopen s₁ hs₁ =>
    cases hpc
    exact (h.ensured hs₁).immediate (hs₁.call hc) rfl
  | enqueue now hpc hmu hopen s₁ hs₁ =>
    cases hpc
    exact (h.ensured hs₁).enqueue (hs₁.call hc) rfl
  | recheck hpc =>
    cases hpc
    refine h.setCall hc ?_
    cases requested <;> rfl
  | begin hpc | reject now e hpc | planTimed now runAt hpc | planNow now runAt hpc
  | registerFail now rest hpc | fired now τ rest hpc | subscribe now τ rest hpc
  | registered now hpc | refuse now e hpc | storageFail now hpc | admitted hpc | published hpc
  | exchange hpc | push hpc | send hpc | signal hpc | leave hpc | unwind e hpc =>
    cases hpc
    exact { h.setCall hc (by rfl) with }

/-! ### Cancellation callbacks and the scheduler -/

theorem cancelMove_taskInv {x : Canceller} (hc : s.calls[x.task]? = some c)
    (hm : CancelMove s k x c s') : TaskInv s' := by
  cases hm with
  | again | early | admitted => exact { h with }
  | request | published | exchange | push | send => exact { h.setCall hc (by rfl) with }

/-- A cancelled task that is still queued changes its place in the queue only. -/
theorem TaskInv.expedite (t : TaskId) : TaskInv (s.expedite t) := by
  unfold State.expedite
  split
  next c hc =>
    split
    next hq =>
      have hmem : t ∈ s.queuedTasks := (h.queued_iff t).mpr (by rw [mark_eq hc]; exact hq)
      have hcount : ∀ u, ((insertTimer timeMin t (extractTimer t s.timers)).map Prod.snd).count u =
          s.queuedTasks.count u := by
        intro u
        rw [insertTimer_count]
        exact extractTimer_count hmem u
      refine { h with balance := fun u => ?_, queued_iff := fun u => ?_ }
      · exact (h.balance u).trans (by rw [← hcount u]; rfl)
      · show u ∈ (insertTimer timeMin t (extractTimer t s.timers)).map Prod.snd ↔
          (s.mark u).queued
        rw [← count_pos_iff, hcount u, count_pos_iff]
        exact h.queued_iff u
    · exact h
  · exact h

end

section

variable (h : TaskInv s)
include h

/-- An accepted task has a call. -/
theorem TaskInv.exists_call (ht : t ∈ s.accepted) : ∃ c, s.calls[t]? = some c := by
  have hacc := (h.accepted_iff t).mp ht
  unfold mark at hacc
  split at hacc
  · exact ⟨_, ‹_›⟩
  · cases hacc

theorem TaskInv.count_le_one (t : TaskId) : s.accepted.count t ≤ 1 :=
  nodup_iff_count.mp h.nodup t

/-- The node of a task moves between the queue and the scheduler. -/
theorem TaskInv.setQueued (ht : t ∈ s.accepted) (q : Bool) (timers : List (Time × TaskId))
    (pc : SchedulerPc) (hpc : s.scheduler ≠ .absent) (hplace : ∀ u, (timers.map Prod.snd).count u +
    pc.held.count u = s.queuedTasks.count u + s.scheduler.held.count u)
    (hqueued : ∀ u, u ∈ timers.map Prod.snd ↔ if u = t then q = true else u ∈ s.queuedTasks) :
    TaskInv { s.setQueued t q with timers := timers, scheduler := pc } := by
  obtain ⟨c, hc⟩ := h.exists_call ht
  have hmark : ∀ u, mark { s.setQueued t q with timers := timers, scheduler := pc } u = _ :=
    fun u => mark_setQueued hc q u
  refine { h with
    balance := fun u => ?_, claimed := fun u => ?_, accepted_iff := fun u => ?_,
    queued_iff := fun u => ?_, storage := fun hf => absurd (h.storage hf) hpc }
  · have hbal := h.balance u
    have hu := hplace u
    show s.accepted.count u = (timers.map Prod.snd).count u + pc.held.count u +
      s.dispatched.count u + s.finished.count u
    omega
  · refine (h.claimed u).trans ?_
    rw [hmark]
    split
    next hu =>
      rw [hu]
    · rfl
  · refine (h.accepted_iff u).trans ?_
    rw [hmark]
    split
    next hu =>
      rw [hu]
    · rfl
  · rw [hmark]
    refine (hqueued u).trans ?_
    split
    · rfl
    · exact h.queued_iff u

/-- The scheduler takes the first node out of the queue. -/
theorem TaskInv.take {key : Time} {rest : List (Time × TaskId)} (ht : s.timers = (key, t) :: rest)
    (hpc : s.scheduler = .inspecting) :
    TaskInv { s.setQueued t false with timers := rest, scheduler := .ready t } := by
  have hqueue : ∀ u, s.queuedTasks.count u =
    (rest.map Prod.snd).count u + if t = u then 1 else 0 := by
    intro u
    rw [queuedTasks, ht, map_cons, count_cons]
    simp
  have hle := h.count_le_one t
  have hbal := h.balance t
  have hqt := hqueue t
  rw [if_pos rfl] at hqt
  refine h.setQueued (count_pos_iff.mp (by omega)) false rest (.ready t) (by simp [hpc])
    (fun u => ?_) (fun u => ?_)
  · rw [hqueue u, hpc]
    simp [SchedulerPc.held, count_singleton]
  · rw [← count_pos_iff, ← count_pos_iff, hqueue u]
    split
    next hu =>
      subst hu
      simp only [Bool.false_eq_true, iff_false]
      omega
    next hu =>
      rw [if_neg (Ne.symm hu), Nat.add_zero]

/-- A task whose dispatch failed goes back to the queue. -/
theorem TaskInv.retry (key : Time) (hpc : s.scheduler = .retrying t) :
    TaskInv { s.setQueued t true with
      timers := insertTimer key t s.timers, scheduler := .retryWait } := by
  have hheld : s.scheduler.held = [t] := by rw [hpc]; rfl
  have hbal := h.balance t
  rw [hheld, count_singleton_self] at hbal
  refine h.setQueued (count_pos_iff.mp (by omega)) true _ .retryWait (by simp [hpc])
    (fun u => ?_) (fun u => ?_)
  · rw [insertTimer_count, hheld, count_singleton]
    simp [SchedulerPc.held, queuedTasks]
  · rw [← count_pos_iff, insertTimer_count]
    split
    next hu =>
      simp [hu]
    next hu =>
      rw [if_neg (Ne.symm hu), Nat.add_zero, count_pos_iff]
      rfl

/-- The scheduler hands its task to a new coroutine. -/
theorem TaskInv.dispatch (hpc : s.scheduler = .ready t) :
    TaskInv { s.dispatch t with scheduler := .loopHead } := by
  refine { h with
    balance := fun u => ?_, claimed := fun u => ?_, executed := fun u => ?_,
    storage := fun hf => ?_ }
  · have hbal := h.balance u
    rw [hpc] at hbal
    show s.accepted.count u = s.queuedTasks.count u + [].count u +
      (s.dispatch t).dispatched.count u + s.finished.count u
    rw [dispatched_dispatch, hbal]
    simp only [SchedulerPc.held, count_singleton, count_nil, beq_iff_eq]
    omega
  · show (s.dispatch t).claimedTasks.count u + _ = _
    rw [claimedTasks_dispatch]
    exact h.claimed u
  · show _ = (s.dispatch t).runningTasks.count u + _
    rw [runningTasks_dispatch]
    exact h.executed u
  · simp [h.storage hf] at hpc

/-- A step of the scheduler. -/
theorem schedulerMove_taskInv (hm : SchedulerMove s s') : TaskInv s' := by
  cases hm with
  | drain hpc | drained hpc | stopping hpc | idle hpc | sleep hpc | finalDrain hpc
  | finish hpc | retryWake hpc | wake next hpc | dispatchFail t hpc =>
    exact { h.setScheduler (by simp [hpc]) (by rw [hpc]; rfl) with }
  | expedite t rest hpc | finalExpedite t rest hpc =>
    have hexp := h.expedite t
    obtain ⟨timers, heq⟩ := expedite_eq s t
    rw [heq] at hexp ⊢
    exact hexp.setScheduler (by simp [hpc]) (by rw [hpc]; rfl)
  | take hpc hmu key t rest ht => exact h.take ht hpc
  | dispatch t hpc => exact h.dispatch hpc
  | retry t hpc => exact h.retry _ hpc

end

/-! ### Dispatched coroutines -/

section

variable (hx : s.coroutines[k]? = some x)
include hx

theorem dispatched_setCoroutine (pc : CoroutinePc) (t : TaskId) :
    x.holds.toList.count t + (s.setCoroutine k x pc).dispatched.count t =
      (holds ⟨x.task, pc⟩).toList.count t + s.dispatched.count t :=
  count_filterMap_set holds hx { x with pc := pc } t

theorem claimedTasks_setCoroutine (pc : CoroutinePc) (t : TaskId) :
    x.claims.toList.count t + (s.setCoroutine k x pc).claimedTasks.count t =
      (claims ⟨x.task, pc⟩).toList.count t + s.claimedTasks.count t :=
  count_filterMap_set claims hx { x with pc := pc } t

theorem runningTasks_setCoroutine (pc : CoroutinePc) (t : TaskId) :
    x.runs.toList.count t + (s.setCoroutine k x pc).runningTasks.count t =
      (runs ⟨x.task, pc⟩).toList.count t + s.runningTasks.count t :=
  count_filterMap_set runs hx { x with pc := pc } t

end

/-- A claimed task is a dispatched one. -/
theorem claimedTasks_count_le (s : State) (t : TaskId) :
    s.claimedTasks.count t ≤ s.dispatched.count t := by
  refine count_filterMap_le (fun x u hx => ?_) s.coroutines t
  unfold claims at hx
  unfold holds
  split at hx <;> rename_i hpc
  · rw [hpc]; exact hx
  · rw [hpc]; exact hx
  · rw [hpc]; exact hx
  · cases hx

theorem runningTasks_count_le (s : State) (t : TaskId) :
    s.runningTasks.count t ≤ s.claimedTasks.count t := by
  refine count_filterMap_le (fun x u hx => ?_) s.coroutines t
  unfold runs at hx
  unfold claims
  split at hx <;> rename_i hpc
  · rw [hpc]; exact hx
  · cases hx

section

variable (h : TaskInv s) (hx : s.coroutines[k]? = some x)
include h hx

/-- **The claim always succeeds.**  A coroutine that is about to claim its task finds it
    unclaimed. -/
theorem TaskInv.unclaimed (hpc : x.pc = .claiming) : (s.mark x.task).claimed = false := by
  -- Were the coroutine to claim, its task would be claimed once more than it is now.
  have hd := dispatched_setCoroutine hx .resetting x.task
  have hc := claimedTasks_setCoroutine hx .resetting x.task
  have hle := claimedTasks_count_le (s.setCoroutine k x .resetting) x.task
  have hone := h.count_le_one x.task
  have hbal := h.balance x.task
  have hcl := h.claimed x.task
  simp only [holds, claims, hpc, toList_some, toList_none, count_singleton_self, count_nil] at hd hc
  cases hm : (s.mark x.task).claimed with
  | false => rfl
  | true =>
    rw [hm, Bool.toNat_true] at hcl
    omega

/-- A coroutine that moves to `pc`, after it has invoked the callbacks `ex` and finished the tasks
    `fin`: what it gives up of its task is what it leaves behind, and what it claims is marked. -/
theorem TaskInv.setCoroutine (pc : CoroutinePc) (calls : List DelayCall) (ex fin : List TaskId)
    (hholds : ∀ t, (holds ⟨x.task, pc⟩).toList.count t + fin.count t = x.holds.toList.count t)
    (hclaims : ∀ t, (claims ⟨x.task, pc⟩).toList.count t + fin.count t +
      (s.mark t).claimed.toNat = x.claims.toList.count t + (mark { s with calls } t).claimed.toNat)
    (hruns : ∀ t, (runs ⟨x.task, pc⟩).toList.count t + fin.count t =
      x.runs.toList.count t + ex.count t)
    (haccepted : ∀ t, (mark { s with calls } t).accepted = (s.mark t).accepted)
    (hqueued : ∀ t, (mark { s with calls } t).queued = (s.mark t).queued) :
    TaskInv { s.setCoroutine k x pc with
      calls, executions := s.executions ++ ex, finished := s.finished ++ fin,
      pending := s.pending - fin.length } := by
  refine { h with
    balance := fun t => ?_, claimed := fun t => ?_, executed := fun t => ?_, pending := ?_,
    accepted_iff := fun t => (h.accepted_iff t).trans (by rw [← haccepted t]; rfl),
    queued_iff := fun t => (h.queued_iff t).trans (by rw [← hqueued t]; rfl) }
  · have hd := dispatched_setCoroutine hx pc t
    have hbal := h.balance t
    have hh := hholds t
    show s.accepted.count t = s.queuedTasks.count t + s.scheduler.held.count t +
      (s.setCoroutine k x pc).dispatched.count t + (s.finished ++ fin).count t
    rw [count_append]
    omega
  · have hc := claimedTasks_setCoroutine hx pc t
    have hcl := h.claimed t
    have hh := hclaims t
    show (s.setCoroutine k x pc).claimedTasks.count t + (s.finished ++ fin).count t =
      (mark { s with calls } t).claimed.toNat
    rw [count_append]
    omega
  · have hr := runningTasks_setCoroutine hx pc t
    have hex := h.executed t
    have hh := hruns t
    show (s.executions ++ ex).count t =
      (s.setCoroutine k x pc).runningTasks.count t + (s.finished ++ fin).count t
    rw [count_append, count_append]
    omega
  · have hp := h.pending
    show s.pending - fin.length = (s.accepted.length : Int) - ((s.finished ++ fin).length : Int)
    rw [length_append]
    omega

/-- A coroutine claims its task, which nobody has claimed. -/
theorem TaskInv.claim (hpc : x.pc = .claiming) (hc : s.calls[x.task]? = some c)
    (hcl : c.claimed = false) :
    TaskInv ((s.setCall x.task { c with claimed := true }).setCoroutine k x .resetting) := by
  let calls := s.calls.set x.task { c with claimed := true }
  have hset := mark_set { s with calls } hc rfl
  have hsame := @mark_set_same _ _ _ _ { s with calls } hc rfl
  have h' := h.setCoroutine hx .resetting calls [] [] (by simp [holds, hpc]) (fun t => ?_)
    (by simp [runs, hpc]) (hsame Mark.accepted rfl) (hsame Mark.queued rfl)
  · simp only [append_nil, length_nil, Int.natCast_zero, Int.sub_zero] at h'
    exact { h' with }
  · rw [hset t]
    by_cases ht : t = x.task
    · simp [ht, mark_eq hc, DelayCall.mark, hcl, claims, hpc]
    · simp [ht, Ne.symm ht, claims, hpc]

/-- A step of a coroutine. -/
theorem coroutineMove_taskInv (hm : CoroutineMove s k x s') : TaskInv s' := by
  have hmove := fun pc ex fin hholds hclaims hruns =>
    h.setCoroutine hx pc s.calls ex fin hholds hclaims hruns (fun _ => rfl) (fun _ => rfl)
  cases hm with
  | lose hpc c hc hcl =>
    have hun := h.unclaimed hx hpc
    simp [mark_eq hc, DelayCall.mark, hcl] at hun
  | claim hpc c hc hcl => exact h.claim hx hpc hc hcl
  | reset hpc hidle =>
    have h' := hmove .invoking [] [] (by simp [holds, hpc]) (by simp [claims, hpc])
      (by simp [runs, hpc])
    simp only [append_nil, length_nil, Int.natCast_zero, Int.sub_zero] at h'
    exact { h' with }
  | invoke hpc =>
    have h' := hmove .running [x.task] [] (by simp [holds, hpc]) (by simp [claims, hpc])
      (by simp [runs, hpc])
    simp only [append_nil, length_nil, Int.natCast_zero, Int.sub_zero] at h'
    exact { h' with }
  | finish hpc hmu =>
    -- The coroutine gives up its task in the step that counts it as finished.
    have h' := hmove .exiting [] [x.task] (by simp [holds, hpc]) (by simp [claims, hpc])
      (by simp [runs, hpc])
    simp only [append_nil] at h'
    exact { h' with }
  | exit hpc =>
    have h' := hmove .finished [] [] (by simp [holds, hpc]) (by simp [claims, hpc])
      (by simp [runs, hpc])
    simp only [append_nil, length_nil, Int.natCast_zero, Int.sub_zero] at h'
    exact { h' with }

end

/-! ### Every step keeps the invariant -/

theorem stopMove_taskInv {x : StopCall} (h : TaskInv s) (hm : StopMove s k x s') : TaskInv s' := by
  cases hm <;> exact { h with }

/-- **Ownership is inductive.** -/
theorem step_taskInv {a : Action} (h : TaskInv s) (hs : step s a = some s') : TaskInv s' := by
  cases move_of_step hs with
  | world | startAgain | startFail | callback | callStop => exact { h with }
  | start hmu hst s₁ hs₁ => exact { h.ensured hs₁ with }
  | callDelay ctx d => exact h.setCalls (mark_append rfl rfl)
  | delay i c hc s' hm => exact delayMove_taskInv h hc hm
  | cancel k x c hx hc s' hm => exact cancelMove_taskInv h hc hm
  | scheduler s' hm => exact schedulerMove_taskInv h hm
  | coroutine k x hx s' hm => exact coroutineMove_taskInv h hx hm
  | stop k x hx s' hm => exact stopMove_taskInv h hm

/-- Every task has one owner in every run. -/
theorem reachable_taskInv {ok : State → Action → Prop} (h : system.ReachableIf ok s) : TaskInv s :=
  h.invariant init_taskInv (fun _ hi _ hs => step_taskInv hi hs)

end ServiceLib.DelayPool
