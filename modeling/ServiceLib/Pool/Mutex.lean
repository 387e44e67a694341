import ServiceLib.Lib.ThreadList
import ServiceLib.Pool.Lifecycle

namespace ServiceLib.Pool

/-!
# Pool — the mutex

Who is inside a critical section that spans several steps holds `mu_` (`MutexInv`).  Since
everything that closes the pool needs `mu_` as well, an `addTask` that passed its second
check inserts into a pool that is still running.
-/

open State

variable {Q R : Type}

/-- An executor between its wait predicate and its dequeue. -/
def ExecPc.inside : ExecPc → Bool
  | .woken | .dequeuing => true
  | _ => false

/-- An `addTask` call between its second check and its insertion. -/
def AddPc.inside : AddPc → Bool
  | .registering _ => true
  | _ => false

/-- The holders of `mu_` are the ones inside, and the pool runs while a caller is inside. -/
structure MutexInv (s : State Q R) : Prop where
  executor : ∀ e x, s.executors[e]? = some x → x.pc.inside → s.mu = some (.executor e)
  add : ∀ i c, s.adds[i]? = some c → c.pc.inside →
    s.mu = some (.add i) ∧ s.ctl.state = .running

theorem init_mutexInv [WaitQueue Q R] : MutexInv (init Q) where
  executor := by simp [init]
  add := by simp [init]

variable {e : Nat} {x : Executor} {s s' : State Q R} {c : AddCall R} {i : TaskId}

section

variable (h : MutexInv s)
include h

/-- While nobody holds `mu_`, nobody is inside. -/
theorem MutexInv.free_executor
    (hmu : s.mu = none) (hx : s.executors[e]? = some x) : x.pc.inside = false := by
  cases hin : x.pc.inside with
  | false => rfl
  | true => simp [h.executor e x hx hin] at hmu

theorem MutexInv.free_add (hmu : s.mu = none) (hc : s.adds[i]? = some c) : c.pc.inside = false := by
  cases hin : c.pc.inside with
  | false => rfl
  | true => simp [(h.add i c hc hin).1] at hmu

/-- Two coroutines are never inside at once. -/
theorem MutexInv.executor_unique {e' : Nat} {x' : Executor}
    (hx : s.executors[e]? = some x) (hx' : s.executors[e']? = some x') (hin : x.pc.inside)
    (hin' : x'.pc.inside) : e' = e := by
  have h₁ := h.executor e x hx hin
  rw [h.executor e' x' hx' hin'] at h₁
  cases h₁
  rfl

theorem MutexInv.add_outside (hx : s.executors[e]? = some x)
    (hin : x.pc.inside) (hc : s.adds[i]? = some c) : c.pc.inside = false := by
  cases hc' : c.pc.inside with
  | false => rfl
  | true =>
    have h₁ := h.executor e x hx hin
    simp [(h.add i c hc hc').1] at h₁

/-! ### Frame rules -/

/-- The control record may change while the state word stays `kRunning`. -/
theorem MutexInv.setCtl (c : Control)
    (hst : s.ctl.state = .running → c.state = .running) : MutexInv { s with ctl := c } :=
  { h with add := fun i c hc hin => (h.add i c hc hin).imp_right hst }

end

/-- A state in which nobody is inside. -/
theorem mutexInv_of_outside
    (hexec : ∀ (e : Nat) (x : Executor), s.executors[e]? = some x → x.pc.inside = false)
    (hadds : ∀ (i : TaskId) (c : AddCall R), s.adds[i]? = some c → c.pc.inside = false) :
    MutexInv s where
  executor := by
    intro e x hx hin
    simp [hexec e x hx] at hin
  add := by
    intro i c hc hin
    simp [hadds i c hc] at hin

theorem wakeExecutor_inside (x : Executor) : (wakeExecutor x).pc.inside = x.pc.inside := by
  unfold wakeExecutor
  split
  next hpc =>
    rw [hpc]
    rfl
  · rfl

section

variable (h : MutexInv s)
include h

/-- Waking executors brings nobody inside. -/
theorem MutexInv.notifyAll : MutexInv s.notifyAll where
  executor := by
    intro e x hx hin
    obtain ⟨y, hy, rfl⟩ : ∃ y, s.executors[e]? = some y ∧ wakeExecutor y = x := by
      simpa [State.notifyAll] using hx
    rw [wakeExecutor_inside] at hin
    exact h.executor e y hy hin
  add := h.add

/-- A move of an executor that does not get inside. -/
theorem MutexInv.setExecutor (hx : s.executors[e]? = some x) (x' : Executor)
    (hpc : x'.pc.inside → x.pc.inside) : MutexInv { s with executors := s.executors.set e x' } where
  executor := forall_getElem?_set h.executor (fun hin => h.executor _ x hx (hpc hin))
  add := h.add

theorem MutexInv.notified (hn : Notified s s') : MutexInv s' := by
  cases hn with
  | nobody => exact h
  | executor e c hx => exact h.setExecutor hx _ (by rintro ⟨⟩)
  | stop i hw => exact { h with }

/-- A move of a call that does not get inside. -/
theorem MutexInv.setAdd (hc : s.adds[i]? = some c) (pc : AddPc)
    (hpc : pc.inside → c.pc.inside) : MutexInv (s.setAdd i c pc) where
  executor := h.executor
  add := forall_getElem?_set h.add (fun hin => h.add _ c hc (hpc hin))

/-! ### Steps -/

/-- The executor inside leaves, and nobody is inside any more. -/
theorem MutexInv.leave (pc : ExecPc) (hx : s.executors[e]? = some x)
    (hin : x.pc.inside) (hpc : pc.inside = false)
    (hexec : s'.executors = (s.setExecutor e x pc).executors) (hadds : s'.adds = s.adds) :
    MutexInv s' := by
  refine mutexInv_of_outside ?_ ?_
  · intro e' x' hx'
    rw [hexec] at hx'
    rcases getElem?_set_cases hx' with ⟨-, rfl⟩ | ⟨hne, hx'⟩
    · exact hpc
    · cases hin' : x'.pc.inside with
      | false => rfl
      | true => exact absurd (h.executor_unique hx hx' hin hin') hne
  · intro i c hc
    rw [hadds] at hc
    exact h.add_outside hx hin hc

/-- The call inside leaves, and nobody is inside any more. -/
theorem MutexInv.addLeave (pc : AddPc) (hc : s.adds[i]? = some c)
    (hin : c.pc.inside) (hpc : pc.inside = false) (hadds : s'.adds = (s.setAdd i c pc).adds)
    (hexec : s'.executors = s.executors) : MutexInv s' := by
  refine mutexInv_of_outside ?_ ?_
  · intro e x hx
    rw [hexec] at hx
    cases hin' : x.pc.inside with
    | false => rfl
    | true => simp [h.add_outside hx hin' hc] at hin
  · intro i' c' hc'
    rw [hadds] at hc'
    rcases getElem?_set_cases hc' with ⟨-, rfl⟩ | ⟨hne, hc'⟩
    · exact hpc
    · cases hin' : c'.pc.inside with
      | false => rfl
      | true =>
        have h₁ := (h.add i c hc hin).1
        rw [(h.add i' c' hc' hin').1] at h₁
        cases h₁
        exact absurd rfl hne

end

/-- `start` moves the state only while it is `kCreated` or `kStarting`. -/
theorem startStep_running {c c' : Control} {f : Bool} (hs : c.startStep f = some c')
    (hst : c.state = .running) : c'.state = .running := by
  rcases (startStep_state hs).2 with h | h
  · rw [h]; exact hst
  · simp [hst] at h

/-- What the winner of `stop` does to executors, calls and `mu_`, at most, is to wake them. -/
theorem stopStep_mutexInv (h : MutexInv s) (hwf : s.ctl.WellFormed) (hs : s.stopStep = some s') :
    MutexInv s' := by
  cases stopStep_effect hs with
  | control c handles hdone =>
    refine { h.setCtl c (fun hst => ?_) with }
    -- Only a `stop` that has claimed the pool stores `kStopped`.
    have hidle := hwf.claimed.mp (by rw [hst]; rfl)
    unfold stopStep at hs
    simp [hidle] at hs
  | notify c hdone hst => exact h.notifyAll.setCtl c hst.trans

/-- A step of the manager. -/
theorem managerStep_mutexInv {n : Option Int} {hw : Int} {f : Bool} (h : MutexInv s)
    (hs : s.managerStep n hw f = some s') : MutexInv s' := by
  cases managerStep_effect hs with
  | control c handles new hdone hst => exact { h.setCtl c hst.trans with }
  | drain hmu =>
    -- The drain needs `mu_`, so nobody is inside when the state leaves `kRunning`.
    exact mutexInv_of_outside (fun e x hx => h.notifyAll.free_executor hmu hx)
      (fun i c hc => h.free_add hmu hc)
  | shrink target handles =>
    have h' : MutexInv { s with targetExecutors := target, handles := handles } := { h with }
    exact { h'.notifyAll with }
  | retarget | claim | unclaim => exact { h with }
  | spawn k hpc =>
    exact ⟨forall_getElem?_concat h.executor (by rintro ⟨⟩), h.add⟩

variable [WaitQueue Q R]

/-- A step of an executor. -/
theorem execMove_mutexInv
    (h : MutexInv s) (hx : s.executors[e]? = some x) (hm : ExecMove s e x s') : MutexInv s' := by
  cases hm with
  | park | idleExit => exact h.setExecutor hx _ (by rintro ⟨⟩)
  | wake hpc hmu hpred =>
    refine ⟨forall_getElem?_set (fun e' x' hx' hin => ?_) (fun _ => rfl), fun i c hc hin => ?_⟩
    · simp [h.free_executor hmu hx'] at hin
    · simp [h.free_add hmu hc] at hin
  | proceed hpc => exact h.setExecutor hx _ (fun _ => by rw [hpc]; rfl)
  | excess hpc | drained hpc | dequeue hpc => exact h.leave _ hx (by rw [hpc]; rfl) rfl rfl rfl
  | run | finish | release => exact { h.setExecutor hx { x with pc := _ } (by rintro ⟨⟩) with }

/-- A step of `addTask`. -/
theorem addMove_mutexInv (h : MutexInv s) (hc : s.adds[i]? = some c) (hm : AddMove s i c s') :
    MutexInv s' := by
  cases hm with
  | enter | pass | reject => exact h.setAdd hc _ (by rintro ⟨⟩)
  | lock hpc hmu hst hdone hctx =>
    refine ⟨fun e x hx hin => ?_,
      forall_getElem?_set (fun i' c' hc' hin => ?_) (fun _ => ⟨rfl, hst⟩)⟩
    · simp [h.free_executor hmu hx] at hin
    · simp [h.free_add hmu hc'] at hin
  | subscribe τ rest hpc =>
    exact { h.setAdd hc (.registering rest) (fun _ => by rw [hpc]; rfl) with }
  | subscribeFired τ rest hpc =>
    have h' := h.setAdd hc (.registering rest) (fun _ => by rw [hpc]; rfl)
    unfold onCancel
    split
    · exact h'
    · exact { h' with }
  | registerFail _ hpc | insert hpc | insertFail hpc =>
    exact h.addLeave _ hc (by rw [hpc]; rfl) rfl rfl rfl
  | unwind => exact { h.setAdd hc (.threw .resource) (by rintro ⟨⟩) with }
  | notify hpc s₁ hn =>
    have hadds : s₁.adds = s.adds := by cases hn <;> rfl
    exact (h.notified hn).setAdd (by rw [hadds]; exact hc) _ (by rintro ⟨⟩)

/-- A step of a stop callback. -/
theorem watchMove_mutexInv {k : Nat} (h : MutexInv s) (hm : WatchMove s k s') : MutexInv s' := by
  cases hm with
  | dead | promote => exact { h with }
  | notify hw s₁ hn => exact { h.notified hn with }

/-- **The mutex invariant is inductive.** -/
theorem step_mutexInv {a : Action R} (h : MutexInv s) (hwf : s.ctl.WellFormed)
    (hs : step s a = some s') : MutexInv s' := by
  cases move_of_step hs with
  | background | waiters => exact { h with }
  | callStart ctx =>
    refine h.setCtl _ (fun hrun => ?_)
    simp [Control.callStart, hrun]
  | start fails c hc => exact h.setCtl c (startStep_running hc)
  | claimStop hmu hst hst' =>
    exact mutexInv_of_outside (fun _ _ hx => h.notifyAll.free_executor hmu hx)
      (fun _ _ hc => h.free_add hmu hc)
  | stop s' hs => exact stopStep_mutexInv h hwf hs
  | manager n hw f s' hs => exact managerStep_mutexInv h hs
  | executor e x s' hx hm | cancelled e x s' hx hc hm => exact execMove_mutexInv h hx hm
  | cancel e x hx => exact h.setExecutor hx _ id
  | spurious e s' hn => exact h.notified hn
  | callAdd ctx r =>
    exact ⟨h.executor, forall_getElem?_concat h.add (by rintro ⟨⟩)⟩
  | add i c f g w s' hc hm => exact addMove_mutexInv h hc hm
  | watch k alive w s' hm => exact watchMove_mutexInv h hm

/-- The mutex invariant holds in every reachable state. -/
theorem reachable_mutexInv {ok : State Q R → Action R → Prop} (h : (system Q).ReachableIf ok s) :
    MutexInv s :=
  h.invariant init_mutexInv
    (fun hr hi _ hs => step_mutexInv hi (reachable_wellFormed hr) hs)

end ServiceLib.Pool
