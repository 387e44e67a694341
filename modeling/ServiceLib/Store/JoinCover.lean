import ServiceLib.Store.JoinLifecycle

namespace ServiceLib.Join

/-!
# Join storage — the coroutine of an item

Rotation drops no item, so an item that is never completed has to be expired by a coroutine of
its own.
-/

open List Option JoinPc State

variable {K V : Type} [DecidableEq K] {s s' : State K V} {i : ItemId} {g : Nat}

/-! ### Items in the storage -/

/-- Item `i` is in the storage. -/
def State.keeps (s : State K V) (i : ItemId) : Prop :=
  ∃ key, s.current.lookup key = some i ∨ s.previous.lookup key = some i

theorem alive_of_keeps (h : s.keeps i) : s.alive i := by
  have hany : ∀ (m : Generation K) key, m.lookup key = some i →
      m.entries.any (·.2 = i) := by
    intro m key hm
    exact any_eq_true.mpr ⟨⟨key, i⟩, AList.mem_lookup_iff.mp hm, decide_eq_true rfl⟩
  obtain ⟨key, hcur | hprev⟩ := h
  · simp [alive, hany _ _ hcur]
  · simp [alive, hany _ _ hprev]

variable {pc : JoinPc} {a : Action K V} {n : Nat}

/-- Only a new item gets into the storage. -/
theorem MapStep.keeps {key : K} (hm : MapStep s key pc o s') (h : s'.keeps i) :
    s.keeps i ∨ i = s.items.length := by
  obtain ⟨k, h⟩ := h
  rcases hm.origin h with h | ⟨-, rfl, -⟩
  · exact .inl ⟨k, h⟩
  · exact .inr rfl

/-- What a step does that is taken by no thread of the storage. -/
structure QuietMove (s s' : State K V) : Prop where
  armings : s'.armings = s.armings
  tasks : s'.expiryTasks = s.expiryTasks
  cancelled : s'.expiryCancelled = s.expiryCancelled
  calls : s'.calls = s.calls ∨ ∃ j, s'.calls = s.calls ++ [j] ∧ j.pc = .entered
  keeps : ∀ i, s'.keeps i → s.keeps i
  life : s'.lifeState = s.lifeState ∨ s.lifeState = .created

theorem step_quiet (ha : a.quiet) (hs : step s a = some s') : QuietMove s s' := by
  have hq := step_quietEffect ha hs
  refine ⟨by rw [armings, armings, hq.items], hq.tasks, hq.cancelled, hq.calls, ?_,
    hq.life.imp_right And.left⟩
  rintro i ⟨key, h⟩
  rcases hq.maps with ⟨hc, hp, -⟩ | ⟨fails, -, hrotate⟩
  · rw [hc, hp] at h
    exact ⟨key, h⟩
  · exact ⟨key, (rotate_findItemLocked hrotate key).2 i h⟩

/-- What a step of `stop` does: it drops subscriptions, and cancels the coroutines, of a storage
    that is closed. -/
structure StopMove (s s' : State K V) : Prop where
  armings : s'.armings = s.armings ∨ ∃ i a, s.lifeState.closed ∧
    s.armings[i]? = some a ∧ s'.armings = s.armings.set i { a with cancelCallback := none }
  cancelled : s'.expiryCancelled = s.expiryCancelled ∨
    (s'.expiryCancelled ∧ s'.lifeState.closed)
  life : s'.lifeState = s.lifeState ∨ s'.lifeState.closed

/-- A step of `stop` is one of its moves. -/
theorem stopStep_moved (hlife : LifeInv s) (hs : s.stopStep n = some s') :
    StopMove s s' := by
  obtain ⟨pc, hpc, hm⟩ := stopStep_cases hs
  have hclosed : pc.closing → s.lifeState.closed :=
    hlife.closing pc (mem_of_getElem? hpc)
  cases hm with
  | close | clear => exact ⟨.inl rfl, .inl rfl, .inr rfl⟩
  | walk => exact ⟨.inl rfl, .inl rfl, .inl rfl⟩
  | lock hit => exact ⟨.inl (armings_same hit), .inl rfl, .inl rfl⟩
  | reset hit =>
    exact ⟨.inr ⟨_, _, hclosed rfl, armings_of_item hit, armings_set⟩, .inl rfl, .inl rfl⟩
  | cancel => exact ⟨.inl rfl, .inr ⟨rfl, hclosed rfl⟩, .inl rfl⟩

/-- `stop` does nothing to the coroutines before the last operation is over. -/
theorem stopStep_drained (hl : LifeInv s) (hs : s.stopStep n = some s') :
    s'.activeOperations = s.activeOperations ∧
      (s'.expiryCancelled = s.expiryCancelled ∨ s.activeOperations = 0) := by
  obtain ⟨pc, hpc, hm⟩ := stopStep_cases hs
  have hdrained := hl.drained pc (mem_of_getElem? hpc)
  cases hm with
  | close | walk | lock | reset => exact ⟨rfl, .inl rfl⟩
  | cancel | clear => exact ⟨rfl, .inr (hdrained rfl)⟩

/-- What the steps of the other threads have in common: at most a call begins, no item enters the
    storage, generations and deadlines stay, and no item is unmarked. -/
structure OtherMove (s s' : State K V) : Prop where
  calls : s'.calls = s.calls ∨ ∃ j, s'.calls = s.calls ++ [j] ∧ j.pc = .entered
  keeps : ∀ i, s'.keeps i → s.keeps i
  ops : s'.activeOperations = s.activeOperations
  cancelled : s'.expiryCancelled = s.expiryCancelled ∨
    (s'.expiryCancelled ∧ s'.lifeState.closed ∧ s.activeOperations = 0)
  life : s'.lifeState = s.lifeState ∨ s.lifeState = .created ∨ s'.lifeState.closed
  length : s'.armings.length = s.armings.length
  armings : ∀ (i : ItemId) a', s'.armings[i]? = some a' → ∃ a, s.armings[i]? = some a ∧
    a.generation = a'.generation ∧ a.deadline = a'.deadline ∧
      (a'.processed = false → a.processed = false)

theorem OtherMove.closed (hm : OtherMove s s') (h : s.lifeState.closed) : s'.lifeState.closed := by
  rcases hm.life with hlife | hlife | hclosed
  · rw [hlife]
    exact h
  · rw [hlife] at h
    cases h
  · exact hclosed

/-- At most one item is written. -/
theorem armings_written (h : s'.armings = s.armings ∨ ∃ k a a₁, s.armings[k]? = some a ∧
      s'.armings = s.armings.set k a₁ ∧ a.generation = a₁.generation ∧ a.deadline = a₁.deadline ∧
        (a₁.processed = false → a.processed = false)) :
    s'.armings.length = s.armings.length ∧
      ∀ (i : ItemId) a', s'.armings[i]? = some a' → ∃ a, s.armings[i]? = some a ∧
        a.generation = a'.generation ∧ a.deadline = a'.deadline ∧
          (a'.processed = false → a.processed = false) := by
  rcases h with harm | ⟨k, a, a₁, ha, harm, hkept⟩ <;> rw [harm]
  · exact ⟨rfl, fun _ a' ha' => ⟨a', ha', rfl, rfl, id⟩⟩
  · exact ⟨length_set, forall_getElem?_set (fun _ a' ha' => ⟨a', ha', rfl, rfl, id⟩) ⟨a, ha, hkept⟩⟩

theorem step_other (hi : Inv s) (hs : step s a = some s')
    (ha : ∀ c o, a ≠ .join c o := by simp) : OtherMove s s' := by
  have hkeeps : ∀ i, s'.keeps i → s.keeps i := fun _ ⟨key, hk⟩ =>
    ⟨key, (hi.otherEffect hs ha).maps.origin hk⟩
  cases a with
  | join c o => exact absurd rfl (ha c o)
  | cancel k fails =>
    have hmoved := (cancelStep_effect (.stop 0) hs).moved
    obtain ⟨_, _, rfl⟩ := (cancelStep_effect (.stop 0) hs).rest
    obtain ⟨hlen, harm⟩ := armings_written (.inr (by
      cases hmoved with
      | publish a b ha _ _ harm _ | gone a b ha _ _ harm _ | check a b ha _ _ harm _
      | schedule a b ha _ _ harm _ => exact ⟨k, a, _, ha, harm, rfl, rfl, id⟩))
    exact ⟨.inl rfl, hkeeps, rfl, .inl rfl, .inl rfl, hlen, harm⟩
  | expire t o =>
    obtain ⟨x, pc, -, -, hcancel, hm⟩ := expiryStep_moved hi.threads.tasks hs
    obtain ⟨_, -, he⟩ := expiryStep_effect hi.threads.tasks hs
    obtain ⟨hlen, harm⟩ := armings_written (by
      cases hm with
      | advance _ _ harm | quit _ harm | skip _ _ _ _ harm | finish _ harm => exact .inl harm
      | mark a _ ha _ harm => exact .inr ⟨_, a, _, ha, harm, rfl, rfl, by rintro ⟨⟩⟩
      | release a _ ha _ harm => exact .inr ⟨_, a, _, ha, harm, rfl, rfl, id⟩)
    exact ⟨.inl he.calls, hkeeps, he.ops, .inl hcancel, .inl he.life, hlen, harm⟩
  | stop n =>
    have he := stopStep_effect hi.threads.stops hs
    have hm := stopStep_moved hi.life hs
    obtain ⟨hops, hdrained⟩ := stopStep_drained hi.life hs
    obtain ⟨hlen, harm⟩ := armings_written (hm.armings.imp_right
      (fun ⟨k, a, _, ha, harm⟩ => ⟨k, a, _, ha, harm, rfl, rfl, id⟩))
    refine ⟨.inl he.calls, hkeeps, hops, ?_, hm.life.imp_right .inr, hlen, harm⟩
    rcases hdrained with hsame | hzero
    · exact .inl hsame
    · exact hm.cancelled.imp_right (fun ⟨hc, hclosed⟩ => ⟨hc, hclosed, hzero⟩)
  | _ =>
    have hm : QuietMove s s' := step_quiet rfl hs
    obtain ⟨hlen, harm⟩ := armings_written (.inl hm.armings)
    exact ⟨hm.calls, hkeeps, (step_quietEffect rfl hs).ops, .inl hm.cancelled,
      hm.life.imp_right .inl, hlen, harm⟩

/-! ### A storage that has been drained -/

/-- The storage is closed, and no operation is active. -/
structure Drained (s : State K V) : Prop where
  inv : Inv s
  closed : s.lifeState.closed
  idle : s.activeOperations = 0

theorem Drained.step (h : Drained s) (hs : step s a = some s') : Drained s' := by
  have hi' := step_inv h.inv hs
  cases a with
  | join c o =>
    obtain ⟨j, hj, he⟩ := h.inv.joinEffect hs
    obtain ⟨_, -, -, -, -, -, hops⟩ := he.call
    exact ⟨hi', hops.life ▸ h.closed, he.stays_drained h.inv.life hj h.idle h.closed⟩
  | _ =>
    have hm := step_other h.inv hs (by simp)
    exact ⟨hi', hm.closed h.closed, hm.ops.trans h.idle⟩

/-- **No call after `stop`.**  Once a `stop` has waited for the active operations, or the storage
    is stopped, no `joinValue` is under way, and none will be: whatever is called later returns
    or throws without an operation. -/
theorem no_call_after_stop {config : JoinStorageConfig} (h : (system K V config).Reachable s)
    (hstop : s.lifeState = .stopped ∨ ∃ pc ∈ s.stops, pc.drained = true)
    (hs : (system K V config).Steps (fun _ _ => True) s s') :
    ∀ j ∈ s'.calls, j.pc.active = false := by
  have hi := reachable_inv h
  have hdrained : Drained s := by
    rcases hstop with hstopped | ⟨pc, hpc, hd⟩
    · exact ⟨hi, by rw [hstopped]; rfl, hi.life.stopped hstopped⟩
    · exact ⟨hi, hi.life.closing pc hpc (by cases pc <;> first | rfl | cases hd),
        hi.life.drained pc hpc hd⟩
  have hlater := hs.preserves (I := Drained) (fun ih _ hstep => ih.step hstep) hdrained
  intro j hj
  have hnone := countP_eq_zero.mp (hlater.inv.life.ops.symm.trans hlater.idle) j hj
  simpa using hnone

/-- A call is in its callback when `stop` closes the storage. -/
def closedMeanwhile : List (Action Nat Nat) :=
  [.start false, .callJoin {} 7 0 100] ++ replicate 11 (.join 0 .go) ++ [.callStop, .stop 0]

/-- A call that is inside when `stop` begins, and one that comes too late. -/
theorem no_call_after_stop_late : ∃ s₀ s s' : State Nat Nat,
    (∃ j ∈ s₀.calls, j.pc.active = true) ∧
      (system Nat Nat renewing).Steps (fun _ _ => True) s₀ s ∧
      (∃ pc ∈ s.stops, pc.drained = true) ∧
      s'.calls.map (·.pc) = [.returned, .threw .storeStopped] ∧
      ∀ j ∈ s'.calls, j.pc.active = false := by
  -- Call 0 returns, and `stop` finds no operation; then call 1 comes.
  obtain ⟨s₀, hreach, hactive, hrun⟩ := (system Nat Nat renewing).exists_reachable_of_run
    closedMeanwhile (fun s₀ => (∃ j ∈ s₀.calls, j.pc.active = true) ∧
      (((system Nat Nat renewing).guarded (fun _ _ => True)).runFrom s₀
        [.join 0 (.answered false [[100]]), .join 0 .go, .stop 0]).any (fun s =>
          (∃ pc ∈ s.stops, pc.drained = true) ∧
          (((system Nat Nat renewing).guarded (fun _ _ => True)).runFrom s
            [.callJoin {} 7 0 200, .stop 0, .join 1 .go]).any (fun s' =>
              s'.calls.map (·.pc) = [.returned, .threw .storeStopped]) = true) = true)
    (by decide +kernel)
  obtain ⟨s, hsteps, hdrained, hrun'⟩ := System.exists_steps_of_run _ _ _ _ _ hrun
  obtain ⟨s', hsteps', hlate⟩ := System.exists_steps_of_run _ _ _ _ _ hrun'
  exact ⟨s₀, s, s', hactive, hsteps, hdrained, hlate,
    no_call_after_stop (hsteps.reachableIf hreach) (.inr hdrained) hsteps'⟩

/-! ### Which generation counts -/

theorem JoinPc.unspawned_of_rollsBack {saved : Saved} (h : pc.rollsBack = some (i, saved)) :
    pc.unspawned = some i := by
  unfold rollsBack at h
  split at h <;> cases h <;> rfl

theorem JoinPc.arms_of_unspawned (h : pc.unspawned = some i) : pc.arms = some i := by
  cases pc <;> first | exact h | cases h

theorem JoinPc.unspawned_ne (h : pc.arms = none) (i : ItemId) : pc.unspawned ≠ some i := by
  intro hun
  simp [arms_of_unspawned hun] at h

theorem JoinPc.inside_of_unspawned (h : pc.unspawned = some i) : pc.inside = some i := by
  cases pc <;> first | exact h | cases h

theorem JoinPc.item_of_inside (h : pc.inside = some i) : pc.item = some i := by
  cases pc <;> first | exact h | cases h

/-- A call inside an item holds its lock. -/
theorem ThreadsOk.holds (h : ThreadsOk s) {c : CallId} {j : JoinCall K V}
    (hj : s.calls[c]? = some j) (hin : j.pc.inside = some i) :
    ∃ it, s.items[i]? = some it ∧ it.mu = some (.call c) := by
  obtain ⟨it, hit, -, hmu, -⟩ := h.calls c j hj i (item_of_inside hin)
  exact ⟨it, hit, hmu hin⟩

/-- No two calls are inside one item. -/
theorem ThreadsOk.inside_unique (h : ThreadsOk s) {c d : CallId} {j jd : JoinCall K V}
    (hj : s.calls[c]? = some j) (hd : s.calls[d]? = some jd) (hin : j.pc.inside = some i)
    (hin' : jd.pc.inside = some i) : d = c := by
  obtain ⟨it, hit, hmu⟩ := h.holds hj hin
  obtain ⟨it', hit', hmu'⟩ := h.holds hd hin'
  cases hit.symm.trans hit'
  have := hmu'.symm.trans hmu
  simpa using this

/-- A generation of item `i` that has to have a coroutine: the one that a renewal on its way
    would return to, and the current one when no call is about to start a coroutine for it. -/
inductive State.Owed (s : State K V) (i : ItemId) (g : Nat) : Prop
  | rollback (c : CallId) (j : JoinCall K V) (saved : Saved) : s.calls[c]? = some j →
      j.pc.rollsBack = some (i, saved) → saved.generation = g → Owed s i g
  | current (a : Arming) :
      (∀ (c : CallId) (j : JoinCall K V), s.calls[c]? = some j → j.pc.unspawned ≠ some i) →
      s.armings[i]? = some a → a.generation = g → Owed s i g

/-- A coroutine for the generation has still to look at the item. -/
def Covered (tasks : List ExpiryTask) (i : ItemId) (g : Nat) : Prop :=
  ∃ x ∈ tasks, x.item = i ∧ x.generation = g ∧ x.pc.armed

theorem Covered.append {tasks : List ExpiryTask} (h : Covered tasks i g)
    (new : List ExpiryTask) : Covered (tasks ++ new) i g := by
  obtain ⟨x, hx, hrest⟩ := h
  exact ⟨x, mem_append_left new hx, hrest⟩

/-- Every generation that counts is covered. -/
def CoverInv (s : State K V) : Prop :=
  s.expiryCancelled = false → ∀ i a g, s.armings[i]? = some a → a.processed = false →
    s.keeps i → s.Owed i g → Covered s.expiryTasks i g

/-! ### Steps of joinValue -/

section

variable {c : CallId} {j j' : JoinCall K V} {o : Outcome V}

/-- As far as item `i` is concerned, a call at `pc'` is where it was at `pc`. -/
structure JoinPc.Alike (i : ItemId) (pc pc' : JoinPc) : Prop where
  back : ∀ saved, pc'.rollsBack = some (i, saved) → pc.rollsBack = some (i, saved)
  unspawned : pc.unspawned = some i → pc'.unspawned = some i

theorem JoinPc.Alike.of_eq {pc' q q' : JoinPc} (hpc : pc = q) (hpc' : pc' = q')
    (h : q'.rollsBack = q.rollsBack ∧ q'.unspawned = q.unspawned) : Alike i pc pc' :=
  hpc ▸ hpc' ▸ ⟨fun _ hb => h.1.symm.trans hb, fun hu => h.2.trans hu⟩

/-- A call that has nothing to do with the item. -/
theorem JoinPc.Alike.of_ne {pc' : JoinPc} (hpc : pc.unspawned ≠ some i)
    (hpc' : pc'.unspawned ≠ some i) : Alike i pc pc' :=
  ⟨fun _ hb => absurd (unspawned_of_rollsBack hb) hpc', fun hu => absurd hu hpc⟩

/-- A step of a call that leaves it where it is, as far as the item is concerned. -/
theorem owed_of_alike (hj : s.calls[c]? = some j) (hcalls : s'.calls = s.calls.set c j')
    (hpc : j.pc.Alike i j'.pc) (hgen : ∀ a', s'.armings[i]? = some a' →
      ∃ a, s.armings[i]? = some a ∧ a.generation = a'.generation)
    (h : s'.Owed i g) : s.Owed i g := by
  cases h with
  | rollback d jd saved hd hb hg =>
    rw [hcalls] at hd
    rcases getElem?_set_cases hd with ⟨rfl, rfl⟩ | ⟨-, hd⟩
    · exact .rollback d j saved hj (hpc.back saved hb) hg
    · exact .rollback d jd saved hd hb hg
  | current a' hfree ha' hg =>
    obtain ⟨a, ha, heq⟩ := hgen a' ha'
    refine .current a (fun d jd hd hun => ?_) ha (heq.trans hg)
    by_cases hdc : d = c
    · subst hdc
      cases hd.symm.trans hj
      refine hfree d j' ?_ (hpc.unspawned hun)
      rw [hcalls, getElem?_set_some hj]
    · refine hfree d jd ?_ hun
      rw [hcalls, getElem?_set_ne (Ne.symm hdc)]
      exact hd

/-- A step of the only call that may be arming the item. -/
theorem owed_of_alone (hj : s.calls[c]? = some j) (hcalls : s'.calls = s.calls.set c j')
    (halone : ∀ (d : CallId) jd, s.calls[d]? = some jd → d ≠ c → jd.pc.unspawned ≠ some i)
    (h : s'.Owed i g) : (∃ saved, j'.pc.rollsBack = some (i, saved) ∧ saved.generation = g) ∨
      (j'.pc.unspawned ≠ some i ∧ ∃ a, s'.armings[i]? = some a ∧ a.generation = g) := by
  cases h with
  | rollback d jd saved hd hback hg =>
    rw [hcalls] at hd
    rcases getElem?_set_cases hd with ⟨-, rfl⟩ | ⟨hne, hd⟩
    · exact .inl ⟨saved, hback, hg⟩
    · exact absurd (unspawned_of_rollsBack hback) (halone d jd hd hne)
  | current a hfree ha hg =>
    refine .inr ⟨hfree c j' ?_, a, ha, hg⟩
    rw [hcalls, getElem?_set_some hj]

/-- Where the arming of item `i` comes from when that of `k` was written. -/
theorem arming_of_set {k : ItemId} {a a₁ a' : Arming} (ha : s.armings[k]? = some a)
    (harm : s'.armings = s.armings.set k a₁) (hp : a₁.processed = a.processed)
    (hgen : k ≠ i ∨ a₁.generation = a.generation) (ha' : s'.armings[i]? = some a') :
    ∃ a₀, s.armings[i]? = some a₀ ∧ a₀.processed = a'.processed ∧
      a₀.generation = a'.generation := by
  rw [harm] at ha'
  rcases getElem?_set_cases ha' with ⟨rfl, rfl⟩ | ⟨-, ha'⟩
  · exact ⟨a, ha, hp.symm, (hgen.resolve_left (fun h => h rfl)).symm⟩
  · exact ⟨a', ha', rfl, rfl⟩

/-- A step of call `c` while the coroutines run, and a generation of item `i` that counts
    after it. -/
structure CountsAfter (s s' : State K V) (c : CallId) (j j' : JoinCall K V) (i : ItemId)
    (a' : Arming) (g : Nat) : Prop where
  inv : Inv s
  cover : CoverInv s
  running : s.expiryCancelled = false
  call : s.calls[c]? = some j
  calls : s'.calls = s.calls.set c j'
  stored : s.keeps i ∨ i = s.items.length
  arming : s'.armings[i]? = some a'
  unmarked : a'.processed = false
  owed : s'.Owed i g

namespace CountsAfter

variable {a a' : Arming} {k : ItemId} {p : ArmFor} {saved : Saved}
  (h : CountsAfter s s' c j j' i a' g) {a₁ : Arming}
include h

/-- What counted before was covered, for an item that was there before. -/
theorem covered {g : Nat} (ha : s.armings[i]? = some a) (hp : a.processed = a'.processed)
    (ho : s.Owed i g) : Covered s.expiryTasks i g := by
  rcases h.stored with hk | rfl
  · exact h.cover h.running i a g ha (hp.trans h.unmarked) hk ho
  · have hlt := lt_of_getElem? ha
    rw [armings, length_map] at hlt
    exact absurd hlt (Nat.lt_irrefl _)

/-- The step leaves the generation of the item and the calls that arm it. -/
theorem quiet (hkept : ∃ a, s.armings[i]? = some a ∧ a.processed = a'.processed ∧
      a.generation = a'.generation) (hpc : j.pc.Alike i j'.pc) : Covered s.expiryTasks i g := by
  obtain ⟨a, ha, hp, hgen⟩ := hkept
  refine h.covered ha hp (owed_of_alike h.call h.calls hpc (fun b hb => ⟨a, ha, ?_⟩) h.owed)
  cases hb.symm.trans h.arming
  exact hgen

theorem same (harm : s'.armings = s.armings) (hpc : j.pc.Alike i j'.pc) :
    Covered s.expiryTasks i g :=
  h.quiet ⟨a', harm ▸ h.arming, rfl, rfl⟩ hpc

/-- A call that is inside the item is alone there. -/
theorem alone (hin : j.pc.inside = some i) (d : CallId) (jd : JoinCall K V)
    (hd : s.calls[d]? = some jd) (hne : d ≠ c) : jd.pc.unspawned ≠ some i :=
  fun hun => hne (h.inv.threads.inside_unique h.call hd hin (inside_of_unspawned hun))

/-- A new item is being armed for the first time, by the call that made it. -/
theorem create {deadline : Option Time} {new : Arming} (hpc : j.pc = .inserting deadline)
    (hpc' : j'.pc = .subscribing s.armings.length .creation)
    (harm : s'.armings = s.armings ++ [new]) : Covered s.expiryTasks i g := by
  have ha' := h.arming
  rw [harm] at ha'
  rcases getElem?_append_singleton_cases ha' with ha | ⟨rfl, rfl⟩
  · have hlt := lt_of_getElem? ha
    refine h.quiet ⟨a', ha, rfl, rfl⟩ (.of_ne (by rw [hpc]; rintro ⟨⟩) ?_)
    rw [hpc']
    exact fun hk => absurd (some.inj hk) (Nat.ne_of_gt hlt)
  · have hnobody : ∀ (d : CallId) jd, s.calls[d]? = some jd → d ≠ c →
        jd.pc.unspawned ≠ some s.armings.length := by
      intro d jd hd _ hun
      obtain ⟨it, hit, -⟩ := h.inv.threads.holds hd (inside_of_unspawned hun)
      rw [armings, length_map] at hit
      exact absurd (lt_of_getElem? hit) (Nat.lt_irrefl _)
    rcases owed_of_alone h.call h.calls hnobody h.owed with ⟨saved, hback, -⟩ | ⟨hfree, -⟩
    · rw [hpc'] at hback
      cases hback
    · exact absurd (by rw [hpc']; rfl) hfree

/-- A marked item does not count. -/
theorem mark (harm : s'.armings = s.armings.set k a₁)
    (hmarked : a₁.processed) (hpc : j.pc.arms = none ∨ j.pc.unspawned = some k)
    (hpc' : j'.pc.arms = none) : Covered s.expiryTasks i g := by
  have ha' := h.arming
  rw [harm] at ha'
  rcases getElem?_set_cases ha' with ⟨-, rfl⟩ | ⟨hne, ha'⟩
  · exact absurd (hmarked.symm.trans h.unmarked) (by decide)
  · refine h.quiet ⟨a', ha', rfl, rfl⟩ (.of_ne (fun hun => ?_) (unspawned_ne hpc' i))
    rcases hpc with hpc | hpc
    · exact unspawned_ne hpc i hun
    · rw [hun] at hpc
      exact hne (some.inj hpc)

/-- A renewal: from now on the generation to return to is the one that was current. -/
theorem renew (ha : s.armings[k]? = some a) (harm : s'.armings = s.armings.set k a₁)
    (hp : a₁.processed = a.processed) (hpc : j.pc = .inspecting k false)
    (hpc' : j'.pc = .renewing k saved) (hsaved : saved.generation = a.generation) :
    Covered s.expiryTasks i g := by
  by_cases hki : k = i
  · subst hki
    have hp' : a.processed = a'.processed := by
      have ha' := h.arming
      rw [harm, getElem?_set_some ha] at ha'
      rw [← some.inj ha', hp]
    have hothers := h.alone (by rw [hpc]; rfl)
    rcases owed_of_alone h.call h.calls hothers h.owed with ⟨_, hback, hg⟩ | ⟨hfree, -⟩
    · rw [hpc'] at hback
      cases hback
      refine h.covered ha hp' (.current a (fun e je he => ?_) ha (hsaved.symm.trans hg))
      by_cases hec : e = c
      · subst hec
        cases he.symm.trans h.call
        rw [hpc]
        rintro ⟨⟩
      · exact hothers e je he hec
    · exact absurd (by rw [hpc']; rfl) hfree
  · refine h.quiet (arming_of_set ha harm hp (.inl hki) h.arming)
      (.of_ne (by rw [hpc]; rintro ⟨⟩) ?_)
    rw [hpc']
    exact fun hk => hki (some.inj hk)

/-- The coroutine of the current generation is started. -/
theorem spawn {deadline : Time} (ha : s.armings[k]? = some a) (hpc : j.pc = .spawning k p)
    (hpc' : j'.pc = .arming k p) (harm : s'.armings = s.armings) :
    Covered (s.expiryTasks ++ [⟨k, a.generation, .sleeping deadline⟩]) i g := by
  by_cases hki : k = i
  · subst hki
    rcases owed_of_alone h.call h.calls (h.alone (by rw [hpc]; rfl)) h.owed with
      ⟨saved, hback, -⟩ | ⟨-, b, hb, hg⟩
    · rw [hpc'] at hback
      cases hback
    · rw [harm, ha] at hb
      cases hb
      exact ⟨_, mem_append_right _ (mem_singleton_self _), rfl, hg, rfl⟩
  · refine (h.same harm (.of_ne ?_ (by rw [hpc']; rintro ⟨⟩))).append _
    rw [hpc]
    exact fun hk => hki (some.inj hk)

/-- A renewal that failed: the item is back at the generation that was covered all the time. -/
theorem restore (ha : s.armings[k]? = some a)
    (harm : s'.armings = s.armings.set k a₁) (hp : a₁.processed = a.processed)
    (hgen : a₁.generation = saved.generation) (hback : j.pc.rollsBack = some (k, saved))
    (hpc' : j'.pc.unspawned = none) : Covered s.expiryTasks i g := by
  have hun := unspawned_of_rollsBack hback
  by_cases hki : k = i
  · subst hki
    rcases owed_of_alone h.call h.calls (h.alone (inside_of_unspawned hun)) h.owed with
      ⟨saved', hback', -⟩ | ⟨-, b, hb, hg⟩
    · have hun' := unspawned_of_rollsBack hback'
      rw [hpc'] at hun'
      cases hun'
    · cases hb.symm.trans h.arming
      rw [harm, getElem?_set_some ha] at hb
      cases hb
      exact h.covered ha hp.symm (.rollback c j saved h.call hback (hgen.symm.trans hg))
  · refine h.quiet (arming_of_set ha harm hp (.inl hki) h.arming) (.of_ne ?_ (by simp [hpc']))
    rw [hun]
    exact fun hk => hki (some.inj hk)

end CountsAfter

/-- `joinValue` keeps every generation that counts covered. -/
theorem CoverInv.join (hi : Inv s) (hcov : CoverInv s) (hj : s.calls[c]? = some j)
    (hm : CallMoved s c j o s')
    (hkeeps : ∀ i, s'.keeps i → s.keeps i ∨ i = s.items.length)
    (hins : ∀ deadline, j.pc = .inserting deadline → s.findItemLocked j.key = none →
      o.fails = false → deadline.isSome) : CoverInv s' := by
  intro hrun i a' g ha' hp' hk ho
  obtain ⟨j', hcalls, -, hcancel, hmove⟩ := hm
  have h : CountsAfter s s' c j j' i a' g :=
    ⟨hi, hcov, hcancel ▸ hrun, hj, hcalls, hkeeps i hk, ha', hp', ho⟩
  cases hmove with
  | idle hpc hpc' _ harm htasks =>
    rw [htasks]
    exact h.same harm (.of_ne (unspawned_ne hpc i) (unspawned_ne hpc' i))
  | create deadline hpc hnone hgo hpc' harm htasks =>
    rw [htasks]
    rw [if_pos (hins deadline hpc hnone hgo)] at hpc'
    exact h.create hpc hpc' harm
  | mark k a a₁ ha harm hpc hpc' _ hmarked _ _ htasks =>
    rw [htasks]
    exact h.mark harm hmarked hpc hpc'
  | renew k a deadline ha _ hpc hpc' harm htasks =>
    rw [htasks]
    exact h.renew ha harm rfl hpc hpc' rfl
  | reset k a saved ha hpc hpc' harm htasks | arm k p a ha hpc hpc' harm htasks =>
    rw [htasks]
    exact h.quiet (arming_of_set ha harm rfl (.inr rfl) ha') (.of_eq hpc hpc' ⟨rfl, rfl⟩)
  | subscribe k p a pc cancelled ha hpc hpc' harm htasks =>
    rw [htasks]
    refine h.quiet (arming_of_set ha harm rfl (.inr rfl) ha') ?_
    rcases hpc' with ⟨-, -, hpc'⟩ | ⟨-, -, hpc'⟩
    · exact .of_eq hpc hpc' (by cases p <;> exact ⟨rfl, rfl⟩)
    · split at hpc' <;> exact .of_eq hpc hpc' (by cases p <;> exact ⟨rfl, rfl⟩)
  | fail k saved e hpc hpc' harm htasks =>
    rw [htasks]
    rcases hpc with ⟨hpc, -⟩ | ⟨hpc, -⟩ <;> exact h.same harm (.of_eq hpc hpc' ⟨rfl, rfl⟩)
  | inline k p a ha hpc hpc' harm htasks =>
    have hcovered := h.same harm (.of_eq hpc hpc' (by cases p <;> exact ⟨rfl, rfl⟩))
    rcases htasks with htasks | htasks <;> rw [htasks]
    · exact hcovered
    · exact hcovered.append _
  | spawn k p a deadline ha hpc hpc' harm htasks =>
    rw [htasks]
    exact h.spawn ha hpc hpc' harm
  | recheck k p a ha hpc hpc' harm htasks =>
    rw [htasks]
    split at hpc' <;> exact h.same harm (.of_eq hpc hpc' (by cases p <;> exact ⟨rfl, rfl⟩))
  | schedule k p a ha hpc hpc' harm htasks =>
    have hcovered := h.same harm (.of_eq hpc hpc' (by cases p <;> exact ⟨rfl, rfl⟩))
    rw [htasks]
    split
    · exact hcovered.append _
    · exact hcovered
  | restore k saved e a ha hpc hpc' harm htasks =>
    rw [htasks]
    exact h.restore ha harm rfl rfl (by rw [hpc]; rfl) (by rw [hpc']; rfl)

end

end ServiceLib.Join
