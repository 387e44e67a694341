import ServiceLib.Store.JoinGenerations

namespace ServiceLib.Join

/-!
# Join storage — no item is kept forever

If a call that inserts a new item has a positive `ttl` (`insertsWithTtl`), no item is kept forever.
A context whose deadline had passed when the call read the clock violates the condition, whatever
the configured `ttl` is.
-/

open List Option JoinPc

variable {K V : Type} [DecidableEq K] {s s' : State K V} {i : ItemId} {g : Nat}

/-! ### Steps of the other threads -/

/-- The other threads add nothing to what an item is owed. -/
theorem OtherMove.owed {a a' : Arming} (hm : OtherMove s s') (ha : s.armings[i]? = some a)
    (ha' : s'.armings[i]? = some a') (hgen : a.generation = a'.generation) (ho : s'.Owed i g) :
    s.Owed i g := by
  cases ho with
  | rollback c j saved hj hback hg =>
    rcases getElem?_of_grown hm.calls hj with hj | hentered
    · exact .rollback c j saved hj hback hg
    · rw [hentered] at hback
      cases hback
  | current b hfree hb hg =>
    cases hb.symm.trans ha'
    exact .current a (fun c j hj => hfree c j (getElem?_grown hm.calls hj)) ha (hgen.trans hg)

/-- A step that takes no coroutine away. -/
theorem CoverInv.frame (hcov : CoverInv s) (hm : OtherMove s s')
    (htasks : ∃ new, s'.expiryTasks = s.expiryTasks ++ new) : CoverInv s' := by
  intro hrun i a' g ha' hp' hk ho
  obtain ⟨a, ha, hgen, -, hp⟩ := hm.armings i a' ha'
  obtain ⟨new, htasks⟩ := htasks
  have hrun₀ : s.expiryCancelled = false := by
    rcases hm.cancelled with h | ⟨h, -⟩
    · exact h.symm.trans hrun
    · simp [h] at hrun
  rw [htasks]
  exact (hcov hrun₀ i a g ha (hp hp') (hm.keeps i hk) (hm.owed ha ha' hgen ho)).append new

variable {x : ExpiryTask} {t : TaskId} {j : JoinCall K V} {c : CallId} {o : Outcome V}

/-- A coroutine that looks at its item does not find a renewal on its way there. -/
theorem ThreadsOk.not_unspawned (h : ThreadsOk s) (hx : s.expiryTasks[t]? = some x)
    (hpc : x.pc = .inspecting) (hj : s.calls[c]? = some j) : j.pc.unspawned ≠ some x.item := by
  intro hun
  obtain ⟨it, hit, hmu⟩ := h.holds hj (inside_of_unspawned hun)
  obtain ⟨it', hit', hmu', -⟩ := h.tasks t x hx
  cases hit.symm.trans hit'
  rw [hmu' (by rw [hpc]; rfl)] at hmu
  cases hmu

/-- A coroutine does not give up an item it has to look at. -/
theorem ExpiryMove.keeps_cover {pc : ExpiryPc} {a' : Arming} (hi : Inv s)
    (hx : s.expiryTasks[t]? = some x) (hm : ExpiryMove s x pc s') (hrun : s.expiryCancelled = false)
    (hk : s.keeps x.item) (harmed : x.pc.armed) (ho : s.Owed x.item x.generation)
    (ha' : s'.armings[x.item]? = some a') (hp' : a'.processed = false) : pc.firing := by
  have hlt : ∀ {a}, s.armings[x.item]? = some a → x.item < s.armings.length :=
    fun ha => (lt_of_getElem? ha)
  cases hm with
  | advance _ hfiring _ => exact hfiring
  | quit hwhy _ =>
    rcases hwhy with h | h
    · simp [hrun] at h
    · simp [alive_of_keeps hk] at h
  | skip a hpc ha hwhy harm =>
    rw [harm, ha] at ha'
    cases ha'
    rcases hwhy with h | h
    · simp [hp'] at h
    · cases ho with
      | current b _ hb hg =>
        cases ha.symm.trans hb
        exact absurd hg h
      | rollback c j saved hj hback _ =>
        exact absurd (unspawned_of_rollsBack hback)
          (hi.threads.not_unspawned hx hpc hj)
  | mark a hpc ha hgen harm =>
    rw [harm, getElem?_set_self (hlt ha)] at ha'
    cases ha'
    cases hp'
  | release a hpc ha hp harm | finish hpc harm =>
    simp [hpc] at harmed

theorem CoverInv.expire (hi : Inv s) (hcov : CoverInv s) (hs : s.expiryStep t o = some s') :
    CoverInv s' := by
  have hother := step_other (a := .expire t o) hi hs
  obtain ⟨x, pc, hx, htasks, hcancel, hm⟩ := expiryStep_moved hi.threads.tasks hs
  intro hrun i a' g ha' hp' hk ho
  rw [hcancel] at hrun
  obtain ⟨a, ha, hgen, -, hp⟩ := hother.armings i a' ha'
  replace hk := hother.keeps i hk
  replace ho := hother.owed ha ha' hgen ho
  rw [htasks]
  -- The coroutine that takes the step may be the one that covers the generation.
  refine exists_mem_set hx ?_ (hcov hrun i a g ha (hp hp') hk ho)
  rintro ⟨rfl, rfl, harmed⟩
  have hfiring := hm.keeps_cover hi hx hrun hk harmed ho ha' hp'
  exact ⟨rfl, rfl, ExpiryPc.armed_of_firing hfiring⟩

/-! ### Deadlines -/

/-- The action is the step of a call that inserts a new item for which it has no time left. -/
def insertsExpired (s : State K V) : Action K V → Bool
  | .join c o => !o.fails && (s.calls[c]?).any (fun j => match j.pc with
      | .inserting _ => (s.findItemLocked j.key).isNone && decide (j.ttl ≤ 0)
      | _ => false)
  | _ => false

/-- A call that inserts a new item has a positive `ttl`. -/
def insertsWithTtl (s : State K V) (a : Action K V) : Prop := insertsExpired s a = false

instance (s : State K V) (a : Action K V) : Decidable (insertsWithTtl s a) :=
  inferInstanceAs (Decidable (_ = _))

theorem ttl_pos_of_inserts {deadline : Option Time} (hok : insertsWithTtl s (.join c o))
    (hj : s.calls[c]? = some j) (hpc : j.pc = .inserting deadline)
    (hnone : s.findItemLocked j.key = none) (hgo : o.fails = false) : 0 < j.ttl := by
  unfold insertsWithTtl insertsExpired at hok
  simp only [hj, hpc, hnone, hgo, Bool.not_false, Bool.true_and, any_some,
    isNone_none, decide_eq_false_iff_not] at hok
  exact Int.not_le.mp hok

/-- Every item has a deadline, and so has every candidate for one. -/
structure DeadlineInv (s : State K V) : Prop where
  terms : Terms (fun _ deadline _ => deadline.isSome) s
  candidate : ∀ j ∈ s.calls, ∀ deadline, j.pc = .inserting deadline → j.ttl > 0 → deadline.isSome

/-- A candidate is made with a deadline, if its `ttl` is positive. -/
theorem JoinMove.candidate {j' : JoinCall K V} (hm : JoinMove s j o s' j') :
    ∀ deadline, j'.pc = .inserting deadline → j'.ttl > 0 → deadline.isSome := by
  cases hm with
  | idle _ _ hcand => exact hcand
  | mark _ _ _ _ _ _ _ hins => exact fun deadline hpc' => absurd hpc' (hins deadline)
  | create _ _ _ _ hpc' => split at hpc' <;> simp [hpc']
  | subscribe _ _ _ _ _ _ _ hpc' =>
    rcases hpc' with ⟨-, -, hpc'⟩ | ⟨-, -, hpc'⟩
    · simp [hpc']
    · split at hpc' <;> simp [hpc']
  | recheck _ p _ _ _ hpc' => split at hpc' <;> cases p <;> simp [hpc', State.armed]
  | schedule _ p _ _ _ hpc' => cases p <;> simp [hpc', State.armed]
  | renew _ _ _ _ _ _ hpc' | reset _ _ _ _ _ hpc' | fail _ _ _ _ hpc' | inline _ _ _ _ _ hpc'
  | spawn _ _ _ _ _ _ hpc' | arm _ _ _ _ _ hpc' | restore _ _ _ _ _ _ hpc' => simp [hpc']

/-- A step of `joinValue`. -/
theorem DeadlineInv.join (h : DeadlineInv s) (hj : s.calls[c]? = some j) (hm : CallMoved s c j o s')
    (hins : ∀ deadline, j.pc = .inserting deadline → s.findItemLocked j.key = none →
      o.fails = false → deadline.isSome) : DeadlineInv s' where
  terms := h.terms.join hj hm (fun hd _ himp => himp hd) hins
  candidate := by
    obtain ⟨j', hcalls, -, -, hmove⟩ := hm
    rw [hcalls]
    exact forall_mem_set h.candidate hmove.candidate

/-- A step of another thread. -/
theorem DeadlineInv.other (h : DeadlineInv s) (hm : OtherMove s s') : DeadlineInv s' := by
  refine ⟨h.terms.other hm, fun j hj deadline hpc => ?_⟩
  obtain ⟨c, hc⟩ := getElem?_of_mem hj
  rcases getElem?_of_grown hm.calls hc with hc | hentered
  · exact h.candidate j (mem_of_getElem? hc) deadline hpc
  · cases hentered.symm.trans hpc

/-! ### Runs -/

/-- Every step in which a new item gets a deadline. -/
theorem step_retention {a : Action K V} (hi : Inv s) (hd : DeadlineInv s) (hcov : CoverInv s)
    (hok : insertsWithTtl s a) (hs : step s a = some s') : DeadlineInv s' ∧ CoverInv s' := by
  cases a with
  | join c o =>
    -- The condition is about the step that inserts a new item.
    obtain ⟨j, hj, hm⟩ := hi.joinMoved hs
    obtain ⟨j₀, hj₀, he⟩ := hi.joinEffect hs
    obtain rfl : j₀ = j := some.inj (hj₀.symm.trans hj)
    have hins : ∀ deadline, j₀.pc = .inserting deadline → s.findItemLocked j₀.key = none →
        o.fails = false → deadline.isSome := by
      intro deadline hpc hnone hgo
      have hpos := ttl_pos_of_inserts hok hj hpc hnone hgo
      exact hd.candidate j₀ (mem_of_getElem? hj) deadline hpc hpos
    exact ⟨hd.join hj hm hins, hcov.join hi hj hm (fun i hk => he.maps.keeps hk) hins⟩
  | cancel k fails =>
    have hm := step_other hi hs
    obtain ⟨new, htasks, -⟩ := (cancelStep_effect (.stop 0) hs).tasks
    exact ⟨hd.other hm, hcov.frame hm ⟨new, htasks⟩⟩
  | expire t o => exact ⟨hd.other (step_other hi hs), hcov.expire hi hs⟩
  | stop n =>
    have hm := step_other hi hs
    have htasks := (stopStep_effect hi.threads.stops hs).tasks
    exact ⟨hd.other hm, hcov.frame hm (exists_append_of_eq htasks)⟩
  | _ =>
    have hm := step_other hi hs
    exact ⟨hd.other hm, hcov.frame hm (exists_append_of_eq (step_quiet rfl hs).tasks)⟩

/-- Both, in every run. -/
theorem reachable_retention {config : JoinStorageConfig}
    (h : (system K V config).ReachableIf insertsWithTtl s) : DeadlineInv s ∧ CoverInv s := by
  refine h.invariant (I := fun s => DeadlineInv s ∧ CoverInv s) ?_ ?_
  · exact ⟨⟨⟨fun _ _ ha => (nomatch ha), fun _ _ _ _ hj => (nomatch hj)⟩,
      fun _ hj => (nomatch hj)⟩, fun _ i a g ha => nomatch ha⟩
  · intro t a t' hreach hinv hok hs
    exact step_retention (reachable_inv hreach.reachable) hinv.1 hinv.2 hok hs

/-- **No item is kept forever.**  In every run in which new items are inserted with a positive
    `ttl` only: as long as `stop` has not cancelled the coroutines, an unprocessed item in the
    storage that no call holds has a deadline, and a coroutine of its current generation sleeps
    until it or is about to look at the item.  Allocations may fail at any step. -/
theorem joinItem_expires (config : JoinStorageConfig) (s : State K V)
    (h : (system K V config).ReachableIf insertsWithTtl s) (hrun : s.expiryCancelled = false)
    (i : ItemId) (it : Item K V) (hit : s.items[i]? = some it) (hp : it.processed = false)
    (hkept : s.keeps i) (hfree : ∀ c, it.mu ≠ some (.call c)) :
    it.deadline.isSome = true ∧
      ∃ x ∈ s.expiryTasks, x.item = i ∧ x.generation = it.generation ∧ x.pc.armed = true := by
  obtain ⟨hd, hcov⟩ := reachable_retention h
  have ha := armings_of_item hit
  refine ⟨hd.terms.items i _ ha, ?_⟩
  refine hcov hrun i it.arming it.generation ha hp hkept (.current it.arming ?_ ha rfl)
  intro c j hj hun
  obtain ⟨it', hit', hmu⟩ := (reachable_inv h.reachable).threads.holds hj
    (inside_of_unspawned hun)
  cases hit.symm.trans hit'
  exact hfree c hmu

/-- One call creates an item and returns.  A second one begins to renew it and fails. -/
def failedRenewal : List (Action Nat Nat) :=
  [ firstJoin {}, [.callJoin {} 7 0 200],
    replicate 6 (.join 1 .go),
    [.join 1 .fail, .join 1 .go, .join 1 .go] ].flatten

/-- The second call threw, and left the item to the first coroutine. -/
def renewalUndone (s : State Nat Nat) : Bool :=
  s.calls.map (·.pc) = [.returned, .threw .resource] && s.expiryCancelled = false &&
    s.current.lookup 7 = some 0 && s.items[0]?.any (fun it => it.processed = false && it.mu = none)

theorem joinItem_expires_renewalUndone : ∃ s it,
    (system Nat Nat renewing).ReachableIf insertsWithTtl s ∧ renewalUndone s = true ∧
      s.items[0]? = some it ∧ it.deadline.isSome = true ∧
      ∃ x ∈ s.expiryTasks, x.item = 0 ∧ x.generation = it.generation ∧ x.pc.armed = true := by
  obtain ⟨s, hs, hdone⟩ := (system Nat Nat renewing).exists_reachableIf_of_run
    insertsWithTtl failedRenewal (renewalUndone · = true) (by decide +kernel)
  have h := hdone
  unfold renewalUndone at h
  simp only [Bool.and_eq_true, decide_eq_true_eq, Option.any_eq_true] at h
  obtain ⟨⟨⟨-, hrun⟩, hcur⟩, it, hit, hp, hmu⟩ := h
  have hfree : ∀ c, it.mu ≠ some (.call c) := by
    rw [hmu]
    exact nofun
  exact ⟨s, it, hs, hdone, hit,
    joinItem_expires renewing s hs hrun 0 it hit hp ⟨7, .inl hcur⟩ hfree⟩

/-! ### A deadline in the past -/

/-- A call whose context's deadline has passed creates an item, and its callback waits for more
    values. -/
def pastDeadline : List (Action Nat Nat) :=
  [ [.start false, .tick 5, .callJoin { deadline := some 3 } 7 0 100],
    replicate 7 (.join 0 .go),
    [.join 0 (.answered false [[100]]), .join 0 .go] ].flatten

/-- The call returned; its item is in the storage, unlocked and unprocessed, without a deadline,
    and no coroutine will ever look at it. -/
def keptForever (s : State Nat Nat) : Bool :=
  s.lifeState = .running && s.calls.map (·.pc) = [.returned] && s.current.lookup 7 = some 0 &&
    s.items[0]?.any (fun it => it.processed = false && it.mu = none && it.deadline = none) &&
    s.expiryTasks = []

/-- **An item is kept forever**, without a deadline and without a coroutine. -/
theorem joinItem_retained :
    0 < renewing.ttl ∧ ∃ s, (system Nat Nat renewing).Reachable s ∧ keptForever s = true :=
  ⟨by decide, System.exists_reachable_of_run _ pastDeadline _ (by decide +kernel)⟩

end ServiceLib.Join
