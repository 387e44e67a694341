import ServiceLib.Store.JoinHandshake
import ServiceLib.Store.JoinRetention
import ServiceLib.Store.JoinRunning

namespace ServiceLib.Join

/-!
# Join storage — stop requests

The stop callback and the coroutines keep the handshake, so stop requests are noticed
(`expiry_generations`), unless a renewal cannot subscribe (`expiry_stopRequest_lost`).
-/

open List Option JoinPc State

variable {K V : Type} [DecidableEq K] {s s' : State K V} {armedBy : ArmedBy} {i : ItemId}

/-! ### The handshake -/

theorem alive_of_call {c : CallId} {j : JoinCall K V} (hj : s.calls[c]? = some j)
    (hitem : j.pc.item = some i) : s.alive i := by
  have hany : s.calls.any (·.pc.item = some i) :=
    any_eq_true.mpr ⟨j, mem_of_getElem? hj, decide_eq_true hitem⟩
  simp [alive, hany]

variable {a : Arming} {t : TaskId} {config : JoinStorageConfig} {x : ExpiryTask} {a₁ : Arming}
  {k : ItemId}

/-- While the storage is running, an unprocessed item is in it. -/
theorem RegInv.keeps (hr : RegInv s) (hrun : s.lifeState = .running)
    (ha : s.armings[i]? = some a) (hp : a.processed = false) : s.keeps i := by
  rw [armings_getElem?] at ha
  obtain ⟨it, hit, rfl⟩ := map_eq_some_iff.mp ha
  have hfind := hr (by rw [hrun]; exact nofun) i it hit hp
  rcases or_eq_some_iff.mp hfind with h | ⟨-, h⟩
  · exact ⟨it.key, .inl h⟩
  · exact ⟨it.key, .inr h⟩

/-- What a call that is arming relies on, when someone else writes the subscription. -/
theorem PhaseOk.congr {ctx : Context} {pc : JoinPc} (h : PhaseOk ctx a pc)
    (hgen : a₁.generation = a.generation) (harmed : a₁.armedGeneration = a.armedGeneration)
    (hsub : Subscribed ctx a → Subscribed ctx a₁) : PhaseOk ctx a₁ pc := by
  unfold PhaseOk at h ⊢
  rw [hgen, harmed]
  cases pc <;> first | exact h | exact ⟨h.1, hsub h.2⟩

/-- The stop callback writes item `k`. -/
theorem HandInv.of_write (h : HandInv s armedBy)
    (hcalls : s'.calls = s.calls) (hlife : s'.lifeState = s.lifeState) (ha : s.armings[k]? = some a)
    (harm : s'.armings = s.armings.set k a₁) (htasks : ∃ new, s'.expiryTasks = s.expiryTasks ++ new)
    (hgen : a₁.generation = a.generation) (harmed : a₁.armedGeneration = a.armedGeneration)
    (hp : a₁.processed = a.processed)
    (hphase : ∀ (c : CallId) j, s.calls[c]? = some j → j.pc.arms = some k →
      ∀ ctx, Subscribed ctx a → Subscribed ctx a₁)
    (hrest : s.lifeState = .running → a.processed = false →
      RestOk s.expiryTasks (armedBy k) k a → RestOk s'.expiryTasks (armedBy k) k a₁) :
    HandInv s' armedBy where
  fresh i hi := by
    rw [harm, length_set] at hi
    exact h.fresh i hi
  phases hrun c j i a' hj harms ha' := by
    rw [hlife] at hrun
    rw [hcalls] at hj
    rw [harm] at ha'
    rcases getElem?_set_cases ha' with ⟨rfl, rfl⟩ | ⟨-, ha'⟩
    · exact (h.phases hrun c j i a hj harms ha).congr hgen harmed (hphase c j hj harms j.ctx)
    · exact h.phases hrun c j i a' hj harms ha'
  rest hrun i a' ha' hp' hfree := by
    rw [hlife] at hrun
    rw [hcalls] at hfree
    rw [harm] at ha'
    rcases getElem?_set_cases ha' with ⟨rfl, rfl⟩ | ⟨-, ha'⟩
    · have hp₀ := hp.symm.trans hp'
      exact hrest hrun hp₀ (h.rest hrun i a ha hp₀ hfree)
    · obtain ⟨new, htasks⟩ := htasks
      rw [htasks]
      exact (h.rest hrun i a' ha' hp' hfree).append new

/-- A step of the stop callback. -/
theorem HandInv.cancel {fails : Bool} (hr : RegInv s) (h : HandInv s armedBy)
    (hok : renewalsArm s (.cancel k fails))
    (hs : s.cancelStep k fails = some s') : HandInv s' armedBy := by
  have hgo : fails = false := hok.1
  have hm := (cancelStep_effect (.stop 0) hs).moved
  obtain ⟨hcalls, hlife⟩ : s'.calls = s.calls ∧ s'.lifeState = s.lifeState := by
    obtain ⟨_, _, rfl⟩ := (cancelStep_effect (.stop 0) hs).rest
    exact ⟨rfl, rfl⟩
  cases hm with
  | publish a b ha hb hpc harm htasks =>
    refine h.of_write hcalls hlife ha harm (exists_append_of_eq htasks) rfl rfl rfl ?_ ?_
    · rintro c j hj harms ctx ⟨b₀, hb₀, hgen, htoken, -⟩
      cases hb₀.symm.trans hb
      exact ⟨_, rfl, hgen, htoken, fun _ => hgen ▸ le_max_right _ _⟩
    · intro hrun hp hrest
      refine ⟨hrest.le, fun σ hσ => ?_⟩
      obtain ⟨heq, b₀, hb₀, hgen, htoken, -⟩ := hrest.subscribed σ hσ
      cases hb₀.symm.trans hb
      exact ⟨heq, _, rfl, hgen, htoken, nofun⟩
  | gone a b ha hb hgone harm htasks =>
    -- The item is not gone: a call works on it, or it is in the storage.
    refine h.of_write hcalls hlife ha harm (exists_append_of_eq htasks) rfl rfl rfl ?_ ?_
    · intro c j hj harms
      have halive := alive_of_call hj (item_of_inside (inside_of_arms harms))
      simp [halive] at hgone
    · intro hrun hp
      simp [alive_of_keeps (hr.keeps hrun ha hp)] at hgone
  | check a b ha hb hpc harm htasks =>
    refine h.of_write hcalls hlife ha harm (exists_append_of_eq htasks) rfl rfl rfl ?_ ?_
    · rintro c j hj harms ctx ⟨b₀, hb₀, hgen, htoken, hpublished⟩
      cases hb₀.symm.trans hb
      exact ⟨_, rfl, hgen, htoken, fun _ => hpublished (by rw [hpc]; exact nofun)⟩
    · intro hrun hp hrest
      refine ⟨hrest.le, fun σ hσ => ?_⟩
      obtain ⟨heq, b₀, hb₀, hgen, htoken, -⟩ := hrest.subscribed σ hσ
      obtain rfl : b₀ = b := some.inj (hb₀.symm.trans hb)
      -- The generation is armed, so the callback goes on to schedule.
      have hle : b₀.generation ≤ a.armedGeneration := by rw [hgen, heq]
      refine ⟨heq, _, rfl, hgen, htoken, fun hfin => ?_⟩
      simp [if_pos hle] at hfin
  | schedule a b ha hb hpc harm htasks =>
    have hnew : ∃ new, s'.expiryTasks = s.expiryTasks ++ new := by
      rw [htasks]
      split
      · exact ⟨_, rfl⟩
      · exact exists_append_of_eq rfl
    refine h.of_write hcalls hlife ha harm hnew rfl rfl rfl ?_ ?_
    · rintro c j hj harms ctx ⟨b₀, hb₀, hgen, htoken, hpublished⟩
      cases hb₀.symm.trans hb
      exact ⟨_, rfl, hgen, htoken, fun _ => hpublished (by rw [hpc]; exact nofun)⟩
    · intro hrun hp hrest
      refine ⟨hrest.le, fun σ hσ => ?_⟩
      obtain ⟨heq, b₀, hb₀, hgen, htoken, -⟩ := hrest.subscribed σ hσ
      cases hb₀.symm.trans hb
      refine ⟨heq, _, rfl, hgen, htoken, fun _ => ?_⟩
      rw [htasks, if_pos ⟨hrun, hgo⟩]
      exact ⟨_, mem_append_right _ (mem_singleton_self _), rfl, hgen, rfl⟩

/-- A coroutine that has still to look at its item goes on to do so. -/
theorem Pending.expire {pc : ExpiryPc} {a' : Arming} (hi : Inv s)
    (hx : s.expiryTasks[t]? = some x) (hm : ExpiryMove s x pc s')
    (htasks : s'.expiryTasks = s.expiryTasks.set t { x with pc := pc })
    (hrun : s.expiryCancelled = false) (hk : s.keeps i) (ha : s.armings[i]? = some a)
    (hfree : ∀ (c : CallId) j, s.calls[c]? = some j → j.pc.arms ≠ some i)
    (ha' : s'.armings[i]? = some a') (hp' : a'.processed = false)
    (h : Pending s.expiryTasks i a.generation) : Pending s'.expiryTasks i a.generation := by
  rw [htasks]
  refine exists_mem_set hx ?_ h
  rintro ⟨rfl, hgen, hfiring⟩
  have howed : s.Owed x.item x.generation := by
    refine .current a (fun c j hj hun => ?_) ha hgen.symm
    exact hfree c j hj (arms_of_unspawned hun)
  exact ⟨rfl, hgen, hm.keeps_cover hi hx hrun hk (ExpiryPc.armed_of_firing hfiring) howed ha' hp'⟩

/-- No call arms an item that a coroutine is inside of, or that is marked. -/
theorem ThreadsOk.not_arms (h : ThreadsOk s) (hx : s.expiryTasks[t]? = some x)
    (ha : s.armings[x.item]? = some a) (hwhy : x.pc = .inspecting ∨ a.processed) (c : CallId)
    (j : JoinCall K V) (hj : s.calls[c]? = some j) : j.pc.arms ≠ some x.item := by
  intro harms
  have hin := inside_of_arms harms
  obtain ⟨it, hit, -, hmu, hflag⟩ := h.calls c j hj x.item (item_of_inside hin)
  rcases hwhy with hpc | hp
  · obtain ⟨it', hit', hmu', -⟩ := h.tasks t x hx
    cases hit.symm.trans hit'
    have := (hmu hin).symm.trans (hmu' (by rw [hpc]; rfl))
    cases this
  · obtain rfl : it.arming = a := some.inj ((armings_of_item hit).symm.trans ha)
    have hfalse : it.processed = false := hflag false (expects_of_arms harms)
    exact absurd (hfalse.symm.trans hp) Bool.false_ne_true

/-- A step of an expiry coroutine. -/
theorem HandInv.expire {o : Outcome V} (hi : Inv s) (hr : RegInv s) (hrunInv : RunInv s)
    (h : HandInv s armedBy) (hs : s.expiryStep t o = some s') : HandInv s' armedBy := by
  obtain ⟨x, pc, hx, htasks, -, hm⟩ := expiryStep_moved hi.threads.tasks hs
  obtain ⟨_, -, he⟩ := expiryStep_effect hi.threads.tasks hs
  -- Where the coroutine writes its item, no call is arming it and it is marked afterwards.
  have hwrite : s'.armings = s.armings ∨ ∃ a₁, s'.armings = s.armings.set x.item a₁ ∧
      a₁.processed ∧ ∀ (c : CallId) j, s.calls[c]? = some j → j.pc.arms ≠ some x.item := by
    cases hm with
    | advance _ _ harm | quit _ harm | skip _ _ _ _ harm | finish _ harm => exact .inl harm
    | mark a hpc ha _ harm =>
      exact .inr ⟨_, harm, rfl, hi.threads.not_arms hx ha (.inl hpc)⟩
    | release a _ ha hp harm =>
      exact .inr ⟨_, harm, hp, hi.threads.not_arms hx ha (.inr hp)⟩
  have hback : ∀ (i : ItemId) a', s'.armings[i]? = some a' → s.armings[i]? = some a' ∨
      (i = x.item ∧ a'.processed ∧
        ∀ (c : CallId) j, s.calls[c]? = some j → j.pc.arms ≠ some i) := by
    intro i a' ha'
    rcases hwrite with harm | ⟨a₁, harm, hp, hfree⟩ <;> rw [harm] at ha'
    · exact .inl ha'
    · rcases getElem?_set_cases ha' with ⟨rfl, rfl⟩ | ⟨-, ha'⟩
      · exact .inr ⟨rfl, hp, hfree⟩
      · exact .inl ha'
  refine ⟨?_, ?_, ?_⟩
  · intro i hlen
    rw [(step_other (a := .expire t o) hi hs).length] at hlen
    exact h.fresh i hlen
  · intro hrun c j i a' hj harms ha'
    rw [he.life] at hrun
    rw [he.calls] at hj
    rcases hback i a' ha' with ha | ⟨-, -, hfree⟩
    · exact h.phases hrun c j i a' hj harms ha
    · exact absurd harms (hfree c j hj)
  · intro hrun i a' ha' hp' hfree
    rw [he.life] at hrun
    rw [he.calls] at hfree
    rcases hback i a' ha' with ha | ⟨-, hp, -⟩
    · have hrest := h.rest hrun i a' ha hp' hfree
      refine ⟨hrest.le, fun σ hσ => ?_⟩
      obtain ⟨heq, b, hb, hgen, htoken, hpending⟩ := hrest.subscribed σ hσ
      refine ⟨heq, b, hb, hgen, htoken, fun hfin => ?_⟩
      exact (hpending hfin).expire hi hx hm htasks (hrunInv.not_cancelled hrun)
        (hr.keeps hrun ha hp') ha hfree ha' hp'
    · rw [hp] at hp'
      cases hp'

/-- A step that leaves calls, items and coroutines alone. -/
theorem HandInv.frame (h : HandInv s armedBy)
    (hcalls : s'.calls = s.calls ∨ ∃ j, s'.calls = s.calls ++ [j] ∧ j.pc = .entered)
    (harm : s'.lifeState = .running → s.lifeState = .running ∧ s'.armings = s.armings)
    (hlen : s'.armings.length = s.armings.length)
    (htasks : s'.expiryTasks = s.expiryTasks) : HandInv s' armedBy where
  fresh i hi := h.fresh i (by rw [← hlen]; exact hi)
  phases hrun c j i a hj harms ha := by
    obtain ⟨hrun, harm⟩ := harm hrun
    rw [harm] at ha
    rcases getElem?_of_grown hcalls hj with hj | hentered
    · exact h.phases hrun c j i a hj harms ha
    · rw [hentered] at harms
      cases harms
  rest hrun i a ha hp hfree := by
    obtain ⟨hrun, harm⟩ := harm hrun
    rw [harm] at ha
    rw [htasks]
    exact h.rest hrun i a ha hp (fun c j hj => hfree c j (getElem?_grown hcalls hj))

/-- A step of `stop`. -/
theorem HandInv.stop {n : Nat} (hi : Inv s) (h : HandInv s armedBy)
    (hs : s.stopStep n = some s') : HandInv s' armedBy := by
  have he := stopStep_effect hi.threads.stops hs
  have hm := stopStep_moved hi.life hs
  have hlen := (step_other (a := .stop n) hi hs).length
  refine h.frame (.inl he.calls) (fun hrun => ?_) hlen he.tasks
  have hrun₀ : s.lifeState = .running := by
    rcases hm.life with hlife | hclosed
    · exact hlife.symm.trans hrun
    · rw [hrun] at hclosed
      cases hclosed
  refine ⟨hrun₀, ?_⟩
  rcases hm.armings with harm | ⟨k, a, hclosed, -⟩
  · exact harm
  · rw [hrun₀] at hclosed
    cases hclosed

theorem HandInv.quiet (hrunInv : RunInv s) (h : HandInv s armedBy) (hm : QuietMove s s') :
    HandInv s' armedBy := by
  rcases hm.life with hlife | hcreated
  · exact h.frame hm.calls (fun hrun => ⟨hlife.symm.trans hrun, hm.armings⟩)
      (by rw [hm.armings]) hm.tasks
  · -- There are no items before `start`.
    have hnil : s'.armings = [] := hm.armings.trans (hrunInv.created hcreated).1
    refine ⟨fun i hi => h.fresh i (by rw [← hm.armings]; exact hi), ?_, ?_⟩
    · intro _ c j i a _ _ ha
      simp [hnil] at ha
    · intro _ i a ha
      simp [hnil] at ha

/-- Every step keeps the handshake. -/
theorem step_handInv {a : Action K V} (hi : Inv s) (hr : RegInv s) (hrunInv : RunInv s)
    (h : HandInv s armedBy) (hok : renewalsArm s a) (hs : step s a = some s') :
    HandInv s' (recordArming s a armedBy) := by
  cases a with
  | join c o =>
    obtain ⟨j, hj, hm⟩ := hi.joinMoved hs
    obtain ⟨_, -, he⟩ := hi.joinEffect hs
    obtain ⟨_, -, -, -, -, -, hops⟩ := he.call
    exact h.join hi (step_inv (a := .join c o) hi hs) hj hm hops.life hok
  | cancel k fails => exact h.cancel hr hok hs
  | expire t o => exact h.expire hi hr hrunInv hs
  | stop n => exact h.stop hi hs
  | _ => exact h.quiet hrunInv (step_quiet rfl hs)

theorem reachable_handInv {p : State K V × ArmedBy}
    (h : (armingSystem K V config).ReachableIf (fun p a => renewalsArm p.1 a) p) :
    RunInv p.1 ∧ HandInv p.1 p.2 := by
  refine h.invariant (I := fun p => RunInv p.1 ∧ HandInv p.1 p.2) ?_ ?_
  · exact ⟨⟨fun _ => ⟨rfl, nofun⟩, nofun⟩, fun _ _ => rfl, nofun, fun _ _ _ ha => nomatch ha⟩
  · rintro q a q' hreach ⟨hrunInv, hhand⟩ hok hs
    have hreach' := hreach.of_history
    have hi := reachable_inv hreach'.reachable
    have hr : RegInv q.1 := reachable_regInv (hreach'.mono (fun _ _ h => h.2.2))
    obtain ⟨s', hs', rfl⟩ := map_eq_some_iff.mp hs
    exact ⟨step_runInv hi hrunInv hs', step_handInv hi hr hrunInv hhand hok hs'⟩

/-! ### Stop requests -/

/-- What a state of the storage, and every run from it, says about the generations of an item;
    `armedBy` gives the stop token of the context that armed the current one. -/
structure ExpiryGenerations (config : JoinStorageConfig) (s : State K V) (armedBy : ArmedBy) :
    Prop where
  /-- Unless a renewal is on its way, no coroutine of a generation before that of the item will
      ever mark it. -/
  stale : ∀ (i : ItemId) it, s.items[i]? = some it →
    (∀ (c : CallId) j saved, s.calls[c]? = some j → j.pc.rollsBack ≠ some (i, saved)) →
    ∀ s₁, (system K V config).Steps (fun _ _ => True) s s₁ → ∀ (t : TaskId) x o s₂,
      s₁.expiryTasks[t]? = some x → x.item = i → x.generation < it.generation →
      step s₁ (.expire t o) = some s₂ → s₂.isProcessed i = s₁.isProcessed i
  /-- While the storage is running, a stop request on the context that armed an unprocessed item
      has led, or leads by steps of the stop callback alone, to a coroutine of the current
      generation that is about to look at the item. -/
  scheduled : s.lifeState = .running → ∀ (i : ItemId) it τ, s.items[i]? = some it →
    it.processed = false → (∀ (c : CallId) j, s.calls[c]? = some j → j.pc.arms ≠ some i) →
    armedBy i = some τ → s.world.stopRequested τ →
    ∃ n s', (system K V config).runFrom s (replicate n (.cancel i false)) = some s' ∧
      Pending s'.expiryTasks i it.generation

theorem isProcessed_eq (s : State K V) (i : ItemId) :
    s.isProcessed i = (s.armings[i]?.map (·.processed)).getD false := by
  unfold isProcessed
  rw [armings_getElem?]
  cases s.items[i]? <;> rfl

/-- The callback of item `i` goes on by itself until a coroutine is on its way. -/
def Schedules (config : JoinStorageConfig) (s : State K V) (i : ItemId) (g : Nat) : Prop :=
  ∃ n s', (system K V config).runFrom s (replicate n (.cancel i false)) = some s' ∧
    Pending s'.expiryTasks i g

theorem Schedules.of_step {g : Nat}
    (hs : s.cancelStep i false = some s') (h : Schedules config s' i g) :
    Schedules config s i g := by
  obtain ⟨n, s₁, hrun, hpending⟩ := h
  exact ⟨n + 1, s₁, bind_eq_some_iff.mpr ⟨s', hs, hrun⟩, hpending⟩

section

variable {config : JoinStorageConfig} {i : ItemId} {it : Item K V} {b : Subscription}

section

variable (hit : s.items[i]? = some it) (hb : it.cancelCallback = some b)
include hit hb

theorem schedules_of_scheduling (hpc : b.pc = .scheduling) (hrun : s.lifeState = .running) :
    Schedules config s i b.generation := by
  refine .of_step (by simp only [cancelStep, hit, hb, hpc, bind_eq_bind, bind_some]; rfl)
    ⟨0, _, rfl, ?_⟩
  rw [scheduleExpiryNow_eq]
  show Pending (if s.lifeState = .running ∧ false = false then _ else _) i b.generation
  rw [if_pos ⟨hrun, rfl⟩]
  exact ⟨_, mem_append_right _ (mem_singleton_self _), rfl, rfl, rfl⟩

theorem schedules_of_checking (hpc : b.pc = .checking) (harmed : b.generation ≤ it.armedGeneration)
    (hrun : s.lifeState = .running) : Schedules config s i b.generation := by
  have hs : s.cancelStep i false = some (s.setItem i
      { it with cancelCallback := some { b with pc := .scheduling } }) := by
    simp only [cancelStep, hit, hb, hpc, bind_eq_bind, bind_some]
    rw [if_pos harmed]
  exact .of_step hs (schedules_of_scheduling (b := { b with pc := .scheduling })
    (getElem?_set_some hit _) rfl rfl hrun)

theorem schedules_of_waiting (hpc : b.pc = .waiting)
    (hfired : b.token.any s.world.stopRequested) (halive : s.alive i)
    (harmed : b.generation ≤ it.armedGeneration) (hrun : s.lifeState = .running) :
    Schedules config s i b.generation := by
  have hs : s.cancelStep i false = some (s.setItem i { it with
      cancelledGeneration := max it.cancelledGeneration b.generation
      cancelCallback := some { b with pc := .checking } }) := by
    simp only [cancelStep, hit, hb, hpc, hfired, halive, bind_eq_bind,
      bind_some, Bool.not_true, Bool.false_eq_true, if_false, if_true]
  exact .of_step hs (schedules_of_checking (b := { b with pc := .checking })
    (getElem?_set_some hit _) rfl rfl harmed hrun)

end

/-- At rest, every position of the callback leads on. -/
theorem RestOk.schedules {τ : TokenId} (h : RestOk s.expiryTasks (some τ) i it.arming)
    (hit : s.items[i]? = some it) (hfired : s.world.stopRequested τ)
    (halive : s.alive i) (hrun : s.lifeState = .running) : Schedules config s i it.generation := by
  obtain ⟨heq, b, hb, hgen, htoken, hpending⟩ := h.subscribed τ rfl
  have hb : it.cancelCallback = some b := hb
  have hgen : b.generation = it.generation := hgen
  have harmed : b.generation ≤ it.armedGeneration := Nat.le_of_eq (hgen.trans heq.symm)
  rw [← hgen]
  cases hpc : b.pc with
  | waiting =>
    have hfired : b.token.any s.world.stopRequested := by
      rw [htoken]
      exact hfired
    exact schedules_of_waiting hit hb hpc hfired halive harmed hrun
  | checking => exact schedules_of_checking hit hb hpc harmed hrun
  | scheduling => exact schedules_of_scheduling hit hb hpc hrun
  | finished =>
    rw [hgen]
    exact ⟨0, s, rfl, hpending hpc⟩

end

/-- **Generations of an item.**  In every run in which coroutines can be started and renewals
    neither fail to subscribe nor lose their item: a coroutine of an earlier generation never
    marks an item that was renewed, and while the storage is running a stop request on the
    context that armed the current generation leads to a coroutine of that generation, unless the
    item is processed or renewed first. -/
theorem expiry_generations (config : JoinStorageConfig) (p : State K V × ArmedBy)
    (h : (armingSystem K V config).ReachableIf (fun p a => renewalsArm p.1 a) p) :
    ExpiryGenerations config p.1 p.2 := by
  have hreach := h.of_history
  have hi := reachable_inv hreach.reachable
  have hr : RegInv p.1 := reachable_regInv (hreach.mono (fun _ _ h => h.2.2))
  obtain ⟨-, hhand⟩ := reachable_handInv h
  refine ⟨?_, ?_⟩
  · intro i it hit hfree s₁ hsteps t x o s₂ hx hitem hold hs
    subst hitem
    have ha := armings_of_item hit
    have hfloor : Floor it.generation x.item p.1 := by
      refine ⟨lt_of_getElem? ha, fun k b hb hk => ?_, fun c j k saved hj hback hk => ?_⟩
      · cases ha.symm.trans (hk ▸ hb)
        exact le_rfl
      · exact absurd (hk ▸ hback) (hfree c j saved hj)
    obtain ⟨hi₁, hfloor₁⟩ := steps_floor hi hfloor hsteps
    rw [isProcessed_eq, isProcessed_eq, stale_expiry hi₁ hfloor₁ hx hold hs]
  · intro hrun i it τ hit hp hfree harmedBy hfired
    have hrest := hhand.rest hrun i it.arming (armings_of_item hit) hp hfree
    rw [harmedBy] at hrest
    exact hrest.schedules hit hfired (alive_of_keeps (hr.keeps hrun (armings_of_item hit) hp)) hrun

/-- A stop request comes while a renewal is arming: its callback finds the generation not yet
    armed, and the call schedules in its place. -/
def stoppedWhileArming : List (Action Nat Nat) :=
  [ firstJoin {}, [.callJoin { stopToken := some 1 } 7 0 200],
    replicate 7 (.join 1 .go),
    [.fire 1, .cancel 0 false, .cancel 0 false],
    replicate 6 (.join 1 .go),
    [.join 1 (.answered false [[100, 200]]), .join 1 .go] ].flatten

/-- Both calls returned; the item was armed with token 1, whose callback has finished. -/
def stopNoticed (p : State Nat Nat × ArmedBy) : Bool :=
  p.1.calls.map (·.pc) = [.returned, .returned] && p.1.lifeState = .running &&
    p.2 0 = some 1 && p.1.world.stopRequested 1 &&
    p.1.items[0]?.any (fun it => it.processed = false &&
      it.cancelCallback = some ⟨some 1, 2, .finished⟩)

theorem expiry_generations_stoppedWhileArming : ∃ p,
    (armingSystem Nat Nat renewing).ReachableIf (fun p a => renewalsArm p.1 a) p ∧
      stopNoticed p = true ∧ ExpiryGenerations renewing p.1 p.2 := by
  obtain ⟨p, hp, htest⟩ := (armingSystem Nat Nat renewing).exists_reachableIf_of_run
    (fun p a => renewalsArm p.1 a) stoppedWhileArming (stopNoticed · = true) (by decide +kernel)
  exact ⟨p, hp, htest, expiry_generations renewing p hp⟩

/-! ### A request that is lost -/

/-- A call with token 1 creates an item.  A second one begins to renew it, cannot subscribe and
    throws; then a stop is requested for token 1. -/
def stoppedAfterFailure : List (Action Nat Nat) :=
  [ firstJoin { stopToken := some 1 }, [.callJoin {} 7 0 200],
    replicate 6 (.join 1 .go),
    [.join 1 .fail, .join 1 .go, .join 1 .go, .fire 1] ].flatten

/-- The item is unprocessed, at its first generation and armed with token 1, for which a stop is
    requested; but no callback is registered, and the only coroutine sleeps. -/
def stopUnnoticed (p : State Nat Nat × ArmedBy) : Bool :=
  p.1.calls.map (·.pc) = [.returned, .threw .resource] && p.1.lifeState = .running &&
    p.2 0 = some 1 && p.1.world.stopRequested 1 &&
    p.1.items[0]?.any (fun it => it.processed = false && it.generation = 1) &&
    (p.1.cancelStep 0 false).isNone && p.1.expiryTasks = [⟨0, 1, .sleeping 10⟩] &&
    p.1.world.now = 0

/-- **A stop request is lost.**  A renewal that cannot subscribe puts the old generation back but
    not its subscription, so a stop request on the context that armed it goes unnoticed. -/
theorem expiry_stopRequest_lost : ∃ p,
    (armingSystem Nat Nat renewing).ReachableIf (fun p a => spawnFails p.1 a = false) p ∧
      stopUnnoticed p = true :=
  System.exists_reachableIf_of_run _ _ stoppedAfterFailure _ (by decide +kernel)

end ServiceLib.Join
