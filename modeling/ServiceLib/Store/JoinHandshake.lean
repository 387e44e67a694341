import ServiceLib.Store.JoinGenerations

namespace ServiceLib.Join

/-!
# Join storage — arming against a stop request

A stop request can come while `armExpiryLocked` is on its way.  The stop callback stores
`cancelledGeneration` and then loads `armedGeneration`; the call stores `armedGeneration` and
then loads `cancelledGeneration`.  Whichever comes second sees the other and starts the
coroutine.
-/

open List Option Function JoinPc State

variable {K V : Type} [DecidableEq K] {s s' : State K V}

/-! ### Runs -/

/-- The action starts a coroutine, and it cannot be started. -/
def spawnFails (s : State K V) : Action K V → Bool
  | .join c o => o.fails && (s.calls[c]?).any (fun j => match j.pc with
      | .inlineScheduling .. | .spawning .. | .scheduling .. => true
      | _ => false)
  | .cancel _ fails => fails
  | _ => false

/-- The action is the subscription of a renewal, and it fails. -/
def resubscriptionFails (s : State K V) : Action K V → Bool
  | .join c o => o.fails && (s.calls[c]?).any (fun j => match j.pc with
      | .subscribing _ (.renewal _) => true
      | _ => false)
  | _ => false

/-- Coroutines can be started, and renewals neither fail to subscribe nor lose their item. -/
def renewalsArm (s : State K V) (a : Action K V) : Prop :=
  spawnFails s a = false ∧ resubscriptionFails s a = false ∧ renewalsReinsert s a

instance (s : State K V) (a : Action K V) : Decidable (renewalsArm s a) :=
  inferInstanceAs (Decidable (_ ∧ _ ∧ _))

/-- The stop token of the context that armed the current generation of an item. -/
abbrev ArmedBy := ItemId → Option TokenId

/-- The item for which `armExpiryLocked` returns in the next step of a call. -/
def State.armReturns (s : State K V) (j : JoinCall K V) : Option ItemId :=
  match j.pc with
  | .rechecking i _ =>
    if (s.armings[i]?).any (fun a => a.cancelledGeneration < a.generation) then some i else none
  | .scheduling i _ => some i
  | _ => none

/-- The history is written when `armExpiryLocked` returns. -/
def recordArming (s : State K V) (a : Action K V) (armedBy : ArmedBy) : ArmedBy :=
  match a with
  | .join c _ =>
    match s.calls[c]? with
    | some j => (s.armReturns j).elim armedBy (fun i => update armedBy i j.ctx.stopToken)
    | none => armedBy
  | _ => armedBy

/-- The storage with the history of its armings. -/
def armingSystem (K V : Type) [DecidableEq K] (config : JoinStorageConfig) :
    System (State K V × ArmedBy) (Action K V) :=
  (system K V config).withHistory (fun _ => none) recordArming

/-! ### The invariant -/

/-- A coroutine for the generation is awake and has still to look at the item. -/
def Pending (tasks : List ExpiryTask) (i : ItemId) (g : Nat) : Prop :=
  ∃ x ∈ tasks, x.item = i ∧ x.generation = g ∧ x.pc.firing

variable {i : ItemId} {tasks : List ExpiryTask}

theorem Pending.append {g : Nat} (h : Pending tasks i g)
    (new : List ExpiryTask) : Pending (tasks ++ new) i g := by
  obtain ⟨x, hx, hrest⟩ := h
  exact ⟨x, mem_append_left new hx, hrest⟩

/-- The stop callback is registered for the current generation, with the token of the context;
    once it is running it has stored `cancelledGeneration`. -/
def Subscribed (ctx : Context) (a : Arming) : Prop :=
  ∃ b, a.cancelCallback = some b ∧ b.generation = a.generation ∧ b.token = ctx.stopToken ∧
    (b.pc ≠ .waiting → a.generation ≤ a.cancelledGeneration)

/-- What holds of the item that a call with `ctx` is arming. -/
def PhaseOk (ctx : Context) (a : Arming) : JoinPc → Prop
  | .renewing .. | .subscribing .. => a.armedGeneration < a.generation
  | .spawning .. | .arming .. => a.armedGeneration < a.generation ∧ Subscribed ctx a
  | .rechecking .. | .scheduling .. => a.armedGeneration = a.generation ∧ Subscribed ctx a
  | .inlineScheduling .. | .restoring .. => False
  | _ => True

/-- What holds of item `i` while no call is arming it; `τ` is the token it was armed with. -/
structure RestOk (tasks : List ExpiryTask) (τ : Option TokenId) (i : ItemId) (a : Arming) :
    Prop where
  le : a.armedGeneration ≤ a.generation
  subscribed : ∀ σ, τ = some σ → a.armedGeneration = a.generation ∧
    ∃ b, a.cancelCallback = some b ∧ b.generation = a.generation ∧ b.token = some σ ∧
      (b.pc = .finished → Pending tasks i a.generation)

variable {a a₁ : Arming} {pc : JoinPc} {j' : JoinCall K V}

theorem RestOk.append {τ : Option TokenId} (h : RestOk tasks τ i a)
    (new : List ExpiryTask) : RestOk (tasks ++ new) τ i a := by
  refine ⟨h.le, fun σ hσ => ?_⟩
  obtain ⟨heq, b, hb, hgen, htoken, hpending⟩ := h.subscribed σ hσ
  exact ⟨heq, b, hb, hgen, htoken, fun hpc => (hpending hpc).append new⟩

/-- The handshake, while the storage is running. -/
structure HandInv (s : State K V) (armedBy : ArmedBy) : Prop where
  fresh : ∀ i, s.armings.length ≤ i → armedBy i = none
  phases : s.lifeState = .running → ∀ (c : CallId) j i a, s.calls[c]? = some j →
    j.pc.arms = some i → s.armings[i]? = some a → PhaseOk j.ctx a j.pc
  rest : s.lifeState = .running → ∀ (i : ItemId) a, s.armings[i]? = some a →
    a.processed = false → (∀ (c : CallId) j, s.calls[c]? = some j → j.pc.arms ≠ some i) →
    RestOk s.expiryTasks (armedBy i) i a

/-! ### joinValue -/

theorem JoinPc.inside_of_arms (h : pc.arms = some i) : pc.inside = some i := by
  cases pc <;> first | exact h | cases h

theorem JoinPc.expects_of_arms (h : pc.arms = some i) : pc.expects = some false := by
  cases pc <;> first | rfl | cases h

section

variable {c : CallId} {j : JoinCall K V} {o : Outcome V} {armedBy armedBy' : ArmedBy}

theorem recordArming_none (hj : s.calls[c]? = some j) (h : s.armReturns j = none) :
    recordArming s (.join c o) armedBy = armedBy := by
  simp [recordArming, hj, h]

theorem recordArming_some (hj : s.calls[c]? = some j) (h : s.armReturns j = some i) :
    recordArming s (.join c o) armedBy = update armedBy i j.ctx.stopToken := by
  simp [recordArming, hj, h]

/-- `armExpiryLocked` returns only from its last two steps. -/
theorem armReturns_eq_none (h : j.pc.arms = none ∨ ∃ i, j.pc.unspawned = some i) :
    s.armReturns j = none := by
  unfold armReturns
  split
  next hpc => rw [hpc] at h; rcases h with h | ⟨_, h⟩ <;> cases h
  next hpc => rw [hpc] at h; rcases h with h | ⟨_, h⟩ <;> cases h
  next => rfl

/-- A step of call `c` that is about one item, or about none: the other items, and the calls that
    arm them, do not notice. -/
theorem HandInv.of_call (h : HandInv s armedBy) (m : Option ItemId) (hj : s.calls[c]? = some j)
    (hcalls : s'.calls = s.calls.set c j') (hlife : s'.lifeState = s.lifeState)
    (hlen : s.armings.length ≤ s'.armings.length) (hitem : ∀ k ∈ m, k < s'.armings.length)
    (harm : ∀ k, k ∉ m → s'.armings[k]? = s.armings[k]?)
    (htasks : ∃ new, s'.expiryTasks = s.expiryTasks ++ new)
    (hrecord : ∀ k, k ∉ m → armedBy' k = armedBy k)
    (halone : ∀ k ∈ m, ∀ (d : CallId) jd, s.calls[d]? = some jd → d ≠ c → jd.pc.arms ≠ some k)
    (hpc : j.pc.arms = none ∨ j.pc.arms = m)
    (hphase : s.lifeState = .running → ∀ k, j'.pc.arms = some k →
      ∀ a', s'.armings[k]? = some a' → PhaseOk j'.ctx a' j'.pc)
    (hrest : s.lifeState = .running → ∀ k ∈ m, j'.pc.arms ≠ some k →
      ∀ a', s'.armings[k]? = some a' → a'.processed = false →
        RestOk s'.expiryTasks (armedBy' k) k a') : HandInv s' armedBy' where
  fresh k hk := by
    rw [hrecord k (fun hm => Nat.not_le_of_lt (hitem k hm) hk)]
    exact h.fresh k (Nat.le_trans hlen hk)
  phases hrun d jd k a' hd harms ha' := by
    rw [hlife] at hrun
    rw [hcalls] at hd
    rcases getElem?_set_cases hd with ⟨rfl, rfl⟩ | ⟨hdc, hd⟩
    · exact hphase hrun k harms a' ha'
    · rw [harm k (fun hm => halone k hm d jd hd hdc harms)] at ha'
      exact h.phases hrun d jd k a' hd harms ha'
  rest hrun k a' ha' hp hfree := by
    rw [hlife] at hrun
    by_cases hm : k ∈ m
    · have hself := hfree c j' (by rw [hcalls, getElem?_set_some hj])
      exact hrest hrun k hm hself a' ha' hp
    · rw [harm k hm] at ha'
      rw [hrecord k hm]
      obtain ⟨new, htasks⟩ := htasks
      rw [htasks]
      refine (h.rest hrun k a' ha' hp (fun d jd hd harms => ?_)).append new
      by_cases hdc : d = c
      · subst hdc
        cases hd.symm.trans hj
        rcases hpc with hpc | hpc <;> rw [hpc] at harms
        · cases harms
        · exact hm harms
      · refine hfree d jd ?_ harms
        rw [hcalls, getElem?_set_ne (Ne.symm hdc)]
        exact hd

/-- A step of a call that arms nothing and writes no arming. -/
theorem HandInv.idle (h : HandInv s armedBy) (hj : s.calls[c]? = some j)
    (hcalls : s'.calls = s.calls.set c j') (hlife : s'.lifeState = s.lifeState)
    (harm : s'.armings = s.armings) (htasks : s'.expiryTasks = s.expiryTasks)
    (hpc : j.pc.arms = none) (hpc' : j'.pc.arms = none) : HandInv s' armedBy :=
  h.of_call none hj hcalls hlife (harm ▸ le_rfl) (by rintro _ ⟨⟩) (fun _ _ => by rw [harm])
    (exists_append_of_eq htasks) (fun _ _ => rfl) (by rintro _ ⟨⟩) (.inl hpc) (by simp [hpc'])
    (by rintro _ _ ⟨⟩)

theorem not_resubscriptionFails {saved : Saved} (hok : renewalsArm s (.join c o))
    (hj : s.calls[c]? = some j) (hpc : j.pc = .subscribing i (.renewal saved)) :
    o.fails = false := by
  have h := hok.2.1
  simpa [resubscriptionFails, hj, hpc] using h

theorem not_spawnFails (hok : renewalsArm s (.join c o)) (hj : s.calls[c]? = some j)
    (hpc : (∃ i p, j.pc = .spawning i p) ∨ ∃ i p, j.pc = .scheduling i p) : o.fails = false := by
  have h := hok.1
  rcases hpc with ⟨i, p, hpc⟩ | ⟨i, p, hpc⟩ <;> simpa [spawnFails, hj, hpc] using h

/-- `HandInv.of_call`, when the step writes the arming of an item that exists. -/
theorem HandInv.of_set (h : HandInv s armedBy) (hj : s.calls[c]? = some j)
    (hcalls : s'.calls = s.calls.set c j') (hlife : s'.lifeState = s.lifeState)
    (ha : s.armings[i]? = some a) (harm : s'.armings = s.armings.set i a₁)
    (htasks : ∃ new, s'.expiryTasks = s.expiryTasks ++ new)
    (hrecord : ∀ k, k ≠ i → armedBy' k = armedBy k)
    (halone : ∀ (d : CallId) jd, s.calls[d]? = some jd → d ≠ c → jd.pc.arms ≠ some i)
    (hpc : j.pc.arms = none ∨ j.pc.arms = some i) (hpc' : j'.pc.arms = none ∨ j'.pc.arms = some i)
    (hphase : s.lifeState = .running → j'.pc.arms = some i → PhaseOk j'.ctx a₁ j'.pc)
    (hrest : s.lifeState = .running → j'.pc.arms ≠ some i → a₁.processed = false →
      RestOk s'.expiryTasks (armedBy' i) i a₁) : HandInv s' armedBy' := by
  have hlen : s'.armings.length = s.armings.length := by rw [harm, length_set]
  have hself : s'.armings[i]? = some a₁ := by rw [harm, getElem?_set_some ha]
  refine h.of_call (some i) hj hcalls hlife (Nat.le_of_eq hlen.symm) ?_ (fun k hk => ?_) htasks
    (fun k hk => hrecord k (by rintro rfl; exact hk rfl)) ?_ hpc ?_ ?_
  · rintro _ ⟨⟩
    exact lt_of_getElem? hself
  · rw [harm, getElem?_set_ne (by rintro rfl; exact hk rfl)]
  · rintro _ ⟨⟩
    exact halone
  · intro hrun k harms b hb
    rcases hpc' with hpc' | hpc' <;> cases hpc'.symm.trans harms
    cases hself.symm.trans hb
    exact hphase hrun harms
  · rintro hrun _ ⟨⟩ harms b hb hp
    cases hself.symm.trans hb
    exact hrest hrun harms hp

/-- No other call arms an item that this one is inside of. -/
theorem not_arms_of_inside (hi : Inv s) (hj : s.calls[c]? = some j) (hin : j.pc.inside = some i)
    (d : CallId) (jd : JoinCall K V) (hd : s.calls[d]? = some jd) (hne : d ≠ c) :
    jd.pc.arms ≠ some i :=
  fun harms => hne (hi.threads.inside_unique hj hd hin (inside_of_arms harms))

/-- A step of call `c`, from a state in which the handshake holds. -/
structure HandStep (s s' : State K V) (armedBy : ArmedBy) (c : CallId) (j j' : JoinCall K V) :
    Prop where
  inv : Inv s
  hand : HandInv s armedBy
  call : s.calls[c]? = some j
  calls : s'.calls = s.calls.set c j'
  ctx : j'.ctx = j.ctx
  life : s'.lifeState = s.lifeState

namespace HandStep

variable {p : ArmFor} {saved : Saved} (h : HandStep s s' armedBy c j j') {e : JoinError}
include h

/-- A call that goes on to arm item `i`, or goes on arming it. -/
theorem arm {pc' : JoinPc} (hpc : j.pc = pc) (hpc' : j'.pc = pc') (hin : pc.inside = some i)
    (harms : pc.arms = none ∨ pc.arms = some i) (harms' : pc'.arms = some i)
    (hret : s.armReturns j = none) (ha : s.armings[i]? = some a)
    (harm : s'.armings = s.armings.set i a₁) (htasks : ∃ new, s'.expiryTasks = s.expiryTasks ++ new)
    (hphase : s.lifeState = .running → (pc.arms = some i → PhaseOk j.ctx a pc) →
      PhaseOk j.ctx a₁ pc') : HandInv s' (recordArming s (.join c o) armedBy) := by
  subst hpc hpc'
  rw [recordArming_none h.call hret]
  refine h.hand.of_set h.call h.calls h.life ha harm htasks (fun _ _ => rfl)
    (not_arms_of_inside h.inv h.call hin) harms (.inr harms') (fun hrun _ => ?_)
    (fun _ hne => absurd harms' hne)
  rw [h.ctx]
  exact hphase hrun (fun harms => h.hand.phases hrun c j i a h.call harms ha)

/-- The step in which `armExpiryLocked` returns. -/
theorem armed (hpc' : j'.pc = State.armed i p) (harms : j.pc.arms = some i)
    (hret : s.armReturns j = some i) (ha : s.armings[i]? = some a) (harm : s'.armings = s.armings)
    (htasks : ∃ new, s'.expiryTasks = s.expiryTasks ++ new)
    (hsub : s.lifeState = .running → PhaseOk j.ctx a j.pc → a.armedGeneration = a.generation ∧
      ∃ b, a.cancelCallback = some b ∧ b.generation = a.generation ∧ b.token = j.ctx.stopToken ∧
        (b.pc = .finished → Pending s'.expiryTasks i a.generation)) :
    HandInv s' (recordArming s (.join c o) armedBy) := by
  have hnone : j'.pc.arms = none := by
    rw [hpc']
    cases p <;> rfl
  rw [recordArming_some h.call hret]
  refine h.hand.of_set h.call h.calls h.life ha (harm.trans (set_eq_self ha).symm) htasks
    (fun k hk => update_of_ne hk _ _) (not_arms_of_inside h.inv h.call (inside_of_arms harms))
    (.inr harms) (.inl hnone) (by simp [hnone]) (fun hrun _ _ => ?_)
  have hphase := h.hand.phases hrun c j i a h.call harms ha
  obtain ⟨heq, b, hb, hgen, htoken, hpending⟩ := hsub hrun hphase
  rw [update_self]
  exact ⟨Nat.le_of_eq heq, fun σ hσ => ⟨heq, b, hb, hgen, htoken.trans hσ, hpending⟩⟩

/-- A new item, which no call arms but the one that made it. -/
theorem create {deadline : Option Time} (hpc : j.pc = .inserting deadline)
    (hpc' : j'.pc = if deadline.isSome then .subscribing s.armings.length .creation
      else .inspecting s.armings.length true)
    (harm : s'.armings =
      s.armings ++ [⟨deadline, if deadline.isSome then 1 else 0, 0, 0, none, false⟩])
    (htasks : s'.expiryTasks = s.expiryTasks) : HandInv s' armedBy := by
  have hnew : s'.armings[s.armings.length]? =
      some ⟨deadline, if deadline.isSome then 1 else 0, 0, 0, none, false⟩ := by
    rw [harm, getElem?_concat_length]
  refine h.hand.of_call (some s.armings.length) h.call h.calls h.life (by simp [harm]) ?_
    (fun k hk => ?_) (exists_append_of_eq htasks) (fun _ _ => rfl) ?_ (.inl (by rw [hpc]; rfl))
    ?_ ?_
  · rintro _ ⟨⟩
    exact lt_of_getElem? hnew
  · rw [harm]
    exact getElem?_concat_of_ne (by rintro rfl; exact hk rfl) _
  · rintro _ ⟨⟩ d jd hd _ harms
    obtain ⟨it, hit, -⟩ := h.inv.threads.holds hd (inside_of_arms harms)
    exact absurd (lt_of_getElem? (armings_of_item hit)) (Nat.lt_irrefl _)
  · intro _ k harms a' ha'
    split at hpc' <;> rw [hpc'] at harms ⊢ <;> cases harms
    next hdead =>
      cases ha'.symm.trans hnew
      show 0 < if deadline.isSome = true then 1 else 0
      rw [if_pos hdead]
      exact Nat.zero_lt_one
  · rintro _ _ ⟨⟩ harms a' ha' _
    cases ha'.symm.trans hnew
    refine ⟨Nat.zero_le _, fun σ hσ => ?_⟩
    simp [h.hand.fresh _ le_rfl] at hσ

/-- A call marks an item, or goes on with one that is marked. -/
theorem mark (hi' : Inv s') (ha : s.armings[i]? = some a) (harm : s'.armings = s.armings.set i a₁)
    (hpc : j.pc.arms = none ∨ j.pc.unspawned = some i) (hpc' : j'.pc.arms = none)
    (hmarked : a₁.processed) (htasks : s'.expiryTasks = s.expiryTasks) : HandInv s' armedBy := by
  refine h.hand.of_set h.call h.calls h.life ha harm (exists_append_of_eq htasks) (fun _ _ => rfl)
    ?_ (hpc.imp_right arms_of_unspawned) (.inl hpc') (by simp [hpc']) (by simp [hmarked])
  -- A call that arms the item relies on its being unprocessed.
  intro d jd hd hdc harms
  have hd' : s'.calls[d]? = some jd := by
    rw [h.calls, getElem?_set_ne (Ne.symm hdc)]
    exact hd
  have hin := inside_of_arms harms
  obtain ⟨it, hit, -, -, hflag⟩ := hi'.threads.calls d jd hd' i (item_of_inside hin)
  have hp : it.arming.processed = false := hflag false (expects_of_arms harms)
  have heq := armings_of_item hit
  rw [harm, getElem?_set_some ha] at heq
  simp [← some.inj heq, hmarked] at hp

/-- A renewal begins: the item, at rest before, was not armed for a later generation. -/
theorem renew (ha : s.armings[i]? = some a) (hp : a.processed = false)
    (hpc : j.pc = .inspecting i false) (hpc' : j'.pc = .renewing i saved)
    (harm : s'.armings = s.armings.set i a₁) (harmed : a₁.armedGeneration = a.armedGeneration)
    (hgen : a₁.generation = a.generation + 1) (htasks : s'.expiryTasks = s.expiryTasks) :
    HandInv s' (recordArming s (.join c o) armedBy) := by
  refine h.arm hpc hpc' rfl (.inl rfl) rfl (armReturns_eq_none (.inl (by rw [hpc]; rfl))) ha harm
    (exists_append_of_eq htasks) (fun hrun _ => ?_)
  have hrest := (h.hand.rest hrun i a ha hp (fun d jd hd => ?_)).le
  · show a₁.armedGeneration < a₁.generation
    rw [harmed, hgen]
    exact Nat.lt_succ_of_le hrest
  by_cases hdc : d = c
  · subst hdc
    cases hd.symm.trans h.call
    rw [hpc]
    exact nofun
  · exact not_arms_of_inside h.inv h.call (by rw [hpc]; rfl) d jd hd hdc

/-- The stop callback is registered for the generation that is being armed. -/
theorem subscribe {sub : SubPc} {cancelled : Nat} (ha : s.armings[i]? = some a)
    (hpc : j.pc = .subscribing i p)
    (hpc' : (sub = .waiting ∧ cancelled = a.cancelledGeneration ∧ j'.pc = .spawning i p) ∨
      (sub = .finished ∧ cancelled = max a.cancelledGeneration a.generation ∧
        j'.pc = if a.generation ≤ a.armedGeneration then .inlineScheduling i p else .spawning i p))
    (harm : s'.armings = s.armings.set i { a with
      cancelCallback := some ⟨j.ctx.stopToken, a.generation, sub⟩
      cancelledGeneration := cancelled }) (htasks : s'.expiryTasks = s.expiryTasks) :
    HandInv s' (recordArming s (.join c o) armedBy) := by
  have hgo : ∀ {pc' : JoinPc}, j'.pc = pc' → pc'.arms = some i →
      (a.armedGeneration < a.generation → PhaseOk j.ctx { a with
        cancelCallback := some ⟨j.ctx.stopToken, a.generation, sub⟩
        cancelledGeneration := cancelled } pc') →
      HandInv s' (recordArming s (.join c o) armedBy) := by
    intro pc' hpc' harms' hphase
    exact h.arm hpc hpc' rfl (.inr rfl) harms'
      (armReturns_eq_none (.inr ⟨i, by rw [hpc]; rfl⟩)) ha harm (exists_append_of_eq htasks)
      (fun _ hless => hphase (hless rfl))
  rcases hpc' with ⟨rfl, rfl, hpc'⟩ | ⟨rfl, rfl, hpc'⟩
  · exact hgo hpc' rfl (fun hless => ⟨hless, _, rfl, rfl, rfl, fun hne => absurd rfl hne⟩)
  · split at hpc'
    next hle => exact hgo hpc' rfl (fun hless => absurd hle (Nat.not_le_of_lt hless))
    next => exact hgo hpc' rfl (fun hless => ⟨hless, _, rfl, rfl, rfl, fun _ => le_max_right _ _⟩)

/-- While the storage is running, what a renewal needs can be had. -/
theorem fail (hok : renewalsArm s (.join c o))
    (hpc : (j.pc = .subscribing i (.renewal saved) ∧ o.fails) ∨
      (j.pc = .spawning i (.renewal saved) ∧
        (o.fails ∨ (s.lifeState ≠ .running ∧ s.lifeState ≠ .stopping))))
    (hpc' : j'.pc = .restoring i saved e) (harm : s'.armings = s.armings)
    (htasks : s'.expiryTasks = s.expiryTasks) :
    HandInv s' (recordArming s (.join c o) armedBy) := by
  have harms : j.pc.unspawned = some i := by
    rcases hpc with ⟨hpc, -⟩ | ⟨hpc, -⟩ <;> rw [hpc] <;> rfl
  obtain ⟨it, hit, -⟩ := h.inv.threads.holds h.call (inside_of_unspawned harms)
  have ha := armings_of_item hit
  refine h.arm rfl hpc' (inside_of_unspawned harms) (.inr (arms_of_unspawned harms)) rfl
    (armReturns_eq_none (.inr ⟨i, harms⟩)) ha (harm.trans (set_eq_self ha).symm)
    (exists_append_of_eq htasks) (fun hrun _ => ?_)
  rcases hpc with ⟨hpc, hfail⟩ | ⟨hpc, hfail | hlife⟩
  · simp [not_resubscriptionFails hok h.call hpc] at hfail
  · simp [not_spawnFails hok h.call (.inl ⟨i, _, hpc⟩)] at hfail
  · exact absurd hrun hlife.1

/-- The call loads `cancelledGeneration`: if it is not the armed one, the callback has not run. -/
theorem recheck (ha : s.armings[i]? = some a) (hpc : j.pc = .rechecking i p)
    (hpc' : j'.pc = if a.generation ≤ a.cancelledGeneration then .scheduling i p
      else State.armed i p) (harm : s'.armings = s.armings)
    (htasks : s'.expiryTasks = s.expiryTasks) :
    HandInv s' (recordArming s (.join c o) armedBy) := by
  by_cases hcancelled : a.generation ≤ a.cancelledGeneration
  · rw [if_pos hcancelled] at hpc'
    have hnone : s.armReturns j = none := by
      unfold armReturns
      rw [hpc]
      simp [ha, hcancelled]
    exact h.arm hpc hpc' rfl (.inr rfl) rfl hnone ha (harm.trans (set_eq_self ha).symm)
      (exists_append_of_eq htasks) (fun _ hphase => hphase rfl)
  · rw [if_neg hcancelled] at hpc'
    have hsome : s.armReturns j = some i := by
      unfold armReturns
      rw [hpc]
      simp [ha, Nat.lt_of_not_le hcancelled]
    refine h.armed hpc' (by rw [hpc]; rfl) hsome ha harm (exists_append_of_eq htasks)
      (fun _ hphase => ?_)
    rw [hpc] at hphase
    obtain ⟨heq, b, hb, hgen, htoken, hpublished⟩ := hphase
    refine ⟨heq, b, hb, hgen, htoken, fun hfin => absurd (hpublished ?_) hcancelled⟩
    rw [hfin]
    exact nofun

/-- The call starts the coroutine itself. -/
theorem schedule (hok : renewalsArm s (.join c o)) (ha : s.armings[i]? = some a)
    (hpc : j.pc = .scheduling i p) (hpc' : j'.pc = State.armed i p)
    (harm : s'.armings = s.armings)
    (htasks : s'.expiryTasks = if s.lifeState = .running ∧ o.fails = false then
      s.expiryTasks ++ [⟨i, a.generation, .woken⟩] else s.expiryTasks) :
    HandInv s' (recordArming s (.join c o) armedBy) := by
  have hsome : s.armReturns j = some i := by
    unfold armReturns
    rw [hpc]
  have hgo := not_spawnFails hok h.call (.inr ⟨i, p, hpc⟩)
  have hnew : ∃ new, s'.expiryTasks = s.expiryTasks ++ new := by
    rw [htasks]
    split
    · exact ⟨_, rfl⟩
    · exact exists_append_of_eq rfl
  refine h.armed hpc' (by rw [hpc]; rfl) hsome ha harm hnew (fun hrun hphase => ?_)
  rw [hpc] at hphase
  obtain ⟨heq, b, hb, hgen, htoken, -⟩ := hphase
  refine ⟨heq, b, hb, hgen, htoken, fun _ => ?_⟩
  rw [htasks, if_pos ⟨hrun, hgo⟩]
  exact ⟨_, mem_append_right _ (mem_singleton_self _), rfl, rfl, rfl⟩

/-- A renewal does not fail while the storage is running. -/
theorem restore (ha : s.armings[i]? = some a) (hpc : j.pc = .restoring i saved e)
    (hpc' : j'.pc = .leaving (some e)) (harm : s'.armings = s.armings.set i a₁)
    (htasks : s'.expiryTasks = s.expiryTasks) : HandInv s' armedBy := by
  have harms : j.pc.arms = some i := by
    rw [hpc]
    rfl
  refine h.hand.of_set h.call h.calls h.life ha harm (exists_append_of_eq htasks) (fun _ _ => rfl)
    (not_arms_of_inside h.inv h.call (inside_of_arms harms)) (.inr harms)
    (.inl (by rw [hpc']; rfl)) (by rw [hpc']; rintro _ ⟨⟩) (fun hrun _ _ => ?_)
  have hnot := h.hand.phases hrun c j i a h.call harms ha
  rw [hpc] at hnot
  exact hnot.elim

end HandStep

/-- `joinValue` keeps the handshake. -/
theorem HandInv.join (hi : Inv s) (hi' : Inv s') (h : HandInv s armedBy)
    (hj : s.calls[c]? = some j) (hm : CallMoved s c j o s') (hlife : s'.lifeState = s.lifeState)
    (hok : renewalsArm s (.join c o)) : HandInv s' (recordArming s (.join c o) armedBy) := by
  obtain ⟨j', hcalls, hctx, -, hmove⟩ := hm
  have hstep : HandStep s s' armedBy c j j' := ⟨hi, h, hj, hcalls, hctx, hlife⟩
  -- `armExpiryLocked` returns from `rechecking` and `scheduling` only.
  have hnever : ∀ {pc : JoinPc}, j.pc = pc → (∀ i p, pc ≠ .rechecking i p ∧ pc ≠ .scheduling i p) →
      s.armReturns j = none := by
    rintro pc rfl hne
    unfold armReturns
    split
    next hpc => exact absurd hpc (hne _ _).1
    next hpc => exact absurd hpc (hne _ _).2
    next => rfl
  cases hmove with
  | idle hpc hpc' _ harm htasks =>
    rw [recordArming_none hj (armReturns_eq_none (.inl hpc))]
    exact h.idle hj hcalls hlife harm htasks hpc hpc'
  | create deadline hpc hnone hgo hpc' harm htasks =>
    rw [recordArming_none hj (hnever hpc (by simp))]
    exact hstep.create hpc hpc' harm htasks
  | mark i a a₁ ha harm hpc hpc' _ hmarked _ _ htasks =>
    rw [recordArming_none hj (armReturns_eq_none (hpc.imp_right (fun h => ⟨i, h⟩)))]
    exact hstep.mark hi' ha harm hpc hpc' hmarked htasks
  | renew i a deadline ha hp hpc hpc' harm htasks =>
    exact hstep.renew ha hp hpc hpc' harm rfl rfl htasks
  | reset i a saved ha hpc hpc' harm htasks =>
    exact hstep.arm hpc hpc' rfl (.inr rfl) rfl (hnever hpc (by simp)) ha harm
      (exists_append_of_eq htasks) (fun _ hphase => hphase rfl)
  | subscribe i p a pc cancelled ha hpc hpc' harm htasks =>
    exact hstep.subscribe ha hpc hpc' harm htasks
  | fail i saved e hpc hpc' harm htasks => exact hstep.fail hok hpc hpc' harm htasks
  | inline i p a ha hpc hpc' harm htasks =>
    have hnew : ∃ new, s'.expiryTasks = s.expiryTasks ++ new := by
      rcases htasks with htasks | htasks
      · exact exists_append_of_eq htasks
      · exact ⟨_, htasks⟩
    exact hstep.arm hpc hpc' rfl (.inr rfl) rfl (hnever hpc (by simp)) ha
      (harm.trans (set_eq_self ha).symm) hnew (fun _ hphase => (hphase rfl).elim)
  | spawn i p a deadline ha hpc hpc' harm htasks =>
    exact hstep.arm hpc hpc' rfl (.inr rfl) rfl (hnever hpc (by simp)) ha
      (harm.trans (set_eq_self ha).symm) ⟨_, htasks⟩ (fun _ hphase => hphase rfl)
  | arm i p a ha hpc hpc' harm htasks =>
    exact hstep.arm hpc hpc' rfl (.inr rfl) rfl (hnever hpc (by simp)) ha harm
      (exists_append_of_eq htasks) (fun _ hphase => ⟨rfl, (hphase rfl).2⟩)
  | recheck i p a ha hpc hpc' harm htasks => exact hstep.recheck ha hpc hpc' harm htasks
  | schedule i p a ha hpc hpc' harm htasks => exact hstep.schedule hok ha hpc hpc' harm htasks
  | restore i saved e a ha hpc hpc' harm htasks =>
    rw [recordArming_none hj (hnever hpc (by simp))]
    exact hstep.restore ha hpc hpc' harm htasks

end

end ServiceLib.Join
