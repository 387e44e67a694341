import ServiceLib.Store.JoinCover

namespace ServiceLib.Join

/-!
# Join storage — expiry generations

A renewal raises the generation of its item, and only a renewal that fails lowers it again, to
where it was.  A coroutine marks an item only at its own generation, so none that was started
for an older one can mark the item once it is renewed.
-/

variable {K V : Type} [DecidableEq K] {s s' : State K V} {i : ItemId} {n : Nat} {o : Outcome V}
  {c : CallId}

/-! ### Deadlines and generations -/

/-- `P` holds of the deadline and the generation of every item, and of those that a renewal on its
    way would return to. -/
structure Terms (P : ItemId → Option Time → Nat → Prop) (s : State K V) : Prop where
  items : ∀ (i : ItemId) a, s.armings[i]? = some a → P i a.deadline a.generation
  saved : ∀ (c : CallId) j i saved, s.calls[c]? = some j → j.pc.rollsBack = some (i, saved) →
    P i saved.deadline saved.generation

theorem JoinPc.rollsBack_eq_none {pc : JoinPc} (h : pc.arms = none) : pc.rollsBack = none := by
  refine Option.eq_none_iff_forall_ne_some.mpr (fun p hback => ?_)
  exact unspawned_ne h p.1 (unspawned_of_rollsBack hback)

section

variable {P : ItemId → Option Time → Nat → Prop} (h : Terms P s)
include h

theorem Terms.of_calls {j' : JoinCall K V} (hcalls : s'.calls = s.calls.set c j')
    (hj' : ∀ i saved, j'.pc.rollsBack = some (i, saved) → P i saved.deadline saved.generation)
    (hitems : ∀ (i : ItemId) a, s'.armings[i]? = some a → P i a.deadline a.generation) :
    Terms P s' := by
  refine ⟨hitems, fun d jd i saved hd hback => ?_⟩
  rw [hcalls] at hd
  rcases getElem?_set_cases hd with ⟨-, rfl⟩ | ⟨-, hd⟩
  · exact hj' i saved hback
  · exact h.saved d jd i saved hd hback

/-- A step of `joinValue` raises a generation or keeps it, and takes no deadline away, unless a
    renewal fails. -/
theorem Terms.join {j : JoinCall K V} (hj : s.calls[c]? = some j) (hm : CallMoved s c j o s')
    (hmono : ∀ {i d d' g g'}, P i d g → g ≤ g' → (d.isSome → d'.isSome) → P i d' g')
    (hnew : ∀ deadline, j.pc = .inserting deadline → s.findItemLocked j.key = none →
      o.fails = false → P s.armings.length deadline (if deadline.isSome then 1 else 0)) :
    Terms P s' := by
  obtain ⟨j', hcalls, -, -, hmove⟩ := hm
  have hset : ∀ {k : ItemId} {a a₁ : Arming}, s.armings[k]? = some a →
      s'.armings = s.armings.set k a₁ → a.generation ≤ a₁.generation →
      (a.deadline.isSome → a₁.deadline.isSome) →
      ∀ (i : ItemId) a, s'.armings[i]? = some a → P i a.deadline a.generation := by
    intro k a a₁ ha harm hgen hdead
    rw [harm]
    exact forall_getElem?_set h.items (hmono (h.items k a ha) hgen hdead)
  have hsame : s'.armings = s.armings → ∀ (i : ItemId) a, s'.armings[i]? = some a →
      P i a.deadline a.generation := by
    intro harm
    rw [harm]
    exact h.items
  -- At most of the program points a call would put nothing back.
  have hnone : ∀ {q}, j'.pc = q → q.rollsBack = none → ∀ i saved,
      j'.pc.rollsBack = some (i, saved) → P i saved.deadline saved.generation := by
    rintro _ rfl hnot i saved hback
    simp [hnot] at hback
  have hkeep : ∀ {p q}, j.pc = p → j'.pc = q → q.rollsBack = p.rollsBack → ∀ i saved,
      j'.pc.rollsBack = some (i, saved) → P i saved.deadline saved.generation := by
    rintro _ _ rfl rfl heq i saved hback
    exact h.saved c j i saved hj (heq.symm.trans hback)
  cases hmove with
  | idle _ hpc' _ harm _ =>
    exact h.of_calls hcalls (hnone rfl (JoinPc.rollsBack_eq_none hpc')) (hsame harm)
  | create deadline hpc hfind hgo hpc' harm _ =>
    refine h.of_calls hcalls ?_ ?_
    · split at hpc' <;> exact hnone hpc' rfl
    · rw [harm]
      exact forall_getElem?_concat h.items (hnew deadline hpc hfind hgo)
  | mark k a a₁ ha harm _ hpc' _ _ hgen hdead _ =>
    exact h.of_calls hcalls (hnone rfl (JoinPc.rollsBack_eq_none hpc'))
      (hset ha harm hgen (fun hb => by rw [hdead]; exact hb))
  | renew k a deadline ha _ hpc hpc' harm _ =>
    refine h.of_calls hcalls ?_ (hset ha harm (Nat.le_succ _) (fun _ => rfl))
    rw [hpc']
    rintro i saved ⟨⟩
    exact h.items k a ha
  | reset k a saved ha hpc hpc' harm _ =>
    exact h.of_calls hcalls (hkeep hpc hpc' rfl) (hset ha harm (Nat.le_refl _) id)
  | subscribe k p a pc cancelled ha hpc hpc' harm _ =>
    refine h.of_calls hcalls ?_ (hset ha harm (Nat.le_refl _) id)
    rcases hpc' with ⟨-, -, hpc'⟩ | ⟨-, -, hpc'⟩
    · exact hkeep hpc hpc' (by cases p <;> rfl)
    · split at hpc' <;> exact hkeep hpc hpc' (by cases p <;> rfl)
  | fail k saved e hpc hpc' harm _ =>
    rcases hpc with ⟨hpc, -⟩ | ⟨hpc, -⟩ <;>
      exact h.of_calls hcalls (hkeep hpc hpc' rfl) (hsame harm)
  | inline k p a ha hpc hpc' harm _ =>
    exact h.of_calls hcalls (hkeep hpc hpc' (by cases p <;> rfl)) (hsame harm)
  | spawn k p a deadline ha hpc hpc' harm _ =>
    exact h.of_calls hcalls (hnone hpc' rfl) (hsame harm)
  | arm k p a ha hpc hpc' harm _ =>
    exact h.of_calls hcalls (hnone hpc' rfl) (hset ha harm (Nat.le_refl _) id)
  | recheck k p a ha hpc hpc' harm _ =>
    refine h.of_calls hcalls ?_ (hsame harm)
    split at hpc' <;> cases p <;> exact hnone hpc' rfl
  | schedule k p a ha hpc hpc' harm _ =>
    refine h.of_calls hcalls ?_ (hsame harm)
    cases p <;> exact hnone hpc' rfl
  | restore k saved e a ha hpc hpc' harm _ =>
    -- The item gets back what it had before the renewal.
    refine h.of_calls hcalls (hnone hpc' rfl) ?_
    rw [harm]
    exact forall_getElem?_set h.items (h.saved c j k saved hj (by rw [hpc]; rfl))

/-- The other threads change neither. -/
theorem Terms.other (hm : OtherMove s s') : Terms P s' := by
  refine ⟨fun i a' ha' => ?_, fun c j i saved hj hback => ?_⟩
  · obtain ⟨a, ha, hgen, hdead, -⟩ := hm.armings i a' ha'
    rw [← hgen, ← hdead]
    exact h.items i a ha
  · rcases getElem?_of_grown hm.calls hj with hj | hentered
    · exact h.saved c j i saved hj hback
    · rw [hentered] at hback
      cases hback

end

/-! ### Generations -/

/-- Item `i` is at generation `n` or later, and so is every generation that a renewal on its way
    would return to. -/
structure Floor (n : Nat) (i : ItemId) (s : State K V) : Prop where
  exists_item : i < s.armings.length
  terms : Terms (fun k _ generation => k = i → n ≤ generation) s

theorem CallMoved.length_le {j : JoinCall K V} (hm : CallMoved s c j o s') :
    s.armings.length ≤ s'.armings.length := by
  obtain ⟨_, -, -, -, hmove⟩ := hm
  cases hmove <;> simp_all

/-- **Every step keeps the floor.** -/
theorem step_floor {a : Action K V} (hi : Inv s) (h : Floor n i s) (hs : step s a = some s') :
    Floor n i s' := by
  cases a with
  | join c o =>
    obtain ⟨j, hj, hm⟩ := hi.joinMoved hs
    refine ⟨Nat.lt_of_lt_of_le h.exists_item hm.length_le, h.terms.join hj hm ?_ ?_⟩
    · exact fun hP hle _ hk => Nat.le_trans (hP hk) hle
    · exact fun _ _ _ _ hk => absurd hk (Nat.ne_of_gt h.exists_item)
  | _ =>
    have hm := step_other hi hs
    exact ⟨hm.length ▸ h.exists_item, h.terms.other hm⟩

/-- Hence every run keeps it. -/
theorem steps_floor {config : JoinStorageConfig} (hi : Inv s) (h : Floor n i s)
    (hs : (system K V config).Steps (fun _ _ => True) s s') : Inv s' ∧ Floor n i s' := by
  refine System.Steps.preserves (I := fun s => Inv s ∧ Floor n i s) ?_ hs ⟨hi, h⟩
  intro t a t' hinv _ hstep
  exact ⟨step_inv hinv.1 hstep, step_floor hinv.1 hinv.2 hstep⟩

/-- A coroutine of a generation below the floor does not mark the item. -/
theorem stale_expiry {t : TaskId} {x : ExpiryTask} (hi : Inv s)
    (h : Floor n x.item s) (hx : s.expiryTasks[t]? = some x) (hold : x.generation < n)
    (hs : step s (.expire t o) = some s') :
    s'.armings[x.item]?.map (·.processed) = s.armings[x.item]?.map (·.processed) := by
  obtain ⟨y, pc, hy, -, -, hm⟩ := expiryStep_moved hi.threads.tasks hs
  cases hy.symm.trans hx
  cases hm with
  | advance _ _ harm | quit _ harm | skip _ _ _ _ harm | finish _ harm => rw [harm]
  | mark a _ ha hgen harm =>
    have hn := h.terms.items x.item a ha rfl
    omega
  | release a _ ha hp harm =>
    rw [harm, getElem?_set_some ha _, ha]
    rfl

end ServiceLib.Join
