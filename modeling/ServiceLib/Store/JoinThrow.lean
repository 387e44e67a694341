import ServiceLib.Store.JoinRollback

namespace ServiceLib.Join

/-!
# Join storage — the strong exception guarantee

What a call that throws takes back of what it did to its item.
-/

open Option State

variable {K V : Type} [DecidableEq K] {s s' s₀ s₁ : State K V} {c : CallId} {i : ItemId}
  {j j' : JoinCall K V} {o : Outcome V} {renews : Prop} {it₀ it it' : Item K V} {saved : Saved}

/-! ### Steps of the call -/

/-- State `s₁` is where a call starts to work on item `i`: it found the item as it is in `s₀`, or
    it has just made it. -/
inductive Begun (s₀ s₁ : State K V) (i : ItemId) : Prop
  | found (it₀ : Item K V) : s₁ = s₀ → s₀.items[i]? = some it₀ → Begun s₀ s₁ i
  | made (key : K) : s₀.items[i]? = none → (∀ g, ¬ Covered s₀.expiryTasks i g) →
      (∀ key, ¬ s₀.joins key i) → s₁.findItemLocked key = some i → Begun s₀ s₁ i

/-- When a call that throws takes back what it did.  A renewal that could not be armed does not
    bring the stop callback back; a callback that throws, or a value that cannot be appended,
    leaves a renewal and a new item in place. -/
def Undoes (renews : Prop) (orig : Option (Item K V)) (j : JoinCall K V) (o : Outcome V) : Prop :=
  match orig, j.pc with
  | some it, .restoring .. => it.listens = false
  | some it, .calling _ => ¬ renews ∧ o.values = some it.values
  | some it, .appending _ =>
    ¬ renews ∧ (o = .failLate → resizeValues it.values j.index = it.values)
  | none, .removing .. => True
  | none, .counting .. => True
  | _, _ => False

/-- What a step of the call leads to. -/
inductive Onward (renews : Prop) (s₀ s₁ : State K V) (i : ItemId) (j : JoinCall K V)
    (o : Outcome V) (s' : State K V) (j' : JoinCall K V) : Prop
  | stays : Stage renews s₁ i s₀.items[i]? s' j' → Onward renews s₀ s₁ i j o s' j'
  | leaves : j'.pc.item = none → (∀ e, j'.pc ≠ .leaving (some e)) →
      Onward renews s₀ s₁ i j o s' j'
  | throws (e : JoinError) : j'.pc = .leaving (some e) →
      (Unchanged s₀ s' i ↔ Undoes renews s₀.items[i]? j o) → Onward renews s₀ s₁ i j o s' j'

/-- The call itself leaves registration and coroutines alone, unless its move to the current
    generation of the map fails. -/
theorem same_of_own (hi : Inv s) (hg : Agree s) (hd : DrainInv s) (hj : s.calls[c]? = some j)
    (hin : j.pc.inside = some i) (hit : s.items[i]? = some it)
    (hlose : j.pc ≠ .relocating i ∨ s'.findItemLocked j.key = some i)
    (hs : s.joinStep c o = some s') : Same s s' i := by
  refine ⟨fun key => ?_, fun g => step_covered (a := .join c o) hi hd hj hin hs⟩
  obtain ⟨j₁, hj₁, he⟩ := hi.joinEffect hs
  cases hj₁.symm.trans hj
  refine he.maps.registered hg (lt_of_getElem? hit) ?_ hlose
  intro eviction r hpc
  rw [hpc] at hin
  cases hin

/-- An item that was found: what is unchanged is a matter of its contents. -/
theorem unchanged_found (hit₀ : s₀.items[i]? = some it₀) (hp₀ : it₀.processed = false)
    (hit' : s'.items[i]? = some it') (hp' : it'.processed = false) (hsame : Same s₀ s' i) :
    Unchanged s₀ s' i ↔ it'.values = it₀.values ∧ it'.deadline = it₀.deadline ∧
      it'.generation = it₀.generation ∧ it'.armedGeneration = it₀.armedGeneration ∧
      (it₀.listens → it'.subscribedTo = it₀.subscribedTo) := by
  constructor
  · intro h
    obtain ⟨it₁, hit₁, hrest⟩ := h.item it₀ hit₀
    cases hit₁.symm.trans hit'
    exact hrest
  · intro h
    refine ⟨fun it₁ hit₁ => ?_, fun key => ?_, hsame.expiry⟩
    · cases hit₁.symm.trans hit₀
      exact ⟨it', hit', h⟩
    · rw [joins, joins, isProcessed_of_item hit', isProcessed_of_item hit₀, hp', hp₀,
        hsame.registered key]

omit [DecidableEq K] in
theorem Item.subscribedTo_of_listens (h : it.listens) : it.subscribedTo ≠ none := by
  intro hnone
  unfold Item.listens at h
  cases hb : it.cancelCallback with
  | none => simp [hb] at h
  | some b => simp [Item.subscribedTo, hb] at hnone

section

variable (hit₀ : s₀.items[i]? = some it₀) (hp₀ : it₀.processed = false)
  (hit' : s'.items[i]? = some it') (hp' : it'.processed = false) (hsame : Same s₀ s' i)
include hit₀ hp₀ hit' hp' hsame

/-- The same for what a renewal restores, which has no stop callback. -/
theorem unchanged_restored (hm : saved.Matches it₀) (hv : it'.values = it₀.values)
    (hdeadline : it'.deadline = saved.deadline) (hgen : it'.generation = saved.generation)
    (harmed : it'.armedGeneration = saved.armedGeneration) (hsub : it'.subscribedTo = none) :
    Unchanged s₀ s' i ↔ it₀.listens = false := by
  rw [unchanged_found hit₀ hp₀ hit' hp' hsame]
  constructor
  · intro h
    by_contra hlistens
    have hlistens : it₀.listens := by simpa using hlistens
    exact Item.subscribedTo_of_listens hlistens ((h.2.2.2.2 hlistens).symm.trans hsub)
  · intro hnot
    refine ⟨hv, hdeadline.trans hm.deadline, hgen.trans hm.generation,
      harmed.trans hm.armedGeneration, fun h => ?_⟩
    simp [hnot] at h

/-- The same once the call has appended, or tried to. -/
theorem unchanged_appended (hr : Renewed renews it₀ it') :
    Unchanged s₀ s' i ↔ ¬ renews ∧ it'.values = it₀.values := by
  rw [unchanged_found hit₀ hp₀ hit' hp' hsame]
  rcases hr with ⟨hr, hgen⟩ | ⟨hr, hkept⟩
  · refine ⟨fun h => ?_, fun h => absurd hr h.1⟩
    have hsame := h.2.2.1
    omega
  · exact ⟨fun h => ⟨hr, h.1⟩, fun h => ⟨h.2, hkept.deadline, hkept.generation,
      hkept.armedGeneration, fun _ => hkept.subscribedTo⟩⟩

end

/-- A renewal that stays is a change. -/
theorem not_unchanged_renewed (hit₀ : s₀.items[i]? = some it₀) (hit' : s'.items[i]? = some it')
    (hgen : it'.generation = it₀.generation + 1) : ¬ Unchanged s₀ s' i := by
  intro h
  obtain ⟨it₁, hit₁, -, -, hgen₁, -⟩ := h.item it₀ hit₀
  cases hit₁.symm.trans hit'
  omega

/-- A new item that stays registered is a change. -/
theorem not_unchanged_made {key : K} (hnone : ∀ key, ¬ s₀.joins key i)
    (hit' : s'.items[i]? = some it') (hp' : it'.processed = false)
    (hfind : s₁.findItemLocked key = some i) (hsame : Same s₁ s' i) : ¬ Unchanged s₀ s' i := by
  intro h
  have hjoins : s'.joins key i :=
    ⟨(hsame.registered key).mpr hfind, (isProcessed_of_item hit').trans hp'⟩
  exact hnone key ((h.joins key).mp hjoins)

/-- A new item that is processed joins nothing. -/
theorem unchanged_discarded (hit₀ : s₀.items[i]? = none)
    (hcov : ∀ g, ¬ Covered s₀.expiryTasks i g) (hnone : ∀ key, ¬ s₀.joins key i)
    (hp' : s'.isProcessed i) : Unchanged s₀ s' i := by
  refine ⟨fun it hit => ?_, fun key => ⟨fun h => ?_, fun h => absurd h (hnone key)⟩,
    fun g h => absurd h (hcov g)⟩
  · simp [hit₀] at hit
  · rw [joins, hp'] at h
    cases h.2

/-- What a step of `armExpiryLocked` leads to. -/
inductive ArmStep (i : ItemId) (p : ArmFor) (it : Item K V) (s' : State K V) (pc : JoinPc) : Prop
  | on (it' : Item K V) : s'.items[i]? = some it' → it'.processed = it.processed →
      it'.values = it.values → it'.generation = it.generation →
      pc.armingOf = some (i, p) ∨ pc = armed i p → ArmStep i p it s' pc
  | undo (saved : Saved) (e : JoinError) : p = .renewal saved → pc = .restoring i saved e →
      s'.items[i]? = some it → ArmStep i p it s' pc
  | abort (e : JoinError) : p = .creation → pc = .releasing i (.aborted e) →
      s'.isProcessed i → ArmStep i p it s' pc

theorem isProcessed_of_set {new : Item K V} (hit : s.items[i]? = some it)
    (hitems : s'.items = s.items.set i new) (hp : new.processed) : s'.isProcessed i := by
  rw [isProcessed, hitems, getElem?_set_some hit new]
  exact hp

variable {p : ArmFor} {k : AfterRemoval} {pc : JoinPc}

theorem armFailed_armStep (hit : s.items[i]? = some it) (e : JoinError) :
    ∃ pc, (s.armFailed c j i it e p).calls = s.calls.set c { j with pc := pc } ∧
      ArmStep i p it (s.armFailed c j i it e p) pc := by
  cases p with
  | creation =>
    refine ⟨_, rfl, .abort e rfl rfl ?_⟩
    exact isProcessed_of_set hit rfl rfl
  | renewal saved => exact ⟨_, rfl, .undo saved e rfl rfl hit⟩

theorem armStep_onward (hit : s.items[i]? = some it) (hpc : j.pc.armingOf = some (i, p))
    (hs : s.armStep c j i it o = some s') :
    ∃ pc, s'.calls = s.calls.set c { j with pc := pc } ∧ ArmStep i p it s' pc := by
  obtain ⟨ctx, key, index, value, ttl, pc⟩ := j
  simp only [armStep] at hs
  split at hs
  case h_1 =>
    cases hpc
    split at hs
    · cases hs
      exact armFailed_armStep hit _
    · split at hs <;> cases hs
      · refine ⟨_, rfl, .on _ (getElem?_set_some hit _) rfl rfl rfl (.inl ?_)⟩
        split <;> rfl
      · exact ⟨_, rfl, .on _ (getElem?_set_some hit _) rfl rfl rfl (.inl rfl)⟩
  case h_2 =>
    cases hpc
    rw [scheduleExpiryNow_eq] at hs
    cases hs
    exact ⟨_, rfl, .on it hit rfl rfl rfl (.inl rfl)⟩
  case h_3 =>
    cases hpc
    split at hs
    · cases hs
      exact armFailed_armStep hit _
    · split at hs <;> cases hs
      · exact armFailed_armStep hit _
      · exact ⟨_, rfl, .on it hit rfl rfl rfl (.inl rfl)⟩
  case h_4 =>
    cases hpc
    cases hs
    exact ⟨_, rfl, .on _ (getElem?_set_some hit _) rfl rfl rfl (.inl rfl)⟩
  case h_5 =>
    cases hpc
    cases hs
    refine ⟨_, rfl, .on it hit rfl rfl rfl ?_⟩
    split
    · exact .inl rfl
    · exact .inr rfl
  case h_6 =>
    cases hpc
    rw [scheduleExpiryNow_eq] at hs
    cases hs
    exact ⟨_, rfl, .on it hit rfl rfl rfl (.inr rfl)⟩
  case h_7 => cases hs

theorem joinStep_arm (hj : s.calls[c]? = some j) (hit : s.items[i]? = some it)
    (hpc : j.pc.armingOf = some (i, p)) : s.joinStep c o = s.armStep c j i it o := by
  simp only [joinStep, hj, (JoinPc.arms_of_armingOf hpc).item, hit, bind_eq_bind, bind_some]
  split
  case h_7 hne =>
    cases hp : j.pc <;> rw [hp] at hpc <;> cases hpc <;> simp_all
  all_goals rfl

theorem joinStep_item (hj : s.calls[c]? = some j) (hit : s.items[i]? = some it)
    (hitem : j.pc.item = some i) (hpc : j.pc.armingOf = none) :
    s.joinStep c o = s.itemStep c j i it o := by
  simp only [joinStep, hj, hitem, hit, bind_eq_bind, bind_some]
  split
  case h_7 => rfl
  all_goals
    rename_i hp
    rw [hp] at hpc
    cases hpc

/-- A step of the call leads on. -/
def Leads (renews : Prop) (s₀ s₁ : State K V) (i : ItemId) (c : CallId) (j : JoinCall K V)
    (o : Outcome V) (s s' : State K V) : Prop :=
  ∃ pc, s'.calls = s.calls.set c { j with pc := pc } ∧
    Onward renews s₀ s₁ i j o s' { j with pc := pc }

/-- A call that holds an item which is not processed, and whose surroundings are as they were. -/
structure Working (s₁ s : State K V) (c : CallId) (j : JoinCall K V) (i : ItemId)
    (it : Item K V) : Prop where
  inv : Inv s
  agree : Agree s
  drain : DrainInv s
  call : s.calls[c]? = some j
  inside : j.pc.inside = some i
  item : s.items[i]? = some it
  live : it.processed = false
  same : Same s₁ s i

/-- What is known about the item as it was holds of the one item there was. -/
theorem forall_item {Q : Item K V → Prop} (hit₀ : s₀.items[i]? = some it₀) (h : Q it₀) :
    ∀ it₁, s₀.items[i]? = some it₁ → Q it₁ := by
  intro it₁ hit₁
  cases hit₁.symm.trans hit₀
  exact h

/-- The call found an item that is processed. -/
theorem discarding_onward (hj : s.calls[c]? = some j) (hpc : j.pc = .inspecting i false)
    (hit : s.items[i]? = some it) (hp : it.processed) (hs : s.joinStep c o = some s') :
    Leads renews s₀ s₁ i c j o s s' := by
  rw [joinStep_item hj hit (by rw [hpc]; rfl) (by rw [hpc]; rfl)] at hs
  simp only [itemStep, hpc] at hs
  rw [if_pos hp] at hs
  cases hs
  refine ⟨_, rfl, .stays (.winding .retry rfl rfl ?_ (by rintro e ⟨⟩))⟩
  exact isProcessed_of_set hit rfl hp

/-- What follows once the item is out of the map. -/
theorem next_onward (hb : Begun s₀ s₁ i)
    (hraise : ∀ e, k = .raise e → s₀.items[i]? = none) (hp : s'.isProcessed i)
    (hundoes : Undoes renews none j o) : Onward renews s₀ s₁ i j o s' { j with pc := k.next } := by
  cases k with
  | retry | ret => exact .leaves rfl (by rintro e ⟨⟩)
  | raise e =>
    have hnone := hraise e rfl
    cases hb with
    | found it₀ _ hit₀ =>
      simp [hit₀] at hnone
    | made key _ hcov hjoins _ =>
      refine .throws e rfl (iff_of_true (unchanged_discarded hnone hcov hjoins hp) ?_)
      rw [hnone]
      exact hundoes

/-- The call is done with the item. -/
theorem winding_onward (hb : Begun s₀ s₁ i) (hj : s.calls[c]? = some j)
    (hitem : j.pc.item = some i) (hk : j.pc.winding = some k) (hit : s.items[i]? = some it)
    (hp : it.processed) (hraise : ∀ e, k = .raise e → s₀.items[i]? = none)
    (hs : s.joinStep c o = some s') : Leads renews s₀ s₁ i c j o s s' := by
  have harming : j.pc.armingOf = none := by
    cases hpc : j.pc <;> rw [hpc] at hk <;> first | rfl | cases hk
  have hgone : s.isProcessed i := (isProcessed_of_item hit).trans hp
  rw [joinStep_item hj hit hitem harming] at hs
  obtain ⟨ctx, key, index, value, ttl, pc⟩ := j
  cases pc with
  | releasing k' m =>
    cases hitem
    simp only [itemStep] at hs
    split at hs
    · cases hs
    · cases hs
      refine ⟨_, rfl, .stays (.winding k ?_ ?_ (isProcessed_of_set hit rfl hp) hraise)⟩
      · cases m <;> rfl
      · cases m <;> exact hk
  | expiring k' =>
    cases hitem
    cases hk
    simp only [itemStep] at hs
    split at hs
    · cases hs
    · cases hs
      exact ⟨_, rfl, .stays (.winding .retry rfl rfl (isProcessed_of_set hit rfl hp)
        (by rintro e ⟨⟩))⟩
  | removing k' eviction k'' =>
    cases hitem
    cases hk
    simp only [itemStep] at hs
    obtain ⟨_, _, _, hremove⟩ := removeIfSame_frame s key i
    rw [hremove] at hs
    cases hs
    split
    · exact ⟨_, rfl, .stays (.winding k rfl rfl hgone hraise)⟩
    · exact ⟨_, rfl, next_onward hb hraise hgone trivial⟩
  | counting k' k'' =>
    cases hitem
    cases hk
    simp only [itemStep] at hs
    cases hs
    exact ⟨_, rfl, next_onward hb hraise hgone trivial⟩
  | _ => cases hk

section

variable (hw : Working s₁ s c j i it)
include hw

/-- A call that throws where it appends, or after. -/
theorem unchanged_thrown (hb : Begun s₀ s₁ i)
    (hfresh : ∀ it₀, s₀.items[i]? = some it₀ → it₀.processed = false) {values : JoinValues V}
    {mu : Option Holder}
    (hitems : s'.items = s.items.set i { it with values := values, mu := mu })
    (hsame : Same s₁ s' i) (hr : ∀ it₀, s₀.items[i]? = some it₀ → Renewed renews it₀ it)
    (hundoes : ∀ it₀, s₀.items[i]? = some it₀ →
      (Undoes renews (some it₀) j o ↔ ¬ renews ∧ values = it₀.values))
    (hnone : ¬ Undoes renews none j o) :
    Unchanged s₀ s' i ↔ Undoes renews s₀.items[i]? j o := by
  have hit' := hitems ▸ getElem?_set_some hw.item { it with values := values, mu := mu }
  cases hb with
  | found it₀ hs₁ hit₀ =>
    subst hs₁
    rw [unchanged_appended hit₀ (hfresh it₀ hit₀) hit' hw.live hsame ((hr it₀ hit₀).write _ _),
      ← hundoes it₀ hit₀, hit₀]
  | made key hit₀ _ hjoins hfind =>
    rw [hit₀]
    exact iff_of_false (not_unchanged_made hjoins hit' hw.live hfind hsame) hnone

variable (hs : s.joinStep c o = some s')
include hs

/-- A step of the call leaves the surroundings as they are. -/
theorem Working.keeps (hlose : j.pc ≠ .relocating i ∨ s'.findItemLocked j.key = some i) :
    Same s₁ s' i :=
  hw.same.trans (same_of_own hw.inv hw.agree hw.drain hw.call hw.inside hw.item hlose hs)

theorem Working.itemStep (hpc : j.pc = pc) (harm : pc.armingOf = none) :
    s.itemStep c j i it o = some s' := by
  subst hpc
  rwa [← joinStep_item hw.call hw.item (JoinPc.item_of_inside hw.inside) harm]

/-- A step outside `armExpiryLocked` that does not move the item in the map. -/
theorem Working.opens (hpc : j.pc = pc) (harm : pc.armingOf = none)
    (hlose : pc ≠ .relocating i) : Same s₁ s' i ∧ s.itemStep c j i it o = some s' :=
  ⟨hw.keeps hs (.inl (hpc ▸ hlose)), hw.itemStep hs hpc harm⟩

/-- The call found the item, and looks at it. -/
theorem looking_onward (hrenews : renews ↔ j.ttl > 0 ∧ s.config.renewTtl)
    (hit₀ : s₀.items[i]? = some it₀) (hpc : j.pc = .inspecting i false) (hu : Untouched it₀ it) :
    Leads renews s₀ s₁ i c j o s s' := by
  obtain ⟨hsame', hs⟩ := hw.opens hs hpc rfl (by simp)
  have hfresh := forall_item (Q := (·.processed = false)) hit₀ (hu.processed.symm.trans hw.live)
  simp only [itemStep, hpc] at hs
  split at hs
  next hprocessed =>
    simp [hw.live] at hprocessed
  split at hs
  · cases hs
    refine ⟨_, rfl, .stays (.winding .retry rfl rfl ?_ (by rintro e ⟨⟩))⟩
    exact isProcessed_of_set hw.item rfl rfl
  · split at hs
    next hr =>
      cases hs
      refine ⟨_, rfl, .stays (.held _ (getElem?_set_some hw.item _) hw.live hfresh rfl ?_ hsame')⟩
      rw [hit₀]
      refine .renewal rfl ⟨hu.kept.deadline, hu.kept.generation, hu.kept.armedGeneration⟩
        (hrenews.mpr ⟨hr.1, hr.2.1⟩) hu.values ?_
      exact congrArg (· + 1) hu.kept.generation
    next hr =>
      cases hs
      refine ⟨_, rfl, .stays (.held it hw.item hw.live hfresh rfl (.appending ?_) hsame')⟩
      refine forall_item hit₀ ⟨hu.values, .inr ⟨fun h => hr ?_, hu.kept⟩⟩
      exact ⟨(hrenews.mp h).1, (hrenews.mp h).2, rfl⟩

/-- What `armExpiryLocked` leads to. -/
theorem arming_onward (hpc : j.pc.armingOf = some (i, p))
    (hfresh : ∀ it₀, s₀.items[i]? = some it₀ → it₀.processed = false)
    (hheld : ∀ it' pc, it'.values = it.values → it'.generation = it.generation →
      pc.armingOf = some (i, p) ∨ pc = armed i p ∨
        (∃ saved e, p = .renewal saved ∧ pc = .restoring i saved e) →
      Held renews it' s₀.items[i]? pc)
    (hcreation : p = .creation → s₀.items[i]? = none) : Leads renews s₀ s₁ i c j o s s' := by
  have hsame' : Same s₁ s' i := by
    refine hw.keeps hs (.inl fun hpc' => ?_)
    rw [hpc'] at hpc
    cases hpc
  rw [joinStep_arm hw.call hw.item hpc] at hs
  obtain ⟨pc, hcalls, hstep⟩ := armStep_onward hw.item hpc hs
  refine ⟨pc, hcalls, .stays ?_⟩
  cases hstep with
  | on it' hit' hp' hv hgen hpc' =>
    refine .held it' hit' (hp'.trans hw.live) hfresh ?_ (hheld it' pc hv hgen (by tauto)) hsame'
    rcases hpc' with hpc' | rfl
    · exact (JoinPc.arms_of_armingOf hpc').inside
    · cases p <;> rfl
  | undo saved e hp' hpc' hit' =>
    subst hpc'
    exact .held it hit' hw.live hfresh rfl
      (hheld it _ rfl rfl (.inr (.inr ⟨saved, e, hp', rfl⟩))) hsame'
  | abort e hp' hpc' hprocessed =>
    subst hpc'
    exact .winding (.raise e) rfl rfl hprocessed (fun _ _ => hcreation hp')

/-- A renewal resets the old stop callback, and undoes what it did when it cannot be armed. -/
theorem renewal_onward (hit₀ : s₀.items[i]? = some it₀)
    (hp₀ : it₀.processed = false) (hpc : j.pc.renewal = some saved) (hm : saved.Matches it₀)
    (hr : renews) (hv : it.values = it₀.values) (hgen : it.generation = it₀.generation + 1)
    (hs₁ : s₁ = s₀) : Leads renews s₀ s₁ i c j o s s' := by
  have hfresh := forall_item (Q := (·.processed = false)) hit₀ hp₀
  have hin := hw.inside
  -- All points of `armExpiryLocked` at once.
  have harming : j.pc.armingOf = some (i, .renewal saved) → Leads renews s₀ s₁ i c j o s s' := by
    intro harm
    refine arming_onward hw hs harm hfresh ?_ (by simp)
    intro it' pc hv' hgen' hpc'
    rw [hit₀]
    rcases hpc' with hpc' | rfl | ⟨saved', e, hsaved, rfl⟩
    · refine .renewal ?_ hm hr (hv'.trans hv) (hgen'.trans hgen)
      cases pc <;> cases hpc' <;> rfl
    · exact .relocating hr (hv'.trans hv) (hgen'.trans hgen)
    · cases hsaved
      exact .renewal rfl hm hr (hv'.trans hv) (hgen'.trans hgen)
  obtain ⟨ctx, key, index, value, ttl, pc⟩ := j
  cases pc with
  | renewing k saved' =>
    cases hin
    cases hpc
    obtain ⟨hsame', hs⟩ := hw.opens hs rfl rfl (by simp)
    simp only [itemStep] at hs
    split at hs
    · cases hs
    · cases hs
      refine ⟨_, rfl, .stays (.held _ (getElem?_set_some hw.item _) hw.live hfresh rfl ?_ hsame')⟩
      rw [hit₀]
      exact .renewal rfl hm hr hv hgen
  | restoring k saved' e =>
    cases hin
    cases hpc
    obtain ⟨hsame', hs⟩ := hw.opens hs rfl rfl (by simp)
    simp only [itemStep] at hs
    split at hs
    · cases hs
    · cases hs
      refine ⟨_, rfl, .throws e rfl ?_⟩
      subst hs₁
      rw [hit₀]
      exact unchanged_restored hit₀ hp₀ (getElem?_set_some hw.item _) (by exact hw.live) hsame' hm
        (by exact hv) rfl rfl rfl rfl
  | subscribing k p | inlineScheduling k p | spawning k p | arming k p | rechecking k p
  | scheduling k p =>
    cases hin
    refine harming ?_
    cases p <;> cases hpc
    rfl
  | _ => cases hpc

/-- A renewal moves the item to the current generation of the map. -/
theorem relocating_onward (hit₀ : s₀.items[i]? = some it₀) (hp₀ : it₀.processed = false)
    (hpc : j.pc = .relocating i) (hr : renews) (hv : it.values = it₀.values)
    (hgen : it.generation = it₀.generation + 1) : Leads renews s₀ s₁ i c j o s s' := by
  have hfresh := forall_item (Q := (·.processed = false)) hit₀ hp₀
  have hsame' : s'.findItemLocked j.key = some i → Same s₁ s' i := fun hfind =>
    hw.keeps hs (.inr hfind)
  have hheld : Held renews it s₀.items[i]? (.appending i) :=
    .appending (forall_item hit₀ ⟨hv, .inl ⟨hr, hgen⟩⟩)
  replace hs := hw.itemStep hs hpc rfl
  simp only [itemStep, hpc] at hs
  split at hs
  next hprev =>
    split at hs
    · cases hs
      refine ⟨_, rfl, .throws .resource rfl ?_⟩
      rw [hit₀]
      simp only [Undoes, hpc]
      exact iff_of_false
        (not_unchanged_renewed hit₀ (getElem?_set_some hw.item _) (by exact hgen)) id
    · cases hs
      refine ⟨_, rfl, .stays (.held it hw.item hw.live hfresh rfl hheld (hsame' ?_))⟩
      show ((s.current.insert j.key i).lookup j.key).or _ = some i
      rw [AList.lookup_insert]
      rfl
  next hprev =>
    cases hs
    exact ⟨_, rfl, .stays (.held it hw.item hw.live hfresh rfl hheld
      ⟨hw.same.registered, hw.same.expiry⟩)⟩

/-- A new item needs no renewal. -/
theorem created_onward (hit₀ : s₀.items[i]? = none) (hpc : j.pc = .inspecting i true) :
    Leads renews s₀ s₁ i c j o s s' := by
  obtain ⟨hsame', hs⟩ := hw.opens hs hpc rfl (by simp)
  have hnone : ∀ it₀, s₀.items[i]? ≠ some it₀ := by
    intro it₀ h
    simp [hit₀] at h
  simp only [itemStep, hpc] at hs
  split at hs
  next hprocessed =>
    simp [hw.live] at hprocessed
  rw [if_neg (by simp), if_neg (by simp)] at hs
  cases hs
  exact ⟨_, rfl, .stays (.held it hw.item hw.live (fun it₀ h => absurd h (hnone it₀)) rfl
    (.appending (fun it₀ h => absurd h (hnone it₀))) hsame')⟩

section

variable (hb : Begun s₀ s₁ i) (hfresh : ∀ it₀, s₀.items[i]? = some it₀ → it₀.processed = false)
include hb hfresh

/-- The value is appended, to an item that was found or to a new one. -/
theorem appending_onward (hpc : j.pc = .appending i)
    (hr : ∀ it₀, s₀.items[i]? = some it₀ → it.values = it₀.values ∧ Renewed renews it₀ it) :
    Leads renews s₀ s₁ i c j o s s' := by
  obtain ⟨hsame', hs⟩ := hw.opens hs hpc rfl (by simp)
  have hnone : ¬ Undoes renews none j o := by simp only [Undoes, hpc, not_false_eq_true]
  simp only [itemStep, hpc] at hs
  have hrenewed := fun it₀ hit₀ => (hr it₀ hit₀).2
  split at hs <;> cases hs
  · refine ⟨_, rfl, .throws .resource rfl (unchanged_thrown hw hb hfresh rfl hsame' hrenewed
      (fun it₀ hit₀ => ?_) hnone)⟩
    simp only [Undoes, hpc, (hr it₀ hit₀).1]
    tauto
  · refine ⟨_, rfl, .throws .resource rfl (unchanged_thrown hw hb hfresh rfl hsame' hrenewed
      (fun it₀ hit₀ => ?_) hnone)⟩
    simp only [Undoes, hpc, (hr it₀ hit₀).1, true_implies]
  · exact ⟨_, rfl, .stays (.held _ (getElem?_set_some hw.item _) hw.live hfresh rfl
      (.calling (fun it₀ hit₀ => (hrenewed it₀ hit₀).write _ _)) hsame')⟩

/-- The callback is called. -/
theorem calling_onward (hpc : j.pc = .calling i)
    (hr : ∀ it₀, s₀.items[i]? = some it₀ → Renewed renews it₀ it) :
    Leads renews s₀ s₁ i c j o s s' := by
  obtain ⟨hsame', hs⟩ := hw.opens hs hpc rfl (by simp)
  have hnone : ¬ Undoes renews none j o := by simp only [Undoes, hpc, not_false_eq_true]
  simp only [itemStep, hpc] at hs
  split at hs <;> cases hs
  · exact ⟨_, rfl, .stays (.winding .ret rfl rfl (isProcessed_of_set hw.item rfl rfl)
      (by rintro e ⟨⟩))⟩
  · exact ⟨_, rfl, .leaves rfl (by rintro e ⟨⟩)⟩
  · refine ⟨_, rfl, .throws .callback rfl (unchanged_thrown hw hb hfresh rfl hsame' hr
      (fun it₀ hit₀ => ?_) hnone)⟩
    simp only [Undoes, hpc, Outcome.values, some.injEq]

end

end

/-- **A step of a call that works on an item.** -/
theorem stage_own (hb : Begun s₀ s₁ i) (hi : Inv s) (hg : Agree s) (hd : DrainInv s)
    (hj : s.calls[c]? = some j) (hrenews : renews ↔ j.ttl > 0 ∧ s.config.renewTtl)
    (h : Stage renews s₁ i s₀.items[i]? s j) (hs : s.joinStep c o = some s') :
    Leads renews s₀ s₁ i c j o s s' := by
  cases h with
  | looking it₀ it hit₀ hpc hit hp hu hsame =>
    have hin : j.pc.inside = some i := by rw [hpc]; rfl
    exact looking_onward ⟨hi, hg, hd, hj, hin, hit, hp, hsame⟩ hs hrenews hit₀ hpc hu
  | discarding hpc hp =>
    obtain ⟨it, hit, -⟩ := hi.threads.calls c j hj i (by rw [hpc]; rfl)
    exact discarding_onward hj hpc hit ((isProcessed_of_item hit).symm.trans hp) hs
  | winding k hitem hk hp hraise =>
    obtain ⟨it, hit, -⟩ := hi.threads.calls c j hj i hitem
    exact winding_onward hb hj hitem hk hit ((isProcessed_of_item hit).symm.trans hp) hraise hs
  | held it hit hp hfresh hin hheld hsame =>
    have hw : Working s₁ s c j i it := ⟨hi, hg, hd, hj, hin, hit, hp, hsame⟩
    generalize horig : s₀.items[i]? = orig at hheld
    generalize hpc : j.pc = pc at hheld
    cases hheld with
    | @renewal it₀ _ saved hrenewal hm hr hv hgen =>
      have hs₁ : s₁ = s₀ := by
        cases hb with
        | found _ hs₁ _ => exact hs₁
        | made _ hnone => simp [horig] at hnone
      exact renewal_onward hw hs horig (hfresh it₀ horig) (by rw [hpc]; exact hrenewal) hm hr hv
        hgen hs₁
    | @relocating it₀ k hr hv hgen =>
      rw [hpc] at hin
      cases hin
      exact relocating_onward hw hs horig (hfresh it₀ horig) hpc hr hv hgen
    | @creation k _ hcreation =>
      rw [← hpc] at hcreation
      obtain rfl : k = i := some.inj ((JoinPc.arms_of_armingOf hcreation).inside.symm.trans hin)
      refine arming_onward hw hs hcreation hfresh ?_ (fun _ => horig)
      intro it' pc' _ _ hpc'
      rw [horig]
      rcases hpc' with hpc' | rfl | ⟨_, _, hfor, -⟩
      · exact .creation hpc'
      · exact .created
      · cases hfor
    | @created k =>
      rw [hpc] at hin
      cases hin
      exact created_onward hw hs horig hpc
    | @appending _ k hr =>
      rw [hpc] at hin
      cases hin
      subst horig
      exact appending_onward hw hs hb hfresh hpc hr
    | @calling _ k hr =>
      rw [hpc] at hin
      cases hin
      subst horig
      exact calling_onward hw hs hb hfresh hpc hr

end ServiceLib.Join
