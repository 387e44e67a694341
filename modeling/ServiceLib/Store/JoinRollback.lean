import ServiceLib.Store.JoinTenure

namespace ServiceLib.Join

/-!
# Join storage — what a call that throws leaves behind

A `joinValue` call takes up an item when it has locked one that it found, or when it inserts a
new one.  From there until it lets go of the item only the call itself changes it.
-/

variable {K V : Type}

/-! ### The item -/

/-- What a renewal remembers of the item it found. -/
structure Saved.Matches (saved : Saved) (it : Item K V) : Prop where
  deadline : saved.deadline = it.deadline
  generation : saved.generation = it.generation
  armedGeneration : saved.armedGeneration = it.armedGeneration

/-- What the renewal a call is in remembers. -/
def JoinPc.renewal : JoinPc → Option Saved
  | .renewing _ saved | .subscribing _ (.renewal saved) | .inlineScheduling _ (.renewal saved)
  | .spawning _ (.renewal saved) | .arming _ (.renewal saved) | .rechecking _ (.renewal saved)
  | .scheduling _ (.renewal saved) | .restoring _ saved _ => some saved
  | _ => none

/-- How a call that is done with its item goes on. -/
def JoinPc.winding : JoinPc → Option AfterRemoval
  | .releasing _ (.aborted e) => some (.raise e)
  | .releasing _ .expired | .expiring _ => some .retry
  | .releasing _ .completed => some .ret
  | .removing _ _ k | .counting _ k => some k
  | _ => none

/-- How the arming of an item that was found as `it₀` differs once the call appends to it. -/
def Renewed (renews : Prop) (it₀ it : Item K V) : Prop :=
  (renews ∧ it.generation = it₀.generation + 1) ∨ (¬ renews ∧ Kept it₀ it)

/-- What item `it` is to a call that found it as `it₀`, or that made it (`none`). -/
inductive Held (renews : Prop) (it : Item K V) : Option (Item K V) → JoinPc → Prop
  | renewal {it₀ : Item K V} {pc : JoinPc} {saved : Saved} : pc.renewal = some saved →
      saved.Matches it₀ → renews → it.values = it₀.values →
      it.generation = it₀.generation + 1 → Held renews it (some it₀) pc
  | relocating {it₀ : Item K V} {i : ItemId} : renews → it.values = it₀.values →
      it.generation = it₀.generation + 1 → Held renews it (some it₀) (.relocating i)
  | creation {i : ItemId} {pc : JoinPc} : pc.armingOf = some (i, .creation) →
      Held renews it none pc
  | created {i : ItemId} : Held renews it none (.inspecting i true)
  | appending {orig : Option (Item K V)} {i : ItemId} :
      (∀ it₀, orig = some it₀ → it.values = it₀.values ∧ Renewed renews it₀ it) →
      Held renews it orig (.appending i)
  | calling {orig : Option (Item K V)} {i : ItemId} :
      (∀ it₀, orig = some it₀ → Renewed renews it₀ it) → Held renews it orig (.calling i)

section

variable {renews : Prop} {it₀ it it' : Item K V} {orig : Option (Item K V)} {pc : JoinPc}

theorem Renewed.untouched (h : Renewed renews it₀ it) (hu : Untouched it it') :
    Renewed renews it₀ it' := by
  rcases h with ⟨hr, hgen⟩ | ⟨hr, hkept⟩
  · exact .inl ⟨hr, hu.kept.generation.trans hgen⟩
  · exact .inr ⟨hr, hkept.trans hu.kept⟩

/-- A write to values and lock leaves the arming alone. -/
theorem Renewed.write (h : Renewed renews it₀ it) (mu : Option Holder) (values : JoinValues V) :
    Renewed renews it₀ { it with mu := mu, values := values } := by
  rcases h with ⟨hr, hgen⟩ | ⟨hr, hkept⟩
  · exact .inl ⟨hr, hgen⟩
  · exact .inr ⟨hr, hkept.deadline, hkept.generation, hkept.armedGeneration, hkept.subscribedTo⟩

/-- The other threads do not disturb a call at its item. -/
theorem Held.untouched (h : Held renews it orig pc) (hu : Untouched it it') :
    Held renews it' orig pc := by
  cases h with
  | renewal hpc hm hr hv hg =>
    exact .renewal hpc hm hr (hu.values.trans hv) (hu.kept.generation.trans hg)
  | relocating hr hv hg =>
    exact .relocating hr (hu.values.trans hv) (hu.kept.generation.trans hg)
  | creation hpc => exact .creation hpc
  | created => exact .created
  | appending h =>
    exact .appending (fun it₀ h₀ => ⟨hu.values.trans (h it₀ h₀).1, (h it₀ h₀).2.untouched hu⟩)
  | calling h => exact .calling (fun it₀ h₀ => (h it₀ h₀).untouched hu)

end

/-! ### The storage -/

variable [DecidableEq K] {s s' s₀ s₁ : State K V} {c : CallId} {i : ItemId} {j j' : JoinCall K V}
  {o : Outcome V} {renews : Prop} {it₀ it it' : Item K V}

/-- Whether call `c` works on item `i`. -/
def State.worksOn (s : State K V) (c : CallId) (i : ItemId) : Bool :=
  s.calls[c]?.any (fun j => j.pc.item = some i && j.pc ≠ .locking i)

/-- Item `i` is the one that values for the key are joined in. -/
def State.joins (s : State K V) (key : K) (i : ItemId) : Prop :=
  s.findItemLocked key = some i ∧ s.isProcessed i = false

/-- A stop request would still reach the item. -/
def Item.listens (it : Item K V) : Bool :=
  it.cancelCallback.any (fun b => b.token.isSome && b.pc = .waiting)

/-- **Item `i` is as it was** in `s`, if it was there: its values, its deadline and generation,
    the key it is registered for, and the coroutines and the stop callback that expire it. -/
structure Unchanged (s s' : State K V) (i : ItemId) : Prop where
  item : ∀ it, s.items[i]? = some it → ∃ it', s'.items[i]? = some it' ∧
    it'.values = it.values ∧ it'.deadline = it.deadline ∧ it'.generation = it.generation ∧
    it'.armedGeneration = it.armedGeneration ∧
    (it.listens → it'.subscribedTo = it.subscribedTo)
  joins : ∀ key, s'.joins key i ↔ s.joins key i
  expiry : ∀ g, Covered s.expiryTasks i g → Covered s'.expiryTasks i g

/-- What the others see of item `i` besides its contents. -/
structure Same (s s' : State K V) (i : ItemId) : Prop where
  registered : ∀ key, s'.findItemLocked key = some i ↔ s.findItemLocked key = some i
  expiry : ∀ g, Covered s.expiryTasks i g → Covered s'.expiryTasks i g

theorem Same.refl (s : State K V) (i : ItemId) : Same s s i := ⟨fun _ => Iff.rfl, fun _ => id⟩

theorem Same.trans (h : Same s₀ s i) (h' : Same s s' i) : Same s₀ s' i :=
  ⟨fun key => (h'.registered key).trans (h.registered key), fun g hg => h'.expiry g (h.expiry g hg)⟩

/-- Where a call stands that took up item `i` in state `s₁` and found it as `orig`, or made it
    (`none`). -/
inductive Stage (renews : Prop) (s₁ : State K V) (i : ItemId) (orig : Option (Item K V))
    (s : State K V) (j : JoinCall K V) : Prop
  | looking (it₀ it : Item K V) : orig = some it₀ → j.pc = .inspecting i false →
      s.items[i]? = some it → it.processed = false → Untouched it₀ it → Same s₁ s i →
      Stage renews s₁ i orig s j
  | discarding : j.pc = .inspecting i false → s.isProcessed i → Stage renews s₁ i orig s j
  | held (it : Item K V) : s.items[i]? = some it → it.processed = false →
      (∀ it₀, orig = some it₀ → it₀.processed = false) → j.pc.inside = some i →
      Held renews it orig j.pc → Same s₁ s i → Stage renews s₁ i orig s j
  | winding (k : AfterRemoval) : j.pc.item = some i → j.pc.winding = some k →
      s.isProcessed i → (∀ e, k = .raise e → orig = none) → Stage renews s₁ i orig s j

/-! ### Steps of the other threads -/

variable {a : Action K V}

/-- The other threads do not move the call. -/
theorem step_call_other (hi : Inv s) (hj : s.calls[c]? = some j) (ha : ∀ o, a ≠ .join c o)
    (hs : step s a = some s') : s'.calls[c]? = some j := by
  cases a with
  | join d o =>
    obtain ⟨_, _, jd, hcalls, -⟩ := hi.joinMoved hs
    have hne : d ≠ c := fun hd => ha o (by rw [hd])
    rw [hcalls, List.getElem?_set_ne hne]
    exact hj
  | _ => exact getElem?_grown (step_other hi hs).calls hj

theorem isProcessed_of_item (hit : s.items[i]? = some it) : s.isProcessed i = it.processed := by
  rw [State.isProcessed, hit]
  rfl

theorem step_isProcessed (hi : Inv s) (hs : step s a = some s') (h : s.isProcessed i) :
    s'.isProcessed i := by
  obtain ⟨_, hitems, -⟩ := step_items hi hs
  exact hitems.isProcessed h

theorem same_of_other (hi : Inv s) (hg : Agree s) (hd : DrainInv s) (hj : s.calls[c]? = some j)
    (hin : j.pc.inside = some i) (hit : s.items[i]? = some it) (hp : it.processed = false)
    (ha : ∀ o, a ≠ .join c o) (hs : step s a = some s') : Same s s' i :=
  ⟨fun _ => step_registered hi hg hj hin hit hp ha hs, fun _ => step_covered hi hd hj hin hs⟩

/-- The steps of the other threads do not disturb the call. -/
theorem stage_other {orig : Option (Item K V)} (hi : Inv s) (hg : Agree s) (hd : DrainInv s)
    (hj : s.calls[c]? = some j) (ha : ∀ o, a ≠ .join c o) (hs : step s a = some s')
    (h : Stage renews s₁ i orig s j) : Stage renews s₁ i orig s' j := by
  cases h with
  | looking it₀ it horig hpc hit hp hu hsame =>
    have hin : j.pc.inside = some i := by rw [hpc]; rfl
    obtain ⟨itm, hitm, hmu⟩ := hi.threads.holds hj hin
    cases hitm.symm.trans hit
    obtain ⟨it', hit', hu'⟩ := step_untouched hi hit hmu hp ha hs
    refine .looking it₀ it' horig hpc hit' (hu'.processed.trans hp) ?_
      (hsame.trans (same_of_other hi hg hd hj hin hit hp ha hs))
    exact ⟨hu'.values.trans hu.values, hu'.processed.trans hu.processed, hu.kept.trans hu'.kept⟩
  | discarding hpc hp => exact .discarding hpc (step_isProcessed hi hs hp)
  | held it hit hp hfresh hin hheld hsame =>
    obtain ⟨itm, hitm, hmu⟩ := hi.threads.holds hj hin
    cases hitm.symm.trans hit
    obtain ⟨it', hit', hu'⟩ := step_untouched hi hit hmu hp ha hs
    exact .held it' hit' (hu'.processed.trans hp) hfresh hin (hheld.untouched hu')
      (hsame.trans (same_of_other hi hg hd hj hin hit hp ha hs))
  | winding k hitem hk hp hraise => exact .winding k hitem hk (step_isProcessed hi hs hp) hraise

end ServiceLib.Join
