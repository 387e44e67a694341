import ServiceLib.Store.JoinEffects

namespace ServiceLib.Join

/-!
# Join storage — the effect of each step of joinValue

That `joinValue` does only what the effects allow, one case per program point.
-/

open List Option JoinPc State

variable {K V : Type} [DecidableEq K] {s s' : State K V} {i : ItemId} {it it' : Item K V}

variable {j : JoinCall K V} {c : CallId} {o : Outcome V} {p : ArmFor} {t : TaskId}

/-- Most steps only unlock the item or hand its values to someone. -/
theorem JoinMove.still {pc : JoinPc} (hit : s.items[i]? = some it)
    (hitems : s'.items = s.items.set i it' := by rfl) (hsame : it'.arming = it.arming := by rfl)
    (htasks : s'.expiryTasks = s.expiryTasks := by rfl) (harms : j.pc.arms = none := by rfl)
    (hpc : pc.arms = none := by rfl) (hins : ∀ deadline, pc ≠ .inserting deadline := by
      rintro _ ⟨⟩) : JoinMove s j o s' { j with pc := pc } :=
  .idle harms hpc (fun _ h => absurd h (hins _)) (armings_same hit hitems hsame) htasks

/-- The item is marked, or was. -/
theorem JoinMove.marked {pc : JoinPc} (hit : s.items[i]? = some it)
    (hitems : s'.items = s.items.set i it') (hgen : it.generation ≤ it'.generation)
    (hp : it'.processed := by rfl)
    (harms : j.pc.arms = none ∨ j.pc.unspawned = some i := by exact .inl rfl)
    (hdeadline : it'.deadline = it.deadline := by rfl)
    (htasks : s'.expiryTasks = s.expiryTasks := by rfl) (hpc : pc.arms = none := by rfl)
    (hins : ∀ deadline, pc ≠ .inserting deadline := by rintro _ ⟨⟩) :
    JoinMove s j o s' { j with pc := pc } :=
  .mark i it.arming it'.arming (armings_of_item hit) (armings_set hitems rfl) harms hpc hins hp hgen
    hdeadline htasks

/-- Call `c` has item `i`, which is `it`. -/
structure WithItem (s : State K V) (c : CallId) (j : JoinCall K V) (i : ItemId) (it : Item K V) :
    Prop where
  ok : CallOk s c j
  item : s.items[i]? = some it
  key : it.key = j.key
  locked : j.pc.inside = some i → it.mu = some (.call c)
  flag : ∀ b, j.pc.expects = some b → it.processed = b

theorem CallOk.withItem (hj : CallOk s c j) (hi : j.pc.item = some i)
    (hit : s.items[i]? = some it) : WithItem s c j i it := by
  obtain ⟨it₀, hit₀, hkey, hmu, hflag⟩ := hj i hi
  obtain rfl : it₀ = it := some.inj (hit₀.symm.trans hit)
  exact ⟨hj, hit, hkey, hmu, hflag⟩

namespace WithItem

/-- Where the call knows the item to be unprocessed, it may change the values. -/
theorem fixed (h : WithItem s c j i it) (he : j.pc.expects = some false) {values : JoinValues V}
    (hp : it.processed) : values = it.values :=
  absurd ((h.flag false he).symm.trans hp) Bool.false_ne_true

variable (h : WithItem s c j i it) (hs : s.itemStep c j i it o = some s')
include h hs

theorem locking (hpc : j.pc = .locking i) : JoinEffect s c j o s' := by
  obtain ⟨ctx, key, index, value, ttl, _⟩ := j
  cases hpc
  simp only [itemStep] at hs
  split at hs
  · cases hs
  next hfree =>
    cases hs
    exact .write h.item (.acquire _ (not_not.mp hfree)) h.key (.still h.item) (by rintro b ⟨⟩)
      (.inr rfl)

theorem inspecting {newlyInserted : Bool} (hpc : j.pc = .inspecting i newlyInserted) :
    JoinEffect s c j o s' := by
  obtain ⟨ctx, key, index, value, ttl, _⟩ := j
  cases hpc
  have hit := h.item
  have hmu := h.locked rfl
  simp only [itemStep] at hs
  split at hs
  next hp =>
    cases hs
    exact .write hit (.inside hmu) h.key (.still hit) (by rintro b ⟨⟩; exact hp)
  next hp =>
    have hp : it.processed = false := by simpa using hp
    split at hs
    · -- The deadline has passed: the call marks the item and owes the callback.
      cases hs
      refine ⟨⟨_, rfl, rfl, .of_set hit ?_, .mark hit hp (getElem?_set_some hit _) rfl rfl rfl,
          .inl ⟨rfl, .inr rfl⟩, .same⟩, .of_set hit rfl (.inside hmu (fun _ => rfl)), .of_eq, rfl,
        .same rfl rfl rfl, rfl, .of_pc rfl (.marked hit rfl (Nat.le_succ _))⟩
      rintro k ⟨⟩
      exact ⟨rfl, h.key, fun _ => hmu, by rintro b ⟨⟩; rfl⟩
    · split at hs
      next hrenew =>
        cases hs
        obtain rfl : newlyInserted = false := by simpa using hrenew.2.2
        exact .write hit (.inside hmu) h.key
          (.renew i it.arming _ (armings_of_item hit) hp rfl rfl armings_set rfl)
          (by rintro b ⟨⟩; exact hp) (.inr hmu)
      · cases hs
        refine .walk ?_
        rintro k ⟨⟩
        exact ⟨it, hit, h.key, fun _ => hmu, by rintro b ⟨⟩; exact hp⟩

theorem renewing {saved : Saved} (hpc : j.pc = .renewing i saved) : JoinEffect s c j o s' := by
  obtain ⟨ctx, key, index, value, ttl, _⟩ := j
  cases hpc
  simp only [itemStep] at hs
  split at hs
  · cases hs
  · cases hs
    exact .write h.item (.inside (h.locked rfl)) h.key
      (.reset i it.arming saved (armings_of_item h.item) rfl rfl armings_set rfl) h.flag
      (.inr (h.locked rfl))

end WithItem

/-! ### Removing the item -/

/-- Where a call goes from `removeIfSame`: without its item, or on to count it. -/
structure AfterRemoval.Onward (k : AfterRemoval) (i : ItemId) (eviction : Bool) : Prop where
  item : k.next.item = none
  arms : k.next.arms = none
  insert : ∀ deadline, k.next ≠ .inserting deadline
  removed : (removing i eviction k).Passes k.next
  counted : (counting i k).Passes k.next
  counts : (removing i eviction k).Passes (.counting i k)

theorem AfterRemoval.onward (k : AfterRemoval) (i : ItemId) (eviction : Bool) :
    k.Onward i eviction := by
  cases k with
  | retry | ret =>
    exact ⟨rfl, rfl, nofun, ⟨rfl, .inr rfl, rfl⟩, ⟨rfl, .inr rfl, rfl⟩, ⟨rfl, .inr rfl, rfl⟩⟩
  | raise e =>
    exact ⟨rfl, rfl, nofun, ⟨rfl, .inl rfl, rfl⟩, ⟨rfl, .inl rfl, rfl⟩, ⟨rfl, .inr rfl, rfl⟩⟩

namespace WithItem

variable (h : WithItem s c j i it) (hs : s.itemStep c j i it o = some s')
include h hs

theorem releasing {m : Marked} (hpc : j.pc = .releasing i m) : JoinEffect s c j o s' := by
  obtain ⟨ctx, key, index, value, ttl, _⟩ := j
  cases hpc
  simp only [itemStep] at hs
  split at hs
  · cases hs
  · cases hs
    cases m with
    | aborted e | expired | completed =>
      exact .write h.item (.inside (h.locked rfl)) h.key
        (.marked h.item rfl le_rfl (h.flag true rfl)) h.flag

/-- The callback runs outside the lock, but nobody looks at the values of a processed item. -/
theorem expiring (hpc : j.pc = .expiring i) : JoinEffect s c j o s' := by
  obtain ⟨ctx, key, index, value, ttl, _⟩ := j
  cases hpc
  simp only [itemStep] at hs
  split at hs <;> cases hs
  refine ⟨⟨_, rfl, rfl, .of_set h.item ?_, .run rfl rfl, .inl ⟨rfl, .inr rfl⟩, .same⟩,
    .of_set h.item rfl (.outside _ (fun hp => ?_)) (fun _ => .inr rfl), .of_eq, rfl,
    .same rfl rfl rfl, rfl, .of_pc rfl (.still h.item)⟩
  · rintro k ⟨⟩
    exact ⟨rfl, h.key, nofun, h.flag⟩
  · exact absurd ((h.flag true rfl).symm.trans hp) (by decide)

theorem removing {eviction : Bool} {k : AfterRemoval} (hpc : j.pc = .removing i eviction k) :
    JoinEffect s c j o s' := by
  obtain ⟨ctx, key, index, value, ttl, _⟩ := j
  cases hpc
  simp only [itemStep] at hs
  cases hs
  have hnext := k.onward i eviction
  have hmaps : ∀ pc, MapStep s key (.removing i eviction k) o ((s.removeIfSame key i).setPc c
      ⟨ctx, key, index, value, ttl, .removing i eviction k⟩ pc) :=
    fun pc => .remove i eviction k rfl rfl rfl rfl
  obtain ⟨current, previous, count, hremove⟩ := removeIfSame_frame s key i
  rw [hremove] at hmaps ⊢
  split
  · exact .rearrange (h.ok.weaken rfl (.inr rfl) (.inl rfl) (.inl rfl)) (hmaps _) hnext.counts
  · exact .rearrange (.of_none hnext.item) (hmaps _) hnext.removed ⟨rfl, hnext.arms⟩ hnext.insert

theorem counting {k : AfterRemoval} (hpc : j.pc = .counting i k) : JoinEffect s c j o s' := by
  obtain ⟨ctx, key, index, value, ttl, _⟩ := j
  cases hpc
  simp only [itemStep] at hs
  cases hs
  have hnext := k.onward i true
  exact .move rfl (.of_none hnext.item) hnext.counted.owes hnext.counted.appended
    (.same hnext.counted.active)
    (.idle rfl hnext.arms (fun _ h => absurd h (hnext.insert _)) rfl rfl)

end WithItem

/-! ### Arming -/

/-- A coroutine that is started for an item that exists, or not. -/
theorem TasksStep.of_woken {generation : Nat} {p : Prop} [Decidable p]
    (hit : s'.items[i]? = some it) (htasks : s'.expiryTasks =
      if p then s.expiryTasks ++ [⟨i, generation, .woken⟩] else s.expiryTasks) :
    TasksStep s s' := by
  split at htasks
  · refine ⟨_, htasks, fun x hx => ?_⟩
    obtain rfl := mem_singleton.mp hx
    exact ⟨⟨it, hit⟩, rfl, rfl, rfl⟩
  · exact .of_eq htasks

/-- The program points of `armExpiryLocked`. -/
def JoinPc.armingOf : JoinPc → Option (ItemId × ArmFor)
  | .subscribing i p | .inlineScheduling i p | .spawning i p | .arming i p | .rechecking i p
  | .scheduling i p => some (i, p)
  | _ => none

/-- What holds throughout `armExpiryLocked`. -/
structure JoinPc.Arms (pc : JoinPc) (i : ItemId) : Prop where
  item : pc.item = some i
  inside : pc.inside = some i
  expects : pc.expects = some false
  owes : pc.owes = none
  appended : pc.appended = some false
  active : pc.active

theorem JoinPc.arms_of_armingOf {pc : JoinPc} (h : pc.armingOf = some (i, p)) : pc.Arms i := by
  cases pc <;> cases h <;> exact ⟨rfl, rfl, rfl, rfl, rfl, rfl⟩

theorem JoinPc.passes_of_arming {pc pc' : JoinPc} (ha : pc.armingOf = some (i, p))
    (howes : pc'.owes = none) (happ : pc'.appended = some false) (hact : pc'.active) :
    pc.Passes pc' :=
  have h := arms_of_armingOf ha
  ⟨howes.trans h.owes.symm, .inr (happ.trans h.appended.symm), hact.trans h.active.symm⟩

namespace WithItem

section

variable {pc : JoinPc} (h : WithItem s c j i it) (ha : j.pc.armingOf = some (i, p))
include h ha

/-- Whatever comes next, the call keeps the lock and the item stays unprocessed. -/
theorem next (hitem : pc.item = some i) (hin : pc.inside = some i)
    (hexp : pc.expects = some false ∨ pc.expects = none) : CallOk s c { j with pc := pc } := by
  have harms := arms_of_armingOf ha
  exact h.ok.weaken rfl (.inr (hitem.trans harms.item.symm)) (.inr (hin.trans harms.inside.symm))
    (hexp.symm.imp_right (·.trans harms.expects.symm))

/-- Where `armExpiryLocked` returns to. -/
theorem armed : CallOk s c { j with pc := armed i p } ∧ j.pc.Passes (armed i p) := by
  cases p with
  | creation => exact ⟨h.next ha rfl rfl (.inr rfl), passes_of_arming ha rfl rfl rfl⟩
  | renewal saved => exact ⟨h.next ha rfl rfl (.inl rfl), passes_of_arming ha rfl rfl rfl⟩

theorem unmarked : it.processed = false := h.flag false (arms_of_armingOf ha).expects

/-- A write under the lock. -/
theorem write (hmove : JoinMove s j o ((s.setItem i it').setPc c j pc) { j with pc := pc })
    (hp' : ∀ b, pc.expects = some b → it'.processed = b) (hitem : pc.item = some i)
    (hpass : j.pc.Passes pc) (hkey : it'.key = it.key) (hmu : it'.mu = it.mu)
    (hvalues : it'.values = it.values) : JoinEffect s c j o ((s.setItem i it').setPc c j pc) := by
  have hlocked := h.locked (arms_of_armingOf ha).inside
  have hstep : ItemStep (.call c) it it' :=
    .inside hlocked (fun hp => absurd ((h.unmarked ha).symm.trans hp) (by decide)) hkey
  exact .write h.item hstep h.key hmove hp' (.inr (hmu.trans hlocked)) hpass (.inr hitem)
    (fun _ => hvalues)

/-- The handlers of a failed `armExpiryLocked`. -/
theorem failed (e : JoinError) (harms : j.pc.unspawned = some i)
    (hfail : ∀ saved, p = .renewal saved →
      (j.pc = .subscribing i (.renewal saved) ∧ o.fails) ∨
        (j.pc = .spawning i (.renewal saved) ∧
          (o.fails ∨ (s.lifeState ≠ .running ∧ s.lifeState ≠ .stopping)))) :
    JoinEffect s c j o (s.armFailed c j i it e p) := by
  cases p with
  | creation =>
    exact h.write ha (.marked h.item rfl le_rfl rfl (.inr harms) rfl rfl rfl nofun)
      (by rintro b ⟨⟩; rfl) rfl (passes_of_arming ha rfl rfl rfl) rfl rfl rfl
  | renewal saved =>
    exact .walk (h.next ha rfl rfl (.inl rfl)) (.fail i saved e (hfail saved rfl) rfl rfl rfl)
      (passes_of_arming ha rfl rfl rfl)

end

variable (h : WithItem s c j i it) (hs : s.armStep c j i it o = some s')
include h hs

theorem subscribing (hpc : j.pc = .subscribing i p) : JoinEffect s c j o s' := by
  have ha : j.pc.armingOf = some (i, p) := by rw [hpc]; rfl
  have harming := armings_of_item h.item
  simp only [armStep, hpc] at hs
  split at hs
  next hfail =>
    cases hs
    refine h.failed ha .resource (by rw [hpc]; rfl) ?_
    rintro saved rfl
    exact .inl ⟨hpc, hfail⟩
  · split at hs <;> cases hs
    · refine h.write ha (.subscribe i p it.arming .finished _ harming hpc
        (.inr ⟨rfl, rfl, rfl⟩) (armings_set rfl rfl) rfl) ?_ (by split <;> rfl)
        (by split <;> exact passes_of_arming ha rfl rfl rfl) rfl rfl rfl
      split <;> rintro b ⟨⟩ <;> exact h.unmarked ha
    · exact h.write ha (.subscribe i p it.arming .waiting _ harming hpc (.inl ⟨rfl, rfl, rfl⟩)
        (armings_set rfl rfl) rfl) (by rintro b ⟨⟩; exact h.unmarked ha) rfl
        (passes_of_arming ha rfl rfl rfl) rfl rfl rfl

theorem inlineScheduling (hpc : j.pc = .inlineScheduling i p) : JoinEffect s c j o s' := by
  have ha : j.pc.armingOf = some (i, p) := by rw [hpc]; rfl
  simp only [armStep, hpc, scheduleExpiryNow_eq] at hs
  cases hs
  exact .start (h.next ha rfl rfl (.inl rfl)) (.of_woken h.item rfl)
    (.inline i p it.arming (armings_of_item h.item) hpc rfl rfl (ite_eq_or_eq _ _ _).symm)
    (passes_of_arming ha rfl rfl rfl)

theorem spawning (hpc : j.pc = .spawning i p) : JoinEffect s c j o s' := by
  have ha : j.pc.armingOf = some (i, p) := by rw [hpc]; rfl
  simp only [armStep, hpc] at hs
  split at hs
  next hlife =>
    cases hs
    refine h.failed ha .storeStopped (by rw [hpc]; rfl) ?_
    rintro saved rfl
    exact .inr ⟨hpc, .inr hlife⟩
  · split at hs
    next hfail =>
      cases hs
      refine h.failed ha .resource (by rw [hpc]; rfl) ?_
      rintro saved rfl
      exact .inr ⟨hpc, .inl hfail⟩
    · cases hs
      refine .start (h.next ha rfl rfl (.inl rfl)) ⟨[⟨i, _, _⟩], rfl, ?_⟩
        (.spawn i p it.arming _ (armings_of_item h.item) hpc rfl rfl rfl)
        (passes_of_arming ha rfl rfl rfl)
      rintro x hx
      obtain rfl := mem_singleton.mp hx
      exact ⟨⟨it, h.item⟩, rfl, rfl, rfl⟩

theorem arming (hpc : j.pc = .arming i p) : JoinEffect s c j o s' := by
  have ha : j.pc.armingOf = some (i, p) := by rw [hpc]; rfl
  simp only [armStep, hpc] at hs
  cases hs
  exact h.write ha (.arm i p it.arming (armings_of_item h.item) hpc rfl (armings_set rfl rfl) rfl)
    (by rintro b ⟨⟩; exact h.unmarked ha) rfl (passes_of_arming ha rfl rfl rfl) rfl rfl rfl

theorem rechecking (hpc : j.pc = .rechecking i p) : JoinEffect s c j o s' := by
  have ha : j.pc.armingOf = some (i, p) := by rw [hpc]; rfl
  simp only [armStep, hpc] at hs
  cases hs
  refine .walk ?_ (.recheck i p it.arming (armings_of_item h.item) hpc rfl rfl rfl) ?_ <;> split
  · exact h.next ha rfl rfl (.inl rfl)
  · exact (h.armed ha).1
  · exact passes_of_arming ha rfl rfl rfl
  · exact (h.armed ha).2

theorem scheduling (hpc : j.pc = .scheduling i p) : JoinEffect s c j o s' := by
  have ha : j.pc.armingOf = some (i, p) := by rw [hpc]; rfl
  simp only [armStep, hpc, scheduleExpiryNow_eq] at hs
  cases hs
  exact .start (h.armed ha).1 (.of_woken h.item rfl)
    (.schedule i p it.arming (armings_of_item h.item) hpc rfl rfl rfl) (h.armed ha).2

end WithItem

/-- Every step of `armExpiryLocked`. -/
theorem armStep_effect (ha : j.pc.armingOf = some (i, p)) (hit : s.items[i]? = some it)
    (hj : CallOk s c j) (hs : s.armStep c j i it o = some s') : JoinEffect s c j o s' := by
  have h := hj.withItem (arms_of_armingOf ha).item hit
  cases hpc : j.pc <;> rw [hpc] at ha <;> cases ha
  case subscribing => exact h.subscribing hs hpc
  case inlineScheduling => exact h.inlineScheduling hs hpc
  case spawning => exact h.spawning hs hpc
  case arming => exact h.arming hs hpc
  case rechecking => exact h.rechecking hs hpc
  case scheduling => exact h.scheduling hs hpc

/-! ### Appending the value -/

namespace WithItem

variable (h : WithItem s c j i it) (hs : s.itemStep c j i it o = some s')
include h hs

theorem restoring {saved : Saved} {e : JoinError} (hpc : j.pc = .restoring i saved e) :
    JoinEffect s c j o s' := by
  obtain ⟨ctx, key, index, value, ttl, _⟩ := j
  cases hpc
  simp only [itemStep] at hs
  split at hs
  · cases hs
  · cases hs
    exact .unwind h.item (.inside (h.locked rfl)) h.key
      (.restore i saved e it.arming (armings_of_item h.item) rfl rfl armings_set rfl)
      (fun _ => rfl)

theorem relocating (hpc : j.pc = .relocating i) : JoinEffect s c j o s' := by
  obtain ⟨ctx, key, index, value, ttl, _⟩ := j
  cases hpc
  have hnext : CallOk s c ⟨ctx, key, index, value, ttl, .appending i⟩ :=
    h.ok.weaken rfl (.inr rfl) (.inr rfl) (.inr rfl)
  simp only [itemStep] at hs
  split at hs
  next hprev =>
    split at hs
    next hfails =>
      cases hs
      exact ⟨⟨_, rfl, rfl, .of_none rfl, .quiet rfl rfl, .inl ⟨rfl, .inl rfl⟩, .same⟩,
        .of_set h.item rfl (.inside (h.locked rfl)), .of_eq, rfl,
        .lose i rfl hprev rfl rfl hfails, rfl, .of_pc rfl (.still h.item)⟩
    · cases hs
      exact .rearrange hnext (.relocate i rfl hprev rfl rfl rfl)
  · cases hs
    exact .walk hnext

theorem appending (hpc : j.pc = .appending i) : JoinEffect s c j o s' := by
  obtain ⟨ctx, key, index, value, ttl, _⟩ := j
  cases hpc
  have hit := h.item
  simp only [itemStep] at hs
  split at hs <;> cases hs
  · exact .unwind hit (.inside (h.locked rfl)) h.key (.still hit) (h.fixed rfl)
  · exact .unwind hit (.inside (h.locked rfl)) h.key (.still hit) (h.fixed rfl)
  · refine ⟨⟨_, rfl, rfl, .of_set hit ?_, .quiet rfl rfl, .inr ⟨i, rfl, rfl, rfl⟩, .same⟩,
      .of_set hit rfl (.inside (h.locked rfl)) (fun hp => .inl (h.fixed rfl hp)), .of_eq, rfl,
      .same rfl rfl rfl, rfl, .of_pc rfl (.still hit)⟩
    rintro k ⟨⟩
    exact ⟨rfl, h.key, fun _ => h.locked rfl, h.flag⟩

theorem calling (hpc : j.pc = .calling i) : JoinEffect s c j o s' := by
  obtain ⟨ctx, key, index, value, ttl, _⟩ := j
  cases hpc
  have hit := h.item
  have hmu := h.locked rfl
  simp only [itemStep] at hs
  split at hs <;> cases hs
  · -- The join is complete.
    refine ⟨⟨_, rfl, rfl, .of_set hit ?_, .complete hit (h.flag false rfl)
          (getElem?_set_some hit _) rfl rfl rfl, .inl ⟨rfl, .inr rfl⟩, .same⟩,
      .of_set hit rfl (.inside hmu (fun _ => rfl)) (fun hp => .inl (h.fixed rfl hp)), .of_eq, rfl,
      .same rfl rfl rfl, rfl, .of_pc rfl (.marked hit rfl (Nat.le_succ _))⟩
    rintro k ⟨⟩
    exact ⟨rfl, h.key, fun _ => hmu, by rintro b ⟨⟩; rfl⟩
  · exact .unwind hit (.inside hmu) h.key (.still hit) (h.fixed rfl) ⟨rfl, .inr rfl, rfl⟩
  · exact .unwind hit (.inside hmu) h.key (.still hit) (h.fixed rfl)

end WithItem

/-- Every step of `joinValue` with an item, apart from arming its expiry. -/
theorem itemStep_effect (hi : j.pc.item = some i) (hit : s.items[i]? = some it) (hj : CallOk s c j)
    (hs : s.itemStep c j i it o = some s') : JoinEffect s c j o s' := by
  have h := hj.withItem hi hit
  cases hpc : j.pc <;> rw [hpc] at hi <;> cases hi
  case locking => exact h.locking hs hpc
  case inspecting => exact h.inspecting hs hpc
  case renewing => exact h.renewing hs hpc
  case restoring => exact h.restoring hs hpc
  case relocating => exact h.relocating hs hpc
  case appending => exact h.appending hs hpc
  case calling => exact h.calling hs hpc
  case releasing => exact h.releasing hs hpc
  case expiring => exact h.expiring hs hpc
  case removing => exact h.removing hs hpc
  case counting => exact h.counting hs hpc
  all_goals simp [itemStep, hpc] at hs

/-- The steps of `joinValue` before it has an item, and the last one. -/
theorem enterStep_effect (hkeys : KeysOk s) (hops : j.pc.active → 0 < s.activeOperations)
    (hs : s.enterStep c j o = some s') : JoinEffect s c j o s' := by
  obtain ⟨ctx, key, index, value, ttl, pc⟩ := j
  have hfound : ∀ k, s.findItemLocked key = some k →
      CallOk s c ⟨ctx, key, index, value, ttl, .locking k⟩ := by
    rintro k hk _ ⟨⟩
    obtain ⟨itk, hitk, hkey⟩ := hkeys.findItemLocked hk
    exact ⟨itk, hitk, hkey, (by rintro ⟨⟩), fun b hb => nomatch hb⟩
  simp only [enterStep] at hs
  split at hs
  case h_1 =>
    split at hs
    next hlife =>
      cases hs
      exact .move rfl (.of_none rfl) rfl (.inr rfl) ⟨rfl, rfl, fun _ => .inr hlife⟩
        (.idle rfl rfl nofun rfl rfl)
    all_goals
      cases hs
      exact .walk (.of_none rfl) (.idle rfl rfl nofun rfl rfl) ⟨rfl, .inl rfl, rfl⟩
  case h_2 =>
    cases hs
    exact .move rfl (.of_none rfl) rfl (.inr rfl) .same (.idle rfl rfl nofun rfl rfl)
  case h_3 =>
    cases hs
    cases hf : s.findItemLocked key with
    | none => exact .walk (.of_none rfl)
    | some k => exact .walk (hfound k hf)
  case h_4 =>
    split at hs <;> cases hs
    · exact .walk (.of_none rfl) (.idle rfl rfl nofun rfl rfl) ⟨rfl, .inl rfl, rfl⟩
    · refine .walk (.of_none rfl) (.idle rfl rfl ?_ rfl rfl)
      rintro deadline ⟨⟩ hpos
      rw [if_pos hpos]
      rfl
  case h_5 deadline =>
    split at hs
    next k hf =>
      cases hs
      exact .walk (hfound k hf)
    next hf =>
      split at hs
      · cases hs
        exact .walk (.of_none rfl) (.idle rfl rfl nofun rfl rfl) ⟨rfl, .inl rfl, rfl⟩
      next hgo =>
        -- The candidate becomes the last item, locked by this call.
        cases hs
        have hfind : or ((s.current.insert key s.items.length).lookup key)
            (s.previous.lookup key) = some s.items.length := by
          rw [AList.lookup_insert]
          rfl
        cases deadline with
        | none | some d =>
          refine ⟨⟨_, rfl, rfl, ?_, .quiet rfl rfl, .inl ⟨rfl, .inr rfl⟩, .same⟩,
            ItemsStep.of_append _ rfl hfind, .of_eq, rfl, .insert _ hf rfl rfl rfl rfl rfl, rfl,
            .of_pc rfl (.create _ rfl hf (by simpa using hgo) ?_ map_append rfl)⟩
          swap
          · rw [armings, length_map]
          rintro k ⟨⟩
          refine ⟨_, getElem?_concat_length, rfl, fun _ => rfl, ?_⟩
          rintro b ⟨⟩ <;> rfl
  case h_6 r =>
    cases hs
    have hcount : s.activeOperations - 1 + 1 = s.activeOperations + 0 :=
      Nat.sub_add_cancel (hops rfl)
    cases r with
    | none =>
      exact .move rfl (.of_none rfl) rfl (.inr rfl) ⟨hcount, rfl, nofun⟩
        (.idle rfl rfl nofun rfl rfl)
    | some e =>
      exact .move rfl (.of_none rfl) rfl (.inl rfl) ⟨hcount, rfl, nofun⟩
        (.idle rfl rfl nofun rfl rfl)
  case h_7 => cases hs

/-- **A step of a `joinValue` call.** -/
theorem joinStep_effect (hkeys : KeysOk s) (hcalls : ∀ c j, s.calls[c]? = some j → CallOk s c j)
    (hops : s.activeOperations = s.calls.countP (·.pc.active)) (hs : s.joinStep c o = some s') :
    ∃ j, s.calls[c]? = some j ∧ JoinEffect s c j o s' := by
  obtain ⟨j, hj, hs⟩ := bind_eq_some_iff.mp hs
  refine ⟨j, hj, ?_⟩
  split at hs
  · refine enterStep_effect hkeys (fun hact => ?_) hs
    rw [hops]
    exact countP_pos_iff.mpr ⟨j, mem_of_getElem? hj, hact⟩
  next k hk =>
    obtain ⟨it, hit, hs⟩ := bind_eq_some_iff.mp hs
    split at hs
    case h_7 => exact itemStep_effect hk hit (hcalls c j hj) hs
    all_goals
      rename_i hpc
      rw [hpc] at hk
      cases hk
      exact armStep_effect (by rw [hpc]; rfl) hit (hcalls c j hj) hs

end ServiceLib.Join
