import ServiceLib.Store.JoinInvariants

namespace ServiceLib.Join

/-!
# Join storage — the life of an item

Until the maps are cleared, every unprocessed item is the one registered for its key.  Every step
keeps this but one: a renewal that takes the item out of the previous generation and then cannot
insert it into the current one (`reinsertionFails`).  `joinItem_lifecycle` says what holds in every
run without such a step.
-/

open List Option State AList

variable {K V : Type} [DecidableEq K] {s s' : State K V} {a : Action K V}

/-! ### Steps of the other threads -/

/-- What becomes of the registrations in a step that no `joinValue` call takes. -/
inductive OtherMaps (s : State K V) (a : Action K V) (s' : State K V) : Prop
  | same (hc : s'.current = s.current) (hp : s'.previous = s.previous) (hn : s'.count = s.count)
  /-- Only an item that has been marked is removed. -/
  | remove (x : ItemId) (it : Item K V) (hit : s.items[x]? = some it)
      (hmarked : it.processed) (hc : s'.current = (s.removeIfSame it.key x).current)
      (hp : s'.previous = (s.removeIfSame it.key x).previous)
      (hn : s'.count = (s.removeIfSame it.key x).count)
  | clear (hc : s'.current = ∅) (hp : s'.previous = ∅) (hn : s'.count = 0)
      (hstopped : s'.lifeState = .stopped) (hdrained : s.activeOperations = 0)
  | rotate (fails : Option Nat) (ha : a = .rotate fails) (hrotate : s.rotate fails = some s')

/-- What such a step does to items and registrations. -/
structure OtherEffect (s : State K V) (a : Action K V) (s' : State K V) : Prop where
  items : ∃ h, ItemsStep h s s' ∧ ∀ c, h ≠ .call c
  appends : s'.appends = s.appends
  config : s'.config = s.config
  stopped : s.lifeState = .stopped → s'.lifeState = .stopped
  maps : OtherMaps s a s'

theorem Inv.otherEffect (hi : Inv s) (hs : step s a = some s')
    (ha : ∀ c o, a ≠ .join c o) : OtherEffect s a s' := by
  cases a with
  | join c o => exact absurd rfl (ha c o)
  | cancel i fails =>
    have he := cancelStep_effect (.stop 0) hs
    obtain ⟨_, _, rfl⟩ := he.rest
    exact ⟨⟨_, he.items, by simp⟩, rfl, rfl, id, .same rfl rfl rfl⟩
  | expire t o =>
    obtain ⟨x, -, he⟩ := expiryStep_effect hi.threads.tasks hs
    refine ⟨⟨_, he.items, by simp⟩, he.appends, he.config, fun h => he.life.trans h, ?_⟩
    rcases he.maps with ⟨hc, hp, hn⟩ | ⟨it, hit, hmarked, hc, hp, hn⟩
    · exact .same hc hp hn
    · exact .remove _ it hit hmarked hc hp hn
  | stop n =>
    have hitems := (stopStep_effect hi.threads.stops hs).items
    obtain ⟨pc, hpc, hm⟩ := stopStep_cases hs
    have hdrained := hi.life.drained pc (mem_of_getElem? hpc)
    cases hm with
    | close hrun =>
      exact ⟨⟨_, hitems, by simp⟩, rfl, rfl, fun h => absurd h hrun, .same rfl rfl rfl⟩
    | walk | lock | reset | cancel =>
      exact ⟨⟨_, hitems, by simp⟩, rfl, rfl, id, .same rfl rfl rfl⟩
    | clear =>
      exact ⟨⟨_, hitems, by simp⟩, rfl, rfl, fun _ => rfl, .clear rfl rfl rfl rfl (hdrained rfl)⟩
  | _ =>
    have hq := step_quietEffect rfl hs
    refine ⟨⟨.stop 0, .of_eq _ hq.items, by simp⟩, hq.appends, hq.config, fun h => ?_, ?_⟩
    · rcases hq.life with hlife | ⟨hlife, -⟩
      · exact hlife.trans h
      · simp [hlife] at h
    · rcases hq.maps with ⟨hc, hp, hn⟩ | ⟨fails, ha, hrotate⟩
      · exact .same hc hp hn
      · exact .rotate fails ha hrotate

theorem OtherMaps.origin (hm : OtherMaps s a s') {k : K} {i : ItemId}
    (h : s'.current.lookup k = some i ∨ s'.previous.lookup k = some i) :
    s.current.lookup k = some i ∨ s.previous.lookup k = some i := by
  cases hm with
  | same hc hp => rwa [hc, hp] at h
  | remove x it _ _ hc hp =>
    rw [hc, hp] at h
    exact h.imp (removeIfSame_some s it.key x).1 (removeIfSame_some s it.key x).2
  | clear hc hp => simp [hc, hp, lookup_empty] at h
  | rotate _ _ hrotate => exact (rotate_findItemLocked hrotate k).2 i h

/-! ### Registration -/

/-- Every unprocessed item is the one registered for its key. -/
def RegInv (s : State K V) : Prop :=
  s.lifeState ≠ .stopped → ∀ (i : ItemId) it, s.items[i]? = some it → it.processed = false →
    s.findItemLocked it.key = some i

/-- The action is a renewal's move to the current generation, and the insertion there fails. -/
def reinsertionFails (s : State K V) : Action K V → Bool
  | .join c o => o.fails && (s.calls[c]?).any (fun j => match j.pc with
      | .relocating i => s.previous.lookup j.key = some i
      | _ => false)
  | _ => false

/-- No renewal loses its item. -/
def renewalsReinsert (s : State K V) (a : Action K V) : Prop := reinsertionFails s a = false

instance (s : State K V) (a : Action K V) : Decidable (renewalsReinsert s a) :=
  inferInstanceAs (Decidable (_ = _))

theorem RegInv.step {h : Holder} (hr : RegInv s) (hitems : ItemsStep h s s')
    (hlife : s.lifeState = .stopped → s'.lifeState = .stopped)
    (hfind : s.lifeState ≠ .stopped → ∀ (i : ItemId) it, s.items[i]? = some it →
      it.processed = false → s.findItemLocked it.key = some i →
      s'.findItemLocked it.key = some i) : RegInv s' := by
  intro hrun i it' hit' hp'
  have hrun : s.lifeState ≠ .stopped := fun h => hrun (hlife h)
  rcases hitems.origin hit' with ⟨it, hit, hs⟩ | ⟨-, hnew⟩
  · have hp : it.processed = false := by
      by_contra hp
      rw [hs.mono (by simpa using hp)] at hp'
      cases hp'
    rw [hs.key]
    exact hfind hrun i it hit hp (hr hrun i it hit hp)
  · exact hnew

variable {i : ItemId} {o : Outcome V} {c : CallId} {j : JoinCall K V} {key k : K} {it : Item K V}
  {x : ItemId}

/-- Removing a processed item does not affect the others. -/
theorem findItemLocked_removeIfSame
    (hc : s'.current = (s.removeIfSame key x).current)
    (hp : s'.previous = (s.removeIfSame key x).previous) (hne : i ≠ x)
    (hfind : s.findItemLocked k = some i) : s'.findItemLocked k = some i := by
  obtain ⟨hcur, hprev⟩ := removeIfSame_lookup s key x k
  unfold findItemLocked at hfind ⊢
  rw [hc, hp]
  rw [or_eq_some_iff] at hfind ⊢
  rcases hfind with hfind | ⟨hnone, hfind⟩
  · left
    rcases hcur with h | ⟨-, h, -⟩
    · exact h.trans hfind
    · exact absurd (some.inj (hfind.symm.trans h)) hne
  · right
    refine ⟨?_, ?_⟩
    · rcases hcur with h | ⟨-, h, -⟩
      · exact h.trans hnone
      · simp [hnone] at h
    · rcases hprev with h | ⟨-, h, -⟩
      · exact h.trans hfind
      · exact absurd (some.inj (hfind.symm.trans h)) hne

/-- An unprocessed item stays registered until the maps are cleared. -/
theorem OtherMaps.find (hm : OtherMaps s a s') {k : K}
    (hit : s.items[i]? = some it) (hp : it.processed = false)
    (hfind : s.findItemLocked k = some i) : s'.findItemLocked k = some i ∨
      (s'.lifeState = .stopped ∧ s.activeOperations = 0) := by
  cases hm with
  | same hc hp => exact .inl ((findItemLocked_congr hc hp k).trans hfind)
  | remove x itx hitx hmarked hc hp' =>
    refine .inl (findItemLocked_removeIfSame hc hp' ?_ hfind)
    rintro rfl
    cases hitx.symm.trans hit
    simp [hmarked] at hp
  | clear _ _ _ hstopped hdrained => exact .inr ⟨hstopped, hdrained⟩
  | rotate _ _ hrotate => exact .inl ((rotate_findItemLocked hrotate k).1.trans hfind)

/-- Where no renewal loses its item, the insertion of one that moves it does not fail. -/
theorem renewalsReinsert.insertion (hok : renewalsReinsert s (.join c o))
    (hj : s.calls[c]? = some j) (hpc : j.pc = .relocating i)
    (hprev : s.previous.lookup j.key = some i) : ¬ o.fails := by
  unfold renewalsReinsert reinsertionFails at hok
  simpa [hj, hpc, hprev] using hok

theorem findItemLocked_relocate (hc : s'.current = s.current.insert key x)
    (hp : s'.previous = s.previous.erase key) (hx : k = key → i = x)
    (hfind : s.findItemLocked k = some i) : s'.findItemLocked k = some i := by
  unfold findItemLocked at hfind ⊢
  rw [hc, hp]
  by_cases hk : k = key
  · subst hk
    rw [lookup_insert, hx rfl]
    rfl
  · rw [lookup_insert_ne hk, lookup_erase_ne hk]
    exact hfind

/-- What looking up finds is still found after a step of a call, unless that step removes it or its
    move to the current generation fails. -/
theorem MapStep.find {pc : JoinPc} (hm : MapStep s key pc o s')
    (hmoved : ∀ x, pc = .relocating x → s.previous.lookup key = some x → k = key →
      i = x ∧ (o.fails → s'.findItemLocked key = some i))
    (hremove : ∀ eviction r, pc ≠ .removing i eviction r) (hfind : s.findItemLocked k = some i) :
    s'.findItemLocked k = some i := by
  cases hm with
  | same hc hp => exact (findItemLocked_congr hc hp k).trans hfind
  | insert new hnone hkey hitems hc hp =>
    have hne : k ≠ key := by
      rintro rfl
      simp [hnone] at hfind
    unfold findItemLocked at hfind ⊢
    rw [hc, hp, lookup_insert_ne hne]
    exact hfind
  | relocate x hpc hprev hc hp =>
    exact findItemLocked_relocate hc hp (fun hk => (hmoved x hpc hprev hk).1) hfind
  | lose x hpc hprev hc hp hfails =>
    by_cases hk : k = key
    · rw [hk]
      exact (hmoved x hpc hprev hk).2 hfails
    · unfold findItemLocked at hfind ⊢
      rw [hc, hp, lookup_erase_ne hk]
      exact hfind
  | remove x eviction r hpc hc hp =>
    refine findItemLocked_removeIfSame hc hp ?_ hfind
    rintro rfl
    exact hremove eviction r hpc

/-- A step of `joinValue`. -/
theorem joinStep_regInv (hi : Inv s) (hr : RegInv s) (hok : renewalsReinsert s (.join c o))
    (hs : s.joinStep c o = some s') : RegInv s' := by
  obtain ⟨j, hj, he⟩ := hi.joinEffect hs
  have hcall := hi.threads.calls c j hj
  have hlife : s'.lifeState = s.lifeState := by
    obtain ⟨j', -, -, -, -, -, hops⟩ := he.call
    exact hops.life
  refine hr.step he.items (fun h => hlife.trans h) (fun hrun i it hit hp hfind => ?_)
  refine he.maps.find (fun x hpc hprev hkey => ⟨?_, fun hfails => ?_⟩)
    (fun eviction r hpc => ?_) hfind
  · -- The item of a renewal is unprocessed, so it is the registered one.
    obtain ⟨itx, hitx, hkeyx, -, hflag⟩ := hcall x (by rw [hpc]; rfl)
    have hregx := hr hrun x itx hitx (hflag false (by rw [hpc]; rfl))
    rw [hkeyx, ← hkey, hfind] at hregx
    exact some.inj hregx
  · exact absurd hfails (hok.insertion hj hpc hprev)
  · obtain ⟨itx, hitx, -, -, hflag⟩ := hcall i (by rw [hpc]; rfl)
    obtain rfl : itx = it := some.inj (hitx.symm.trans hit)
    rw [hflag true (by rw [hpc]; rfl)] at hp
    cases hp

theorem step_regInv (hi : Inv s) (hr : RegInv s) (hok : renewalsReinsert s a)
    (hs : step s a = some s') : RegInv s' := by
  cases a with
  | join c o => exact joinStep_regInv hi hr hok hs
  | _ =>
    have he := hi.otherEffect hs (by simp)
    obtain ⟨_, hitems, -⟩ := he.items
    by_cases hstop : s'.lifeState = .stopped
    · exact fun hrun => absurd hstop hrun
    · refine hr.step hitems he.stopped (fun _ i it hit hp hfind => ?_)
      exact (he.maps.find hit hp hfind).resolve_right (fun h => hstop h.1)

theorem reachable_regInv {config : JoinStorageConfig}
    (h : (system K V config).ReachableIf renewalsReinsert s) : RegInv s := by
  refine h.invariant (fun _ i it hit => by cases hit) ?_
  intro t a t' hreach hr hok hs
  exact step_regInv (reachable_inv hreach.reachable) hr hok hs

/-! ### The life of an item -/

/-- What a state, and every step from it, says about the life of items. -/
structure ItemLifecycle (s : State K V) : Prop where
  /-- An item that is marked stays marked, and only its expiry callback changes its values. -/
  marked_once : ∀ a s' (i : ItemId) it, step s a = some s' → s.items[i]? = some it →
    it.processed → ∃ it', s'.items[i]? = some it' ∧ it'.processed ∧
      (it'.values = it.values ∨ s'.expiries = s.expiries ++ [i])
  expired_once : ∀ i, s.expiries.count i ≤ 1
  not_expired_after_completion : ∀ i ∈ s.completions, i ∉ s.expiries
  /-- A call that returned appended its value once. -/
  appended_once : ∀ (c : CallId) j, s.calls[c]? = some j → j.pc = .returned →
    s.appendCount c = 1
  /-- A value is appended to the unprocessed item registered for the key. -/
  appended_to_registered : ∀ a s' (c : CallId) (i : ItemId), step s a = some s' →
    s'.appends = s.appends ++ [(c, i)] → ∃ j it it', s.calls[c]? = some j ∧
      s.items[i]? = some it ∧ it.processed = false ∧ s.findItemLocked j.key = some i ∧
      s'.items[i]? = some it' ∧ it'.values = pushValue it.values j.index j.value

/-- Every step keeps the items, for some thread: a call only by a step of its own. -/
theorem step_items (hi : Inv s) (hs : step s a = some s') :
    ∃ h, ItemsStep h s s' ∧ ∀ c, h = .call c → ∃ o, a = .join c o := by
  cases a with
  | join c o =>
    obtain ⟨j, -, he⟩ := hi.joinEffect hs
    refine ⟨_, he.items, ?_⟩
    rintro _ ⟨⟩
    exact ⟨o, rfl⟩
  | _ =>
    obtain ⟨h, hitems, hne⟩ := (hi.otherEffect hs (by simp)).items
    exact ⟨h, hitems, fun c hc => absurd hc (hne c)⟩

/-- Only a `joinValue` call appends. -/
theorem step_appends (hi : Inv s) (hs : step s a = some s')
    (happ : s'.appends = s.appends ++ [(c, i)]) :
    ∃ o, a = .join c o ∧ ∃ j, s.calls[c]? = some j ∧ j.pc = .appending i := by
  have hne : s'.appends ≠ s.appends := by
    rw [happ]
    exact fun h => by simpa using congrArg length h
  cases a with
  | join d o =>
    obtain ⟨j, hj, he⟩ := hi.joinEffect hs
    obtain ⟨j', -, -, -, -, happ', -⟩ := he.call
    rcases happ' with ⟨hsame, -⟩ | ⟨k, hpc, -, happ'⟩
    · exact absurd hsame hne
    · rw [happ'] at happ
      have hlast := append_cancel_left happ
      simp only [cons.injEq, Prod.mk.injEq, and_true] at hlast
      obtain ⟨rfl, rfl⟩ := hlast
      exact ⟨o, rfl, j, hj, hpc⟩
  | _ => exact absurd (hi.otherEffect hs (by simp)).appends hne

/-- The step that appends writes the value into the item. -/
theorem joinStep_appending (hj : s.calls[c]? = some j)
    (hpc : j.pc = .appending i) (hit : s.items[i]? = some it) (hne : s'.appends ≠ s.appends)
    (hs : s.joinStep c o = some s') :
    s'.items[i]? = some { it with values := pushValue it.values j.index j.value } := by
  obtain ⟨j₀, hj₀, hs⟩ := bind_eq_some_iff.mp hs
  cases hj₀.symm.trans hj
  rw [hpc] at hs
  obtain ⟨it₀, hit₀, hs⟩ := bind_eq_some_iff.mp hs
  cases hit₀.symm.trans hit
  simp only [itemStep, hpc] at hs
  split at hs
  · cases hs
    exact absurd rfl hne
  · cases hs
    exact absurd rfl hne
  · cases hs
    show (s.items.set i _)[i]? = _
    rw [getElem?_set_self']
    simp [hit]

theorem itemLifecycle_of_inv (hi : Inv s) (hr : RegInv s) : ItemLifecycle s where
  marked_once a s' i it hs hit hp := by
    obtain ⟨h, hitems, -⟩ := step_items hi hs
    obtain ⟨it', hit', hstep⟩ := hitems.keeps i it hit
    exact ⟨it', hit', hstep.mono hp, hitems.values i it it' hit hit' hp⟩
  expired_once i := by
    have hf := hi.fate i
    split at hf <;> omega
  not_expired_after_completion i hc he := by
    have hf := hi.fate i
    have h₁ := count_pos_iff.mpr hc
    have h₂ := count_pos_iff.mpr he
    split at hf <;> omega
  appended_once c j hj hpc := hi.append.1 c j hj true (by rw [hpc]; rfl)
  appended_to_registered a s' c i hs happ := by
    obtain ⟨o, rfl, j, hj, hpc⟩ := step_appends hi hs happ
    obtain ⟨it, hit, hkey, -, hflag⟩ := hi.threads.calls c j hj i (by rw [hpc]; rfl)
    have hp : it.processed = false := hflag false (by rw [hpc]; rfl)
    -- A call in progress keeps `stop` from clearing the maps.
    have hrun : s.lifeState ≠ .stopped := by
      intro hstopped
      have := hi.life.not_active (hi.life.stopped hstopped) hj
      rw [hpc] at this
      cases this
    have hreg := hr hrun i it hit hp
    rw [hkey] at hreg
    have hne : s'.appends ≠ s.appends := by
      rw [happ]
      exact fun h => by simpa using congrArg length h
    exact ⟨j, it, _, hj, hit, hp, hreg, joinStep_appending hj hpc hit hne hs, rfl⟩

/-- **The life of a join item.**  In every run in which no renewal fails between erasing its
    entry and inserting it again: a marked item stays marked, and the storage leaves its values
    alone; its expiry callback runs at most once, and never together with a join callback that
    returned true; a `joinValue` that returned appended its value exactly once, and every value
    is appended to the unprocessed item that is registered for the key at that moment. -/
theorem joinItem_lifecycle (config : JoinStorageConfig) (s : State K V)
    (h : (system K V config).ReachableIf renewalsReinsert s) : ItemLifecycle s :=
  itemLifecycle_of_inv (reachable_inv h.reachable) (reachable_regInv h)

/-! ### A renewal that loses its item -/

/-- A storage whose items live for ten ticks and are renewed by every value. -/
def renewing : JoinStorageConfig := { ttl := 10, renewTtl := true }

/-- A call for key 7 with the context `ctx` creates item 0 and returns. -/
def firstJoin (ctx : Context) : List (Action Nat Nat) :=
  [ [.start false, .callJoin ctx 7 0 100], replicate 11 (.join 0 .go),
    [.join 0 (.answered false [[100]]), .join 0 .go] ].flatten

/-- One call creates the item and a rotation moves it to the previous generation.  Two more
    calls find it there. -/
def foundTwice : List (Action Nat Nat) :=
  [ firstJoin {}, [.rotate none, .callJoin {} 7 0 200, .callJoin {} 7 0 300],
    replicate 3 (.join 1 .go),
    replicate 3 (.join 2 .go) ].flatten

/-- The renewal of the first erases the entry and fails to insert it; the second, which has
    waited for the lock, gets as far as appending. -/
def lostRenewal : List (Action Nat Nat) :=
  [ foundTwice,
    replicate 7 (.join 1 .go),
    [.join 1 .fail, .join 1 .go],
    replicate 8 (.join 2 .go) ].flatten

/-- The rest of the second call. -/
def returnAfterLoss : List (Action Nat Nat) :=
  [.join 2 .go, .join 2 (.answered false [[100, 300]]), .join 2 .go]

/-- Nothing is registered for key 7, the key of call 2, which goes on to append its value to
    item 0 and to return. -/
def returnsUnregistered (s : State Nat Nat) : Bool :=
  s.findItemLocked 7 = none && s.calls[2]?.any (fun j => j.key = 7 && j.pc = .appending 0) &&
    ((system Nat Nat renewing).runFrom s returnAfterLoss).any (fun t =>
      t.appends = s.appends ++ [(2, 0)] && t.calls[2]?.any (fun j => j.pc = .returned))

/-- **A value is lost.**  After such a step a value is appended to an item that is not
    registered, and the call returns normally. -/
theorem joinValue_appends_unregistered :
    ∃ s, (system Nat Nat renewing).Reachable s ∧ returnsUnregistered s = true :=
  System.exists_reachable_of_run _ lostRenewal _ (by decide +kernel)

/-- Without the failure: the second call renews the item, the third completes the join. -/
def renewedTwice : List (Action Nat Nat) :=
  [ foundTwice,
    replicate 9 (.join 1 .go),
    [.join 1 (.answered false [[100, 200]]), .join 1 .go],
    replicate 9 (.join 2 .go),
    [.join 2 (.answered true [[100, 200, 300]])],
    replicate 3 (.join 2 .go) ].flatten

/-- All three calls returned, and the item they share is completed. -/
def completedByAll (s : State Nat Nat) : Bool :=
  s.appends = [(0, 0), (1, 0), (2, 0)] && s.completions = [0] &&
    s.calls.map (·.pc) = [.returned, .returned, .returned]

theorem joinItem_lifecycle_renewed : ∃ s,
    (system Nat Nat renewing).ReachableIf renewalsReinsert s ∧ completedByAll s = true ∧
      ItemLifecycle s := by
  obtain ⟨s, hs, hp⟩ := (system Nat Nat renewing).exists_reachableIf_of_run
    renewalsReinsert renewedTwice (completedByAll · = true) (by decide +kernel)
  exact ⟨s, hs, hp, joinItem_lifecycle renewing s hs⟩

end ServiceLib.Join
