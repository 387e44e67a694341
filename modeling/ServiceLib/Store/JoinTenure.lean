import ServiceLib.Store.JoinRunning

namespace ServiceLib.Join

/-!
# Join storage — an item while a call holds it

What a `joinValue` call may rely on while it holds the lock of an unprocessed item, beyond the
lock and the flag: its values and its arming stay as they are, it stays registered, and its
expiry coroutines stay.
-/

open List Option State

variable {K V : Type}

variable [DecidableEq K] {s s' : State K V} {i : ItemId} {c : CallId} {it it' : Item K V}
  {a : Action K V} {d : CallId} {j : JoinCall K V} {o : Outcome V} {itk : Item K V} {k : ItemId}
  {key : K} {pc : JoinPc} {g : Nat}

/-- **The others leave the item alone.** -/
theorem step_untouched (hi : Inv s) (hit : s.items[i]? = some it) (hmu : it.mu = some (.call c))
    (hp : it.processed = false) (ha : ∀ o, a ≠ .join c o) (hs : step s a = some s') :
    ∃ it', s'.items[i]? = some it' ∧ Untouched it it' := by
  obtain ⟨h, hitems, hcall⟩ := step_items hi hs
  obtain ⟨it', hit', hstep⟩ := hitems.keeps i it hit
  refine ⟨it', hit', hstep.untouched hp (by rw [hmu]; exact some_ne_none _) ?_⟩
  rw [hmu]
  intro hh
  obtain ⟨o, ho⟩ := hcall c (some.inj hh).symm
  exact ha o ho

/-! ### Registration -/

/-- An entry that is in both generations leads to one item in both. -/
def Agree (s : State K V) : Prop :=
  ∀ key (a b : ItemId), s.current.lookup key = some a → s.previous.lookup key = some b → a = b

/-- Then looking an item up finds every entry there is. -/
theorem Agree.find (h : Agree s)
    (hreg : s.current.lookup key = some i ∨ s.previous.lookup key = some i) :
    s.findItemLocked key = some i := by
  unfold findItemLocked
  cases hc : s.current.lookup key with
  | none =>
    rw [hc] at hreg
    exact hreg.resolve_left (by simp)
  | some a =>
    rcases hreg with hreg | hreg
    · exact hc.symm.trans hreg
    · rw [h key a i hc hreg]
      rfl

theorem registered_of_find (h : s.findItemLocked key = some i) :
    s.current.lookup key = some i ∨ s.previous.lookup key = some i := by
  unfold findItemLocked at h
  rw [or_eq_some_iff] at h
  exact h.imp id And.right

/-- A step that only forgets entries. -/
theorem Agree.of_subset (h : Agree s)
    (hc : ∀ key (a : ItemId), s'.current.lookup key = some a → s.current.lookup key = some a)
    (hp : ∀ key (a : ItemId), s'.previous.lookup key = some a → s.previous.lookup key = some a) :
    Agree s' :=
  fun key a b ha hb => h key a b (hc key a ha) (hp key b hb)

theorem Agree.of_eq (h : Agree s) (hc : s'.current = s.current)
    (hp : s'.previous = s.previous) : Agree s' :=
  h.of_subset (fun _ _ => by rw [hc]; exact id) (fun _ _ => by rw [hp]; exact id)

theorem Agree.remove (h : Agree s) (hc : s'.current = (s.removeIfSame key i).current)
    (hp : s'.previous = (s.removeIfSame key i).previous) : Agree s' := by
  refine h.of_subset (fun k a ha => ?_) (fun k a ha => ?_)
  · rw [hc] at ha
    exact (removeIfSame_some s key i).1 ha
  · rw [hp] at ha
    exact (removeIfSame_some s key i).2 ha

theorem MapStep.agree (hm : MapStep s key pc o s') (h : Agree s) : Agree s' := by
  cases hm with
  | same hc hp => exact h.of_eq hc hp
  | insert new hnone hkey hitems hc hp =>
    intro k a b ha hb
    rw [hc] at ha
    rw [hp] at hb
    rcases lookup_insert_some ha with ⟨rfl, -⟩ | ha
    · simp [h.find (.inr hb)] at hnone
    · exact h k a b ha hb
  | relocate x hpc hprev hc hp =>
    intro k a b ha hb
    rw [hc] at ha
    rw [hp] at hb
    obtain ⟨hk, hb⟩ := lookup_erase_some hb
    rcases lookup_insert_some ha with ⟨hkey, -⟩ | ha
    · exact absurd hkey hk
    · exact h k a b ha hb
  | lose x hpc hprev hc hp =>
    refine h.of_subset (fun k a ha => ?_) (fun k a ha => ?_)
    · rw [hc] at ha
      exact ha
    · rw [hp] at ha
      exact (lookup_erase_some ha).2
  | remove x eviction k hpc hc hp => exact h.remove hc hp

theorem rotate_agree {fails : Option Nat} (h : Agree s) (hs : s.rotate fails = some s') :
    Agree s' := by
  intro k a b ha hb
  obtain ⟨hfind, hfrom⟩ := rotate_findItemLocked hs k
  have hfinda : s'.findItemLocked k = some a := by
    unfold findItemLocked
    rw [ha]
    rfl
  rw [hfind, h.find (hfrom b (.inr hb))] at hfinda
  exact (some.inj hfinda).symm

theorem step_agree (hi : Inv s) (h : Agree s) (hs : step s a = some s') : Agree s' := by
  cases a with
  | join d o =>
    obtain ⟨j, -, he⟩ := hi.joinEffect hs
    exact he.maps.agree h
  | _ =>
    cases (hi.otherEffect hs (by simp)).maps with
    | same hc hp => exact h.of_eq hc hp
    | remove _ _ _ _ hc hp => exact h.remove hc hp
    | clear hc =>
      intro k a b ha
      simp [hc, AList.lookup_empty] at ha
    | rotate _ _ hrotate => exact rotate_agree h hrotate

/-- A renewal's entry in the previous generation is the one that looking up finds. -/
theorem Agree.of_previous (h : Agree s) {x : ItemId} (hfind : s.findItemLocked key = some i)
    (hprev : s.previous.lookup key = some x) : i = x :=
  some.inj (hfind.symm.trans (h.find (.inr hprev)))

/-- A step of a call neither registers an item that exists nor takes it out, unless it removes
    it or its move to the current generation fails. -/
theorem MapStep.registered {k : K} (hm : MapStep s key pc o s') (h : Agree s)
    (hlt : i < s.items.length) (hremove : ∀ eviction r, pc ≠ .removing i eviction r)
    (hlose : pc ≠ .relocating i ∨ s'.findItemLocked key = some i) :
    s'.findItemLocked k = some i ↔ s.findItemLocked k = some i := by
  constructor
  · intro hfind
    rcases hm.origin (registered_of_find hfind) with hreg | ⟨-, hnew, -⟩
    · exact h.find hreg
    · exact absurd hnew (Nat.ne_of_lt hlt)
  · intro hfind
    refine hm.find (fun x hpc hprev hk => ?_) hremove hfind
    subst hk
    obtain rfl := h.of_previous hfind hprev
    exact ⟨rfl, fun _ => hlose.resolve_left (fun hne => hne hpc)⟩

theorem JoinPc.active_of_inside (h : pc.inside = some i) : pc.active := by
  cases pc <;> first | rfl | cases h

/-- A call inside an item is an active operation. -/
theorem LifeInv.active (hl : LifeInv s) (hj : s.calls[c]? = some j) (hin : j.pc.inside = some i) :
    s.activeOperations ≠ 0 := by
  intro hzero
  have hact := hl.not_active hzero hj
  simp [JoinPc.active_of_inside hin] at hact

/-- **The others leave the registration alone.** -/
theorem step_registered {k : K} (hi : Inv s) (hg : Agree s) (hj : s.calls[c]? = some j)
    (hin : j.pc.inside = some i) (hit : s.items[i]? = some it) (hp : it.processed = false)
    (ha : ∀ o, a ≠ .join c o) (hs : step s a = some s') :
    s'.findItemLocked k = some i ↔ s.findItemLocked k = some i := by
  cases a with
  | join d o =>
    obtain ⟨jd, hjd, he⟩ := hi.joinEffect hs
    refine he.maps.registered hg (lt_of_getElem? hit) ?_ (.inl ?_)
    · intro eviction r hpc
      obtain ⟨itd, hitd, -, -, hflag⟩ := hi.threads.calls d jd hjd i (by rw [hpc]; rfl)
      cases hitd.symm.trans hit
      rw [hflag true (by rw [hpc]; rfl)] at hp
      cases hp
    · intro hpc
      have hd : d = c := hi.threads.inside_unique hj hjd hin (by rw [hpc]; rfl)
      exact ha o (by rw [hd])
  | _ =>
    have hm := (hi.otherEffect hs (by simp)).maps
    refine ⟨fun hfind => hg.find (hm.origin (registered_of_find hfind)), fun hfind => ?_⟩
    exact (hm.find hit hp hfind).resolve_right (fun h => hi.life.active hj hin h.2)

/-! ### Expiry coroutines -/

/-- The coroutines are cancelled after the last operation only. -/
def DrainInv (s : State K V) : Prop :=
  s.expiryCancelled → s.lifeState.closed ∧ s.activeOperations = 0

theorem step_drainInv (hi : Inv s) (h : DrainInv s) (hs : step s a = some s') : DrainInv s' := by
  cases a with
  | join d o =>
    obtain ⟨j, hj, -, -, -, hcancel, -⟩ := hi.joinMoved hs
    obtain ⟨j₁, hj₁, he⟩ := hi.joinEffect hs
    intro hc
    obtain ⟨hclosed, hzero⟩ := h (hcancel.symm.trans hc)
    obtain ⟨_, -, -, -, -, -, hops⟩ := he.call
    rw [hops.life]
    exact ⟨hclosed, he.stays_drained hi.life hj₁ hzero hclosed⟩
  | _ =>
    have hm := step_other hi hs
    intro hc
    rw [hm.ops]
    rcases hm.cancelled with hsame | ⟨-, hdrained⟩
    · exact (h (hsame.symm.trans hc)).imp_left hm.closed
    · exact hdrained

/-- A step that only starts coroutines. -/
theorem Covered.of_append (h : Covered s.expiryTasks i g)
    (htasks : ∃ new, s'.expiryTasks = s.expiryTasks ++ new) : Covered s'.expiryTasks i g := by
  obtain ⟨new, heq⟩ := htasks
  rw [heq]
  exact h.append new

/-- **No step takes a coroutine away** that has still to look at an item some call is inside
    of. -/
theorem step_covered (hi : Inv s) (hd : DrainInv s) (hj : s.calls[c]? = some j)
    (hin : j.pc.inside = some i) (hs : step s a = some s') (h : Covered s.expiryTasks i g) :
    Covered s'.expiryTasks i g := by
  cases a with
  | join d o =>
    obtain ⟨jd, -, he⟩ := hi.joinEffect hs
    obtain ⟨new, heq, -⟩ := he.tasks
    exact h.of_append ⟨new, heq⟩
  | cancel k fails =>
    obtain ⟨new, heq, -⟩ := (cancelStep_effect (.stop 0) hs).tasks
    exact h.of_append ⟨new, heq⟩
  | expire t o =>
    obtain ⟨x, pc, hx, htasks, -, hm⟩ := expiryStep_moved hi.threads.tasks hs
    rw [htasks]
    refine exists_mem_set hx ?_ h
    rintro ⟨rfl, rfl, harmed⟩
    refine ⟨rfl, rfl, ?_⟩
    obtain ⟨it, hit, hmu⟩ := hi.threads.holds hj hin
    obtain ⟨it', hit', hmu', -⟩ := hi.threads.tasks t x hx
    cases hit.symm.trans hit'
    have hnot : x.pc ≠ .inspecting := by
      intro hpc
      rw [hmu' (by rw [hpc]; rfl)] at hmu
      cases hmu
    cases hm with
    | advance _ hfiring _ => exact ExpiryPc.armed_of_firing hfiring
    | quit hquit _ =>
      rcases hquit with hc | hgone
      · exact absurd (hd hc).2 (hi.life.active hj hin)
      · have halive : s.alive x.item := by
          have hany : s.calls.any (·.pc.item = some x.item) :=
            any_eq_true.mpr ⟨j, mem_of_getElem? hj, decide_eq_true (JoinPc.item_of_inside hin)⟩
          simp [alive, hany]
        simp [hgone] at halive
    | skip _ hpc | mark _ hpc => exact absurd hpc hnot
    | release _ hpc | finish hpc => simp [harmed] at hpc
  | stop n =>
    rw [(stopStep_effect hi.threads.stops hs).tasks]
    exact h
  | _ =>
    rw [(step_quiet rfl hs).tasks]
    exact h

end ServiceLib.Join
