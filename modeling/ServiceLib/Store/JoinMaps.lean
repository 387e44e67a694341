import ServiceLib.Store.JoinFiring

namespace ServiceLib.Join

/-!
# Join storage — the registry

The two generations of the map as one registry, `findItemLocked`.
-/

open List Option State AList

variable {K V : Type} [DecidableEq K] {s s' : State K V}

/-! ### Lookups -/

/-- `removeIfSame` forgets an entry for the item, and no other. -/
theorem removeIfSame_lookup (s : State K V) (key : K) (i : ItemId) (k : K) :
    ((s.removeIfSame key i).current.lookup k = s.current.lookup k ∨
      (k = key ∧ s.current.lookup k = some i ∧ (s.removeIfSame key i).current.lookup k = none)) ∧
    ((s.removeIfSame key i).previous.lookup k = s.previous.lookup k ∨
      (k = key ∧ s.previous.lookup k = some i ∧
        (s.removeIfSame key i).previous.lookup k = none)) := by
  unfold removeIfSame
  by_cases hk : k = key
  · subst hk
    split
    next hc => exact ⟨.inr ⟨rfl, hc, lookup_erase _ _⟩, .inl rfl⟩
    next hc =>
      split
      next hp => exact ⟨.inl rfl, .inr ⟨rfl, hp, lookup_erase _ _⟩⟩
      next hp => exact ⟨.inl rfl, .inl rfl⟩
  · split
    · exact ⟨.inl (lookup_erase_ne hk), .inl rfl⟩
    · split
      · exact ⟨.inl rfl, .inl (lookup_erase_ne hk)⟩
      · exact ⟨.inl rfl, .inl rfl⟩

variable {k key : K} {i : ItemId} {n : Nat} {fails : Option Nat} {m : Generation K} {o : Outcome V}
  {pc : JoinPc}

/-- What is found after `removeIfSame` was there before. -/
theorem removeIfSame_some (s : State K V) (key : K) (x : ItemId) :
    ((s.removeIfSame key x).current.lookup k = some i → s.current.lookup k = some i) ∧
      ((s.removeIfSame key x).previous.lookup k = some i → s.previous.lookup k = some i) := by
  obtain ⟨hcur, hprev⟩ := removeIfSame_lookup s key x k
  refine ⟨fun h => ?_, fun h => ?_⟩
  · rcases hcur with heq | ⟨-, -, hnone⟩
    · exact heq.symm.trans h
    · simp [hnone] at h
  · rcases hprev with heq | ⟨-, -, hnone⟩
    · exact heq.symm.trans h
    · simp [hnone] at h

/-- The entries that are rescued come after those already there. -/
theorem rescue_lookup (m : Generation K) (entries : List (Sigma fun _ : K => ItemId)) (k : K) :
    (rescue m entries).lookup k = (m.lookup k).or (entries.dlookup k) := by
  induction entries generalizing m with
  | nil =>
    show m.lookup k = _
    rw [dlookup_nil, or_none]
  | cons e rest ih =>
    show (rescue (if (m.lookup e.1).isSome then m else m.insert e.1 e.2) rest).lookup k = _
    rw [ih]
    obtain ⟨key, i⟩ := e
    by_cases hk : k = key
    · subst hk
      rw [dlookup_cons_eq]
      cases hm : m.lookup k with
      | none =>
        rw [if_neg (by decide), lookup_insert]
        rfl
      | some x =>
        rw [if_pos isSome_some, hm]
        rfl
    · rw [dlookup_cons_ne rest ⟨key, i⟩ hk]
      split
      · rfl
      · rw [lookup_insert_ne hk]

/-- What is found among the first entries is found among all. -/
theorem dlookup_take {entries : List (Sigma fun _ : K => ItemId)}
    (h : (entries.take n).dlookup k = some i) : entries.dlookup k = some i := by
  rw [← take_append_drop n entries, dlookup_append, h]
  rfl

/-- **Rotation keeps the registry**, whether it succeeds or fails. -/
theorem rotate_findItemLocked (hs : s.rotate fails = some s') (k : K) :
    s'.findItemLocked k = s.findItemLocked k ∧
      ∀ i, s'.current.lookup k = some i ∨ s'.previous.lookup k = some i →
        s.current.lookup k = some i ∨ s.previous.lookup k = some i := by
  unfold State.rotate at hs
  split at hs
  · cases hs
  · split at hs
    · cases hs
      exact ⟨rfl, fun i h => h⟩
    · simp only at hs
      split at hs
      · cases hs
        exact ⟨rfl, fun i h => h⟩
      · split at hs
        next n =>
          cases hs
          -- Some entries are now in both generations, for the same item.
          have hlook := rescue_lookup s.current (s.previous.entries.take n) k
          refine ⟨?_, fun i h => ?_⟩
          · show or _ (s.previous.lookup k) = or _ (s.previous.lookup k)
            rw [hlook]
            cases hc : s.current.lookup k with
            | some x => rfl
            | none =>
              cases ht : (s.previous.entries.take n).dlookup k with
              | none => rfl
              | some x => exact (dlookup_take ht).symm
          · rcases h with h | h
            · have h : (rescue s.current (s.previous.entries.take n)).lookup k = some i := h
              rw [hlook, or_eq_some_iff] at h
              rcases h with h | ⟨-, h⟩
              · exact .inl h
              · exact .inr (dlookup_take h)
            · exact .inr h
        next =>
          cases hs
          have hlook := rescue_lookup s.current s.previous.entries k
          refine ⟨?_, fun i h => ?_⟩
          · show or ((∅ : Generation K).lookup k)
              ((rescue s.current s.previous.entries).lookup k) = _
            rw [lookup_empty, hlook]
            rfl
          · rcases h with h | h
            · have h : (∅ : Generation K).lookup k = some i := h
              simp [lookup_empty] at h
            · have h : (rescue s.current s.previous.entries).lookup k = some i := h
              rw [hlook, or_eq_some_iff] at h
              rcases h with h | ⟨-, h⟩
              · exact .inl h
              · exact .inr h

/-- What `rotate` leaves alone. -/
theorem rotate_frame (hs : s.rotate fails = some s') :
    ∃ current previous count highWaterMark rotation, s' = { s with
      current := current, previous := previous, count := count
      highWaterMark := highWaterMark, rotation := rotation } := by
  unfold State.rotate at hs
  split at hs
  · cases hs
  · split at hs
    · cases hs
      exact ⟨_, _, _, _, _, rfl⟩
    · simp only at hs
      split at hs
      · cases hs
        exact ⟨_, _, _, _, _, rfl⟩
      · split at hs <;> cases hs <;> exact ⟨_, _, _, _, _, rfl⟩

/-! ### Keys -/

/-- The registry leads to an item that was in it before, or to one made for the key. -/
def MapsFrom (s s' : State K V) : Prop :=
  ∀ key (i : ItemId), s'.current.lookup key = some i ∨ s'.previous.lookup key = some i →
    (s.current.lookup key = some i ∨ s.previous.lookup key = some i) ∨
      ∃ it, s'.items[i]? = some it ∧ it.key = key

theorem KeysOk.step {h : Holder} (hk : KeysOk s) (hitems : ItemsStep h s s')
    (hmaps : MapsFrom s s') : KeysOk s' := by
  intro key i hreg
  rcases hmaps key i hreg with hreg | hnew
  · obtain ⟨it, hit, hkey⟩ := hk key i hreg
    obtain ⟨it', hit', hs⟩ := hitems.keeps i it hit
    exact ⟨it', hit', hs.key.trans hkey⟩
  · exact hnew

theorem MapsFrom.of_eq (hc : s'.current = s.current) (hp : s'.previous = s.previous) :
    MapsFrom s s' := by
  intro key i hreg
  rw [hc, hp] at hreg
  exact .inl hreg

theorem MapsFrom.of_remove (hc : s'.current = (s.removeIfSame key i).current)
    (hp : s'.previous = (s.removeIfSame key i).previous) : MapsFrom s s' := by
  intro k x hreg
  rw [hc, hp] at hreg
  exact .inl (hreg.imp (removeIfSame_some s key i).1 (removeIfSame_some s key i).2)

theorem lookup_erase_some (h : (m.erase key).lookup k = some i) :
    k ≠ key ∧ m.lookup k = some i := by
  by_cases hk : k = key
  · subst hk
    simp [lookup_erase] at h
  · rw [lookup_erase_ne hk] at h
    exact ⟨hk, h⟩

theorem lookup_insert_some {x : ItemId} (h : (m.insert key x).lookup k = some i) :
    (k = key ∧ i = x) ∨ m.lookup k = some i := by
  by_cases hk : k = key
  · subst hk
    rw [lookup_insert] at h
    exact .inl ⟨rfl, (some.inj h).symm⟩
  · rw [lookup_insert_ne hk] at h
    exact .inr h

/-- Where an entry comes from: it was there, or it is for a new item. -/
theorem MapStep.origin (hm : MapStep s key pc o s')
    (h : s'.current.lookup k = some i ∨ s'.previous.lookup k = some i) :
    (s.current.lookup k = some i ∨ s.previous.lookup k = some i) ∨
      (k = key ∧ i = s.items.length ∧ ∃ it, it.key = key ∧ s'.items = s.items ++ [it]) := by
  cases hm with
  | same hc hp =>
    rw [hc, hp] at h
    exact .inl h
  | insert it hnone hkey hitems hc hp =>
    rw [hc, hp] at h
    rcases h with h | h
    · rcases lookup_insert_some h with ⟨rfl, rfl⟩ | h
      · exact .inr ⟨rfl, rfl, it, hkey, hitems⟩
      · exact .inl (.inl h)
    · exact .inl (.inr h)
  | relocate x hpc hprev hc hp =>
    rw [hc, hp] at h
    left
    rcases h with h | h
    · rcases lookup_insert_some h with ⟨rfl, rfl⟩ | h
      · exact .inr hprev
      · exact .inl h
    · exact .inr (lookup_erase_some h).2
  | lose x hpc hprev hc hp =>
    rw [hc, hp] at h
    left
    rcases h with h | h
    · exact .inl h
    · exact .inr (lookup_erase_some h).2
  | remove x eviction r hpc hc hp =>
    rw [hc, hp] at h
    exact .inl (h.imp (removeIfSame_some s key x).1 (removeIfSame_some s key x).2)

/-- Where the entries of the next state come from. -/
theorem MapStep.mapsFrom (hm : MapStep s key pc o s') :
    MapsFrom s s' := by
  intro k i hreg
  rcases hm.origin hreg with hreg | ⟨rfl, rfl, it, hkey, hitems⟩
  · exact .inl hreg
  · exact .inr ⟨it, by rw [hitems, getElem?_concat_length], hkey⟩

theorem stopStep_mapsFrom (hs : s.stopStep n = some s') : MapsFrom s s' := by
  obtain ⟨pc, -, hm⟩ := stopStep_cases hs
  cases hm with
  | close | walk | lock | reset | cancel => exact .of_eq rfl rfl
  | clear =>
    intro key i hreg
    simp [lookup_empty] at hreg

/-! ### Steps of no thread -/

/-- Whether an action is taken by no thread of the storage. -/
def Action.quiet : Action K V → Bool
  | .join .. | .cancel .. | .expire .. | .stop _ => false
  | _ => true

/-- What a step does that is taken by no thread of the storage. -/
structure QuietEffect (s : State K V) (a : Action K V) (s' : State K V) : Prop where
  items : s'.items = s.items
  tasks : s'.expiryTasks = s.expiryTasks
  cancelled : s'.expiryCancelled = s.expiryCancelled
  config : s'.config = s.config
  ops : s'.activeOperations = s.activeOperations
  appends : s'.appends = s.appends
  expiries : s'.expiries = s.expiries
  completions : s'.completions = s.completions
  calls : s'.calls = s.calls ∨ ∃ j, s'.calls = s.calls ++ [j] ∧ j.pc = .entered
  stops : s'.stops = s.stops ∨ s'.stops = s.stops ++ [.entered]
  /-- Only a storage that was never started changes its state. -/
  life : s'.lifeState = s.lifeState ∨ (s.lifeState = .created ∧ s'.lifeState ≠ .stopped)
  maps : (s'.current = s.current ∧ s'.previous = s.previous ∧ s'.count = s.count) ∨
    ∃ fails, a = .rotate fails ∧ s.rotate fails = some s'

variable {a : Action K V}

theorem step_quietEffect (ha : a.quiet) (hs : step s a = some s') : QuietEffect s a s' := by
  cases a with
  | join | cancel | expire | stop => cases ha
  | rotate fails =>
    have hrotate : s.rotate fails = some s' := hs
    obtain ⟨_, _, _, _, _, rfl⟩ := rotate_frame hrotate
    exact ⟨rfl, rfl, rfl, rfl, rfl, rfl, rfl, rfl, .inl rfl, .inl rfl, .inl rfl,
      .inr ⟨fails, rfl, hrotate⟩⟩
  | start fails =>
    cases hs
    unfold start
    split
    next hlife =>
      split <;> exact ⟨rfl, rfl, rfl, rfl, rfl, rfl, rfl, rfl, .inl rfl, .inl rfl,
        .inr ⟨hlife, nofun⟩, .inl ⟨rfl, rfl, rfl⟩⟩
    next =>
      exact ⟨rfl, rfl, rfl, rfl, rfl, rfl, rfl, rfl, .inl rfl, .inl rfl, .inl rfl,
        .inl ⟨rfl, rfl, rfl⟩⟩
  | callJoin ctx key index value =>
    cases hs
    exact ⟨rfl, rfl, rfl, rfl, rfl, rfl, rfl, rfl, .inr ⟨_, rfl, rfl⟩, .inl rfl, .inl rfl,
      .inl ⟨rfl, rfl, rfl⟩⟩
  | callStop =>
    cases hs
    exact ⟨rfl, rfl, rfl, rfl, rfl, rfl, rfl, rfl, .inl rfl, .inr rfl, .inl rfl,
      .inl ⟨rfl, rfl, rfl⟩⟩
  | fire τ =>
    cases hs
    exact ⟨rfl, rfl, rfl, rfl, rfl, rfl, rfl, rfl, .inl rfl, .inl rfl, .inl rfl,
      .inl ⟨rfl, rfl, rfl⟩⟩
  | tick | countRotation =>
    simp only [step] at hs
    split at hs <;> cases hs
    exact ⟨rfl, rfl, rfl, rfl, rfl, rfl, rfl, rfl, .inl rfl, .inl rfl, .inl rfl,
      .inl ⟨rfl, rfl, rfl⟩⟩

theorem QuietEffect.mapsFrom (hq : QuietEffect s a s') : MapsFrom s s' := by
  rcases hq.maps with ⟨hc, hp, -⟩ | ⟨fails, -, hs⟩
  · exact .of_eq hc hp
  · exact fun k i h => .inl ((rotate_findItemLocked hs k).2 i h)

theorem findItemLocked_congr (hc : s'.current = s.current) (hp : s'.previous = s.previous) (k : K) :
    s'.findItemLocked k = s.findItemLocked k := by
  rw [findItemLocked, findItemLocked, hc, hp]

end ServiceLib.Join
