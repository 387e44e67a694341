import ServiceLib.Store.JoinLifecycle

namespace ServiceLib.Join

/-!
# Join storage — the representation

The storage keeps its items in two generations of the map and counts them.  This module shows
that the three agree in every run in which no entry is lost on its way from one generation to
the other.
-/

open List Option AList State

variable {K V : Type} [DecidableEq K] {s s' : State K V}

/-! ### What a step does to the registry -/

/-- No entry is lost, or left in both generations, because an insertion fails. -/
def entriesMove (s : State K V) (a : Action K V) : Prop :=
  renewalsReinsert s a ∧ ∀ n, a ≠ .rotate (some n)

instance (s : State K V) (a : Action K V) : Decidable (entriesMove s a) :=
  match a with
  | .rotate (some n) => isFalse (fun h => h.2 n rfl)
  | .rotate none => isTrue ⟨rfl, nofun⟩
  | .join c o =>
    decidable_of_iff (renewalsReinsert s (.join c o)) ⟨fun h => ⟨h, nofun⟩, fun h => h.1⟩
  | .tick _ | .fire _ | .start _ | .callJoin .. | .cancel .. | .expire .. | .countRotation
  | .callStop | .stop _ => isTrue ⟨rfl, nofun⟩

/-- What a step does to the two generations and the count. -/
inductive RegistryStep (s s' : State K V) : Prop
  | same : s'.current = s.current → s'.previous = s.previous → s'.count = s.count →
      RegistryStep s s'
  | insert (key : K) : s.findItemLocked key = none →
      s'.current = s.current.insert key s.items.length → s'.previous = s.previous →
      s'.count = s.count + 1 → RegistryStep s s'
  /-- A renewal moves its entry. -/
  | relocate (key : K) (i : ItemId) : s.previous.lookup key = some i →
      s'.current = s.current.insert key i → s'.previous = s.previous.erase key →
      s'.count = s.count → RegistryStep s s'
  | remove (key : K) (i : ItemId) : s'.current = (s.removeIfSame key i).current →
      s'.previous = (s.removeIfSame key i).previous →
      s'.count = (s.removeIfSame key i).count → RegistryStep s s'
  /-- A rotation makes the entries of both the previous generation. -/
  | rotate : s'.current = ∅ → s'.previous = rescue s.current s.previous.entries →
      s'.count = s.count -
        ((s.previous.entries.length - rescued s.current s.previous.entries : Nat) : Int) →
      RegistryStep s s'
  /-- `stop` clears the maps. -/
  | clear : s'.current = ∅ → s'.previous = ∅ → s'.count = 0 → RegistryStep s s'

variable {j : JoinCall K V} {c : CallId} {o : Outcome V} {i : ItemId} {m : Generation K} {key : K}

theorem MapStep.registry {pc : JoinPc} (hm : MapStep s key pc o s')
    (hkept : ∀ i, pc = .relocating i → s.previous.lookup key = some i → ¬ o.fails) :
    RegistryStep s s' := by
  cases hm with
  | same hc hp hn => exact .same hc hp hn
  | insert _ hnone _ _ hc hp hn => exact .insert key hnone hc hp hn
  | relocate i _ hprev hc hp hn => exact .relocate key i hprev hc hp hn
  | lose i hpc hprev _ _ hfails => exact absurd hfails (hkept i hpc hprev)
  | remove i _ _ _ hc hp hn => exact .remove key i hc hp hn

/-- A rotation that runs to its end. -/
theorem rotate_registry (hs : s.rotate none = some s') : RegistryStep s s' := by
  unfold State.rotate at hs
  grind [RegistryStep]

/-- Everything a step can do to the two generations and to the count. -/
theorem step_registry {a : Action K V} (hi : Inv s) (hok : entriesMove s a)
    (hs : step s a = some s') : RegistryStep s s' := by
  cases a with
  | join c o =>
    obtain ⟨j, hj, he⟩ := hi.joinEffect hs
    exact he.maps.registry (fun i hpc hprev => hok.1.insertion hj hpc hprev)
  | _ =>
    cases (hi.otherEffect hs (by simp)).maps with
    | same hc hp hn => exact .same hc hp hn
    | remove _ _ _ _ hc hp hn => exact .remove _ _ hc hp hn
    | clear hc hp hn => exact .clear hc hp hn
    | rotate fails ha hrotate =>
      cases fails with
      | none => exact rotate_registry hrotate
      | some n => exact absurd ha (hok.2 n)

/-! ### Sizes -/

theorem length_insert (i : ItemId) (h : key ∉ m) :
    (m.insert key i).entries.length = m.entries.length + 1 := by
  rw [entries_insert_of_notMem h, length_cons]

theorem length_erase (h : key ∈ m) : (m.erase key).entries.length + 1 = m.entries.length := by
  have hkeys : ∀ m : Generation K, m.entries.length = m.keys.length :=
    fun m => (length_map _).symm
  have hpos : 0 < m.keys.length := length_pos_of_mem (mem_keys.mp h)
  rw [hkeys, hkeys, keys_erase, length_erase_of_mem (mem_keys.mp h)]
  omega

/-- Where no entry is for a key already there, all of them are inserted. -/
theorem length_rescue (m : Generation K) (entries : List (Sigma fun _ : K => ItemId))
    (hnodup : entries.NodupKeys) (hnew : ∀ e ∈ entries, e.1 ∉ m) :
    (rescue m entries).entries.length = m.entries.length + entries.length := by
  induction entries generalizing m with
  | nil => rfl
  | cons e rest ih =>
    have he : e.1 ∉ m := hnew e mem_cons_self
    have hrest : ∀ x ∈ rest, x.1 ∉ m.insert e.1 e.2 := by
      intro x hx hmem
      rcases (mem_insert m).mp hmem with heq | hmem
      · refine (nodupKeys_cons.mp hnodup).1 ?_
        rw [← heq]
        exact mem_keys_of_mem hx
      · exact hnew x (mem_cons_of_mem e hx) hmem
    show (rescue (if (m.lookup e.1).isSome then m else m.insert e.1 e.2) rest).entries.length
      = _
    rw [if_neg (fun h => he (lookup_isSome.mp h)),
      ih _ (nodupKeys_cons.mp hnodup).2 hrest, length_insert _ he, length_cons]
    omega

/-- New keys are all rescued. -/
theorem rescued_eq_length (m : Generation K) (entries : List (Sigma fun _ : K => ItemId))
    (hnew : ∀ e ∈ entries, e.1 ∉ m) : rescued m entries = entries.length := by
  refine countP_eq_length.mpr (fun e he => ?_)
  rw [lookup_eq_none.mpr (hnew e he)]
  rfl

/-! ### The invariant -/

/-- The generations share no key, and the count is the number of their entries. -/
structure Counted (s : State K V) : Prop where
  disjoint : s.current.Disjoint s.previous
  count : s.count = s.current.entries.length + s.previous.entries.length

theorem Counted.notMem_previous (h : Counted s) (hmem : key ∈ s.current) : key ∉ s.previous := by
  intro hprev
  exact h.disjoint key (mem_keys.mp hmem) (mem_keys.mp hprev)

omit [DecidableEq K] in
theorem disjoint_of_notMem {n : Generation K} (h : ∀ key ∈ m, key ∉ n) : m.Disjoint n := by
  intro key hm hn
  exact h key (mem_keys.mpr hm) (mem_keys.mpr hn)

theorem findItemLocked_eq_none (h : s.findItemLocked key = none) :
    key ∉ s.current ∧ key ∉ s.previous := by
  unfold findItemLocked at h
  rw [or_eq_none_iff] at h
  exact ⟨lookup_eq_none.mp h.1, lookup_eq_none.mp h.2⟩

theorem mem_of_lookup (h : m.lookup key = some i) : key ∈ m := by
  rw [← lookup_isSome, h]
  rfl

theorem Counted.removeIfSame (h : Counted s) (key : K) (i : ItemId) :
    Counted (s.removeIfSame key i) := by
  have hcount := h.count
  unfold State.removeIfSame
  split
  next hcur =>
    have hlen := length_erase (mem_of_lookup hcur)
    refine ⟨disjoint_of_notMem (fun k hk => ?_), ?_⟩
    · exact h.notMem_previous (mem_erase.mp hk).2
    · show s.count - 1 = ((s.current.erase key).entries.length : Int) + s.previous.entries.length
      omega
  next =>
    split
    next hprev =>
      have hlen := length_erase (mem_of_lookup hprev)
      refine ⟨disjoint_of_notMem (fun k hk hk' => ?_), ?_⟩
      · exact h.notMem_previous hk (mem_erase.mp hk').2
      · show s.count - 1 = (s.current.entries.length : Int) + (s.previous.erase key).entries.length
        omega
    next => exact h

/-- Every step counts what it inserts or removes. -/
theorem Counted.step (h : Counted s) (hstep : RegistryStep s s') : Counted s' := by
  have hcount := h.count
  cases hstep with
  | same hc hp hn =>
    refine ⟨?_, ?_⟩
    · rw [hc, hp]
      exact h.disjoint
    · rw [hc, hp, hn]
      exact h.count
  | insert key hnone hc hp hn =>
    obtain ⟨hcur, hprev⟩ := findItemLocked_eq_none hnone
    refine ⟨disjoint_of_notMem (fun k hk => ?_), ?_⟩
    · rw [hp]
      rw [hc] at hk
      rcases (mem_insert _).mp hk with rfl | hk
      · exact hprev
      · exact h.notMem_previous hk
    · rw [hc, hp, hn, length_insert _ hcur]
      omega
  | relocate key i hi hc hp hn =>
    -- The key leaves one map for the other.
    have hmem := mem_of_lookup hi
    have hcur : key ∉ s.current := fun hk => h.notMem_previous hk hmem
    have hlen := length_erase hmem
    refine ⟨disjoint_of_notMem (fun k hk hk' => ?_), ?_⟩
    · rw [hp] at hk'
      obtain ⟨hne, hk'⟩ := mem_erase.mp hk'
      rw [hc] at hk
      rcases (mem_insert _).mp hk with rfl | hk
      · exact hne rfl
      · exact h.notMem_previous hk hk'
    · rw [hc, hp, hn, length_insert _ hcur]
      omega
  | remove key i hc hp hn =>
    have hremoved := h.removeIfSame key i
    refine ⟨?_, ?_⟩
    · rw [hc, hp]
      exact hremoved.disjoint
    · rw [hc, hp, hn]
      exact hremoved.count
  | rotate hc hp hn =>
    have hnew : ∀ e ∈ s.previous.entries, e.1 ∉ s.current := by
      intro e he hk
      exact h.notMem_previous hk (mem_keys.mpr (mem_keys_of_mem he))
    refine ⟨disjoint_of_notMem (fun k hk => ?_), ?_⟩
    · rw [hc] at hk
      exact absurd hk (notMem_empty k)
    · -- Nothing is evicted: every key of the previous generation is new to the current one.
      rw [hc, hp, hn, rescued_eq_length _ _ hnew, length_rescue _ _ s.previous.nodupKeys hnew,
        empty_entries, length_nil]
      omega
  | clear hc hp hn =>
    refine ⟨disjoint_of_notMem (fun k hk => ?_), ?_⟩
    · rw [hc] at hk
      exact absurd hk (notMem_empty k)
    · rw [hc, hp, hn]
      rfl

/-- The size is counted right in every run. -/
theorem reachable_counted {config : JoinStorageConfig}
    (h : (system K V config).ReachableIf entriesMove s) : Counted s := by
  refine h.invariant ?_ ?_
  · exact ⟨disjoint_of_notMem (fun k hk => absurd hk (notMem_empty k)), rfl⟩
  · intro t a t' hreach ht hok hs
    exact ht.step (step_registry (reachable_inv hreach.reachable) hok hs)

/-! ### The representation -/

/-- What the maps, the count and the items say about each other. -/
structure Representation (s : State K V) : Prop where
  disjoint : s.current.Disjoint s.previous
  count : s.count = s.current.entries.length + s.previous.entries.length
  /-- A rotation, also one that fails, leads every key to the item it led to before. -/
  rotation_keeps : ∀ fails s', step s (.rotate fails) = some s' →
    ∀ key, s'.findItemLocked key = s.findItemLocked key
  /-- An unprocessed item is the one registered for its key. -/
  registered : ∀ (i : ItemId) it, s.items[i]? = some it → it.processed = false →
    s.findItemLocked it.key = some i
  unique : ∀ (i k : ItemId) it kt, s.items[i]? = some it → s.items[k]? = some kt →
    it.processed = false → kt.processed = false → it.key = kt.key → i = k

/-- **The representation of the join storage.**  In every state reached before `stop` clears the
    maps, by threads that lose no entry to a failed insertion, the two generations share no key
    and the count is the number of their entries; a rotation forgets no key; and each key has at
    most one unprocessed item, the one registered for it. -/
theorem joinStorage_representation (config : JoinStorageConfig) (s : State K V)
    (h : (system K V config).ReachableIf entriesMove s) (hrun : s.lifeState ≠ .stopped) :
    Representation s := by
  have hcounted := reachable_counted h
  have hreg : RegInv s := reachable_regInv (h.mono (fun _ _ hok => hok.1))
  refine ⟨hcounted.disjoint, hcounted.count, ?_, hreg hrun, ?_⟩
  · intro fails s' hs key
    exact (rotate_findItemLocked hs key).1
  · intro i k it kt hit hkt hp hp' hkey
    have hi := hreg hrun i it hit hp
    rw [hkey, hreg hrun k kt hkt hp'] at hi
    exact (some.inj hi).symm

/-- The item of key 7 is rotated to the previous generation; then key 8 gets one in the
    current generation, and a value for key 7 waits to move its item there too. -/
def inBothGenerations : List (Action Nat Nat) :=
  [ firstJoin {}, [.rotate none, .callJoin {} 8 0 200],
    replicate 11 (.join 1 .go),
    [.callJoin {} 7 0 300],
    replicate 10 (.join 2 .go) ].flatten

/-- Both generations hold an item, and the renewal is about to move one. -/
def aboutToRelocate (s : State Nat Nat) : Bool :=
  s.current.keys = [8] && s.previous.keys = [7] && s.count = 2 && s.lifeState = .running &&
    s.calls[2]?.any (fun j => j.pc = .relocating 0)

theorem joinStorage_representation_renewing : ∃ s,
    (system Nat Nat renewing).ReachableIf entriesMove s ∧ aboutToRelocate s = true ∧
      Representation s := by
  obtain ⟨s, hs, hp⟩ := (system Nat Nat renewing).exists_reachableIf_of_run
    entriesMove inBothGenerations (aboutToRelocate · = true) (by decide +kernel)
  have hrun : s.lifeState ≠ .stopped := by
    unfold aboutToRelocate at hp
    simp only [Bool.and_eq_true, decide_eq_true_eq] at hp
    rw [hp.1.2]
    intro h
    cases h
  exact ⟨s, hs, hp, joinStorage_representation renewing s hs hrun⟩

end ServiceLib.Join
