import ServiceLib.Store.JoinThrow

namespace ServiceLib.Join

/-!
# Join storage — the strong exception guarantee

When a call that throws leaves its item as it was (`joinValue_unchanged_iff`), and two calls that do
not (`joinValue_failure_forgets`).
-/

open List

variable {K V : Type} [DecidableEq K] {s s' s₀ s₁ : State K V} {c : CallId} {i : ItemId}
  {j : JoinCall K V} {o : Outcome V}

/-! ### The configuration -/

variable {a : Action K V} {config : JoinStorageConfig}

/-- No step changes the configuration. -/
theorem step_config (hi : Inv s) (hs : step s a = some s') : s'.config = s.config := by
  cases a with
  | join c o =>
    obtain ⟨j, -, he⟩ := hi.joinEffect hs
    exact he.config
  | _ => exact (hi.otherEffect hs (by simp)).config

/-! ### While a call works on an item -/

/-- What holds of the storage in every reachable state. -/
structure Steady (config : JoinStorageConfig) (s : State K V) : Prop where
  inv : Inv s
  agree : Agree s
  drain : DrainInv s
  config : s.config = config

theorem Steady.step (h : Steady config s) (hs : step s a = some s') : Steady config s' :=
  ⟨step_inv h.inv hs, step_agree h.inv h.agree hs, step_drainInv h.inv h.drain hs,
    (step_config h.inv hs).trans h.config⟩

theorem steady_of_reachable (h : (system K V config).Reachable s) : Steady config s := by
  refine h.invariant (I := Steady config) ?_ (fun _ hi _ hs => hi.step hs)
  exact ⟨init_inv config, (fun key a b ha => by cases ha), (fun hc => by cases hc), rfl⟩

/-- Call `c` begins to work on item `i`, in state `s₁`: it has locked the item that it found in
    `s₀`, or it inserts a new one, which is not there in `s₀`. -/
inductive TakesUp (s₀ : State K V) (c : CallId) (i : ItemId) : State K V → Prop
  | found (j : JoinCall K V) : s₀.calls[c]? = some j → j.pc = .inspecting i false →
      TakesUp s₀ c i s₀
  | made (s₁ : State K V) (j : JoinCall K V) (deadline : Option Time) (o : Outcome V) :
      s₀.calls[c]? = some j → j.pc = .inserting deadline → s₀.joinStep c o = some s₁ →
      i = s₀.items.length → s₁.worksOn c i → TakesUp s₀ c i s₁

/-- Call `c` works on item `i`, as far as it has come. -/
structure Tenure (config : JoinStorageConfig) (ttl : Time) (s₀ s₁ : State K V) (c : CallId)
    (i : ItemId) (s : State K V) : Prop where
  steady : Steady config s
  stage : s.worksOn c i → ∃ j, s.calls[c]? = some j ∧ j.ttl = ttl ∧
    Stage (ttl > 0 ∧ config.renewTtl) s₁ i s₀.items[i]? s j

theorem Stage.item {renews : Prop} {orig : Option (Item K V)} (h : Stage renews s₁ i orig s j) :
    j.pc.item = some i := by
  cases h with
  | looking _ _ _ hpc | discarding hpc => rw [hpc]; rfl
  | held _ _ _ _ hin => exact JoinPc.item_of_inside hin
  | winding _ hitem => exact hitem

theorem not_worksOn (hj : s.calls[c]? = some j) (hitem : j.pc.item = none) : ¬ s.worksOn c i := by
  rw [State.worksOn, hj, Option.any_some, hitem]
  simp

theorem Tenure.step {ttl : Time} (hb : Begun s₀ s₁ i) (h : Tenure config ttl s₀ s₁ c i s)
    (hw : s.worksOn c i) (hs : step s a = some s') : Tenure config ttl s₀ s₁ c i s' := by
  obtain ⟨hi, hg, hd, hconfig⟩ := h.steady
  refine ⟨h.steady.step hs, fun hw' => ?_⟩
  obtain ⟨j, hj, httl, hstage⟩ := h.stage hw
  by_cases ha : ∃ o, a = .join c o
  · obtain ⟨o, rfl⟩ := ha
    have hrenews : (ttl > 0 ∧ config.renewTtl) ↔ j.ttl > 0 ∧ s.config.renewTtl := by
      rw [httl, hconfig]
    obtain ⟨pc, hcalls, honward⟩ := stage_own hb hi hg hd hj hrenews hstage hs
    have hj' : s'.calls[c]? = some { j with pc := pc } := by
      rw [hcalls]
      exact getElem?_set_some hj _
    cases honward with
    | stays hstage' => exact ⟨_, hj', httl, hstage'⟩
    | leaves hitem _ => exact absurd hw' (not_worksOn hj' hitem)
    | throws e hpc _ => exact absurd hw' (not_worksOn hj' (by rw [hpc]; rfl))
  · have ha : ∀ o, a ≠ .join c o := fun o h => ha ⟨o, h⟩
    exact ⟨j, step_call_other hi hj ha hs, httl, stage_other hi hg hd hj ha hs hstage⟩

/-- Nothing knows of an item that does not exist. -/
theorem absent_item (hi : Inv s) (hnone : s.items[i]? = none) :
    (∀ g, ¬ Covered s.expiryTasks i g) ∧ ∀ key, ¬ s.joins key i := by
  refine ⟨?_, ?_⟩
  · rintro g ⟨x, hx, rfl, -⟩
    obtain ⟨t, ht⟩ := getElem?_of_mem hx
    obtain ⟨it, hit, -⟩ := hi.threads.tasks t x ht
    simp [hnone] at hit
  · rintro key ⟨hfind, -⟩
    obtain ⟨it, hit, -⟩ := hi.keys.findItemLocked hfind
    simp [hnone] at hit

/-- The insertion of a new item. -/
theorem insert_made {deadline : Option Time} (hj : s.calls[c]? = some j)
    (hpc : j.pc = .inserting deadline) (hi : i = s.items.length)
    (hs : s.joinStep c o = some s') (hw : s'.worksOn c i) :
    ∃ it pc, s'.items[i]? = some it ∧ it.processed = false ∧
      s'.calls[c]? = some { j with pc := pc } ∧ pc.inside = some i ∧
      (∀ renews : Prop, Held renews it none pc) ∧ s'.findItemLocked j.key = some i := by
  have hset : ∀ new : JoinCall K V, (s.calls.set c new)[c]? = some new := fun new =>
    getElem?_set_some hj _
  subst hi
  simp only [State.joinStep, hj, hpc, JoinPc.item, JoinPc.inside, Option.bind_eq_bind,
    Option.bind_some, State.enterStep] at hs
  split at hs
  next k hfind =>
    cases hs
    rw [State.worksOn, show (s.setPc c j (.locking k)).calls[c]? = _ from hset _] at hw
    simp [JoinPc.item] at hw
  next hfind =>
    split at hs
    · cases hs
      exact absurd hw (not_worksOn (hset _) rfl)
    · cases hs
      refine ⟨_, _, getElem?_concat_length, rfl, hset _, ?_, ?_, ?_⟩
      · split <;> rfl
      · intro renews
        split
        · exact .creation rfl
        · exact .created
      · show ((s.current.insert j.key _).lookup j.key).or _ = _
        rw [AList.lookup_insert]
        rfl

theorem TakesUp.begun (h : TakesUp s₀ c i s₁) (hi : Inv s₀) : Begun s₀ s₁ i := by
  cases h with
  | found j hj hpc =>
    obtain ⟨it, hit, -⟩ := hi.threads.calls c j hj i (by rw [hpc]; rfl)
    exact .found it rfl hit
  | made _ j deadline o hj hpc hs hlen hw =>
    have hnone : s₀.items[i]? = none := by
      rw [hlen]
      exact getElem?_eq_none le_rfl
    obtain ⟨hcov, hjoins⟩ := absent_item hi hnone
    obtain ⟨_, _, -, -, -, -, -, hfind⟩ := insert_made hj hpc hlen hs hw
    exact .made j.key hnone hcov hjoins hfind

theorem TakesUp.tenure (h : TakesUp s₀ c i s₁) (hsteady : Steady config s₀) :
    ∃ ttl, Tenure config ttl s₀ s₁ c i s₁ := by
  cases h with
  | found j hj hpc =>
    obtain ⟨it, hit, -⟩ := hsteady.inv.threads.calls c j hj i (by rw [hpc]; rfl)
    refine ⟨j.ttl, hsteady, fun _ => ⟨j, hj, rfl, ?_⟩⟩
    cases hp : it.processed with
    | true => exact .discarding hpc ((isProcessed_of_item hit).trans hp)
    | false => exact .looking it it hit hpc hit hp (.refl it) (.refl s₀ i)
  | made _ j deadline o hj hpc hs hlen hw =>
    have hnone : s₀.items[i]? = none := by
      rw [hlen]
      exact getElem?_eq_none le_rfl
    obtain ⟨it, pc, hit, hp, hj', hin, hheld, -⟩ := insert_made hj hpc hlen hs hw
    have hs' : step s₀ (.join c o) = some s₁ := hs
    refine ⟨j.ttl, hsteady.step hs', fun _ => ⟨_, hj', rfl, ?_⟩⟩
    rw [hnone]
    exact .held it hit hp (by rintro it₀ ⟨⟩) hin (hheld _) (.refl s₁ i)

/-- Call `c` took up item `i` in `s₀`, has worked on it up to `s`, with the other threads moving
    as they like, and now throws `e` by a step that leads to `s'`. -/
structure Throws (config : JoinStorageConfig) (s₀ s : State K V) (c : CallId) (i : ItemId)
    (j : JoinCall K V) (o : Outcome V) (e : JoinError) (s' : State K V) : Prop where
  reachable : (system K V config).Reachable s₀
  takesUp : ∃ s₁, TakesUp s₀ c i s₁ ∧
    (system K V config).Steps (fun t _ => t.worksOn c i) s₁ s
  works : s.worksOn c i
  call : s.calls[c]? = some j
  step : s.joinStep c o = some s'
  thrown : ∃ j', s'.calls[c]? = some j' ∧ j'.pc = .leaving (some e)

/-- **The strong exception guarantee, and where it ends.**  When a call throws while it works on
    an item,
    the item is as it was, its values, deadline, generation, registration, coroutines and stop
    callback included, exactly when the call `Undoes` what it did: always when a new item could
    not be armed; when a renewal could not be armed, if no stop request could have reached the
    item before; when the callback threw, if the call renewed nothing and the callback itself put
    the values back. -/
theorem joinValue_unchanged_iff (config : JoinStorageConfig) {e : JoinError}
    (h : Throws config s₀ s c i j o e s') :
    Unchanged s₀ s' i ↔ Undoes (j.ttl > 0 ∧ config.renewTtl = true) s₀.items[i]? j o := by
  obtain ⟨hreach, ⟨s₁, htake, hrun⟩, hw, hj, hs, j', hj', hthrow⟩ := h
  have hsteady := steady_of_reachable hreach
  have hb := htake.begun hsteady.inv
  obtain ⟨ttl, hstart⟩ := htake.tenure hsteady
  have htenure : Tenure config ttl s₀ s₁ c i s := by
    refine hrun.preserves (I := Tenure config ttl s₀ s₁ c i) ?_ hstart
    exact fun ht hok hstep => ht.step hb hok hstep
  obtain ⟨hi, hg, hd, hconfig⟩ := htenure.steady
  obtain ⟨j₁, hj₁, rfl, hstage⟩ := htenure.stage hw
  obtain rfl : j₁ = j := Option.some.inj (hj₁.symm.trans hj)
  obtain ⟨pc, hcalls, honward⟩ := stage_own hb hi hg hd hj (by rw [hconfig]) hstage hs
  have hpc : j' = { j₁ with pc := pc } := by
    rw [hcalls, getElem?_set_some hj _] at hj'
    exact (Option.some.inj hj').symm
  have hleaving : pc = .leaving (some e) := by
    rw [hpc] at hthrow
    exact hthrow
  cases honward with
  | stays hstage' =>
    have hitem := hstage'.item
    rw [hleaving] at hitem
    cases hitem
  | leaves _ hne => exact absurd hleaving (hne e)
  | throws _ _ hiff => exact hiff

/-! ### Three calls that throw -/

/-- One call, with the context `ctx`, creates item 0 and returns; another has found and locked
    it. -/
def lockedAgain (ctx : Context) : List (Action Nat Nat) :=
  [firstJoin ctx, [.callJoin {} 7 0 200], replicate 4 (.join 1 .go)].flatten

/-- The second call renews the item and cannot subscribe; it is about to undo that. -/
def renewalFails : List (Action Nat Nat) := [.join 1 .go, .join 1 .go, .join 1 .fail]

/-- The second call renews the item and appends to it; it is about to call its callback. -/
def renewedAppended : List (Action Nat Nat) := replicate 8 (.join 1 .go)

/-- Call 1 has just locked item 0, works on it through `rest`, and throws by a step with outcome
    `o` that leads to a state with property `p`. -/
theorem exists_throws (ctx : Context) (rest : List (Action Nat Nat)) (o : Outcome Nat)
    (e : JoinError) (p : State Nat Nat → JoinCall Nat Nat → State Nat Nat → Prop)
    [∀ s₀ j s', Decidable (p s₀ j s')]
    (h : ((system Nat Nat renewing).run (lockedAgain ctx)).any (fun s₀ =>
      (∃ j, s₀.calls[1]? = some j ∧ j.pc = .inspecting 0 false) ∧
      (((system Nat Nat renewing).guarded (fun t _ => t.worksOn 1 0)).runFrom s₀ rest).any
        (fun s : State Nat Nat => s.worksOn 1 0 ∧ ∃ j, s.calls[1]? = some j ∧
          ∃ s', s.joinStep 1 o = some s' ∧
            (∃ j', s'.calls[1]? = some j' ∧ j'.pc = .leaving (some e)) ∧ p s₀ j s')) =
      true) : ∃ s₀ s j s', Throws renewing s₀ s 1 0 j o e s' ∧ p s₀ j s' := by
  obtain ⟨s₀, hreach, ⟨j₀, hj₀, hpc₀⟩, hrest⟩ := System.exists_reachable_of_run _ _ _ h
  obtain ⟨s, hsteps, hw, j, hj, s', hs, hleaves, hp⟩ :=
    System.exists_steps_of_run _ _ _ _ _ hrest
  exact ⟨s₀, s, j, s', ⟨hreach, ⟨s₀, .found j₀ hj₀ hpc₀, hsteps⟩, hw, hj, hs, hleaves⟩, hp⟩

/-- A renewal of an item that nobody can cancel fails, and leaves no trace. -/
theorem joinValue_unchanged_renewal : ∃ (s₀ s s' : State Nat Nat) (j : JoinCall Nat Nat),
    Throws renewing s₀ s 1 0 j .go .resource s' ∧ Unchanged s₀ s' 0 := by
  obtain ⟨s₀, s, j, s', h, ⟨it, hit, hlistens⟩, hpc⟩ := exists_throws {} renewalFails .go .resource
    (fun s₀ j _ => (∃ it, s₀.items[0]? = some it ∧ it.listens = false) ∧
      j.pc = .restoring 0 ⟨some 10, 1, 1, 0⟩ .resource) (by decide +kernel)
  refine ⟨s₀, s, s', j, h, (joinValue_unchanged_iff renewing h).mpr ?_⟩
  simp only [Undoes, hit, hpc]
  exact hlistens

/-- **What is not taken back.**  A renewal of an item that stop token 1 expires cannot be armed:
    the call restores the item and throws, and the stop callback is gone.  And a callback that
    throws leaves the value that was appended, and the renewal. -/
theorem joinValue_failure_forgets :
    (∃ (s₀ s s' : State Nat Nat) (j : JoinCall Nat Nat),
      Throws renewing s₀ s 1 0 j .go .resource s' ∧ ¬ Unchanged s₀ s' 0) ∧
    ∃ (s₀ s s' : State Nat Nat) (j : JoinCall Nat Nat),
      Throws renewing s₀ s 1 0 j (.raised [[100, 200]]) .callback s' ∧ ¬ Unchanged s₀ s' 0 := by
  constructor
  · obtain ⟨s₀, s, j, s', h, ⟨it, hit, hlistens⟩, it', hit', hgone⟩ :=
      exists_throws { stopToken := some 1 } renewalFails .go .resource
        (fun s₀ _ s' => (∃ it, s₀.items[0]? = some it ∧ it.listens = true) ∧
          ∃ it', s'.items[0]? = some it' ∧ it'.cancelCallback = none) (by decide +kernel)
    refine ⟨s₀, s, s', j, h, fun hun => ?_⟩
    obtain ⟨it₁, hit₁, -, -, -, -, hsub⟩ := hun.item it hit
    cases hit'.symm.trans hit₁
    refine Item.subscribedTo_of_listens hlistens ((hsub hlistens).symm.trans ?_)
    rw [Item.subscribedTo, hgone]
    rfl
  · obtain ⟨s₀, s, j, s', h, ⟨it, hit, hv⟩, it', hit', hleft⟩ :=
      exists_throws {} renewedAppended (.raised [[100, 200]]) .callback
        (fun s₀ _ s' => (∃ it, s₀.items[0]? = some it ∧ it.values = [[100]]) ∧
          ∃ it', s'.items[0]? = some it' ∧ it'.values = [[100, 200]]) (by decide +kernel)
    refine ⟨s₀, s, s', j, h, fun hun => ?_⟩
    obtain ⟨it₁, hit₁, hv', -⟩ := hun.item it hit
    cases hit'.symm.trans hit₁
    rw [hleft, hv] at hv'
    revert hv'
    decide

end ServiceLib.Join
