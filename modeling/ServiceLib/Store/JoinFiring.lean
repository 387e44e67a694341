import ServiceLib.Store.JoinMoves

namespace ServiceLib.Join

/-!
# Join storage — the effect of each step of the other threads

The other threads are expiry coroutines, stop callbacks and `stop` calls.
-/

open Option

variable {K V : Type} [DecidableEq K] {s s' : State K V} {i : ItemId} {it it' : Item K V}
  {o : Outcome V} {t : TaskId} {x : ExpiryTask} {pc : ExpiryPc}

/-- What a step of an expiry coroutine does. -/
structure ExpiryEffect (s : State K V) (t : TaskId) (x : ExpiryTask) (s' : State K V) : Prop where
  task : ∃ pc, s'.expiryTasks = s.expiryTasks.set t { x with pc := pc } ∧
    ExpiryOk s' t { x with pc := pc } ∧
    FateStep s s' x.owes (ExpiryTask.owes { x with pc := pc }) ∧ ExpiryMove s x pc s'
  items : ItemsStep (.expiry t) s s'
  calls : s'.calls = s.calls
  stops : s'.stops = s.stops
  appends : s'.appends = s.appends
  ops : s'.activeOperations = s.activeOperations
  life : s'.lifeState = s.lifeState
  cancelled : s'.expiryCancelled = s.expiryCancelled
  config : s'.config = s.config
  /-- Only an item that has been marked is removed. -/
  maps : (s'.current = s.current ∧ s'.previous = s.previous ∧ s'.count = s.count) ∨
    ∃ it, s.items[x.item]? = some it ∧ it.processed ∧
      s'.current = (s.removeIfSame it.key x.item).current ∧
      s'.previous = (s.removeIfSame it.key x.item).previous ∧
      s'.count = (s.removeIfSame it.key x.item).count

/-- A step of a coroutine that writes its item, and leaves the map alone. -/
theorem ExpiryEffect.write {expiries : List ItemId}
    (hit : s.items[x.item]? = some it) (hstep : ItemStep (.expiry t) it it')
    (hin : pc.inside → it'.mu = some (.expiry t))
    (hmark : pc.marked → it'.processed)
    (hvalues : it'.values = it.values ∨ expiries = s.expiries ++ [x.item])
    (hfate : FateStep s { (s.setItem x.item it').setTask t x pc with expiries := expiries } x.owes
      (ExpiryTask.owes { x with pc := pc }))
    (hmove : ExpiryMove s x pc { (s.setItem x.item it').setTask t x pc with
      expiries := expiries }) :
    ExpiryEffect s t x { (s.setItem x.item it').setTask t x pc with expiries := expiries } where
  task := by
    refine ⟨pc, rfl, ⟨it', ?_, hin, hmark⟩, hfate, hmove⟩
    show (s.items.set x.item it')[x.item]? = some it'
    rw [List.getElem?_set_self']
    simp [hit]
  items := .of_set hit rfl hstep (fun _ => hvalues)
  calls := rfl
  stops := rfl
  appends := rfl
  ops := rfl
  life := rfl
  cancelled := rfl
  config := rfl
  maps := .inl ⟨rfl, rfl, rfl⟩

/-- A step of a coroutine that is outside its item, and marks nothing. -/
theorem ExpiryEffect.move {evictions : Int}
    (hit : s.items[x.item]? = some it)
    (hmove : ExpiryMove s x pc { s.setTask t x pc with evictionsTotal := evictions })
    (hin : pc.inside = false := by rfl) (hmark : pc.marked = false := by rfl)
    (howes : ExpiryTask.owes { x with pc := pc } = x.owes := by rfl) :
    ExpiryEffect s t x { s.setTask t x pc with evictionsTotal := evictions } where
  task := by
    refine ⟨pc, rfl, ⟨it, hit, ?_, ?_⟩, ?_, hmove⟩
    · intro h
      exact absurd (hin.symm.trans h) (by decide)
    · intro h
      exact absurd (hmark.symm.trans h) (by decide)
    · rw [howes]
      exact .quiet rfl rfl
  items := .of_eq _
  calls := rfl
  stops := rfl
  appends := rfl
  ops := rfl
  life := rfl
  cancelled := rfl
  config := rfl
  maps := .inl ⟨rfl, rfl, rfl⟩

section

variable (htasks : ∀ t x, s.expiryTasks[t]? = some x → ExpiryOk s t x)
include htasks

/-- **A step of an expiry coroutine.** -/
theorem expiryStep_effect (hs : s.expiryStep t o = some s') :
    ∃ x, s.expiryTasks[t]? = some x ∧ ExpiryEffect s t x s' := by
  obtain ⟨x, hx, hs⟩ := bind_eq_some_iff.mp hs
  obtain ⟨it, hit, hs⟩ := bind_eq_some_iff.mp hs
  refine ⟨x, hx, ?_⟩
  obtain ⟨it₀, hit₀, hmu, hmark⟩ := htasks t x hx
  obtain rfl : it₀ = it := some.inj (hit₀.symm.trans hit)
  have ha := armings_of_item hit
  obtain ⟨i, generation, pc⟩ := x
  simp only at hs
  split at hs
  case h_1 =>
    split at hs <;> cases hs
    exact .move hit (.advance rfl rfl rfl)
  case h_2 =>
    cases hs
    split
    next hcancelled => exact .move hit (.quit (.inl hcancelled) rfl)
    next => exact .move hit (.advance rfl rfl rfl)
  case h_3 =>
    cases hs
    split
    next => exact .move hit (.advance rfl rfl rfl)
    next hgone =>
      exact .move hit (.quit (.inr (by simpa using hgone)) rfl)
  case h_4 =>
    split at hs
    · cases hs
    next hfree =>
      cases hs
      have hfree : it₀.mu = none := by simpa using hfree
      exact .write hit (.acquire _ hfree) (fun _ => rfl) nofun (.inl rfl)
        (.quiet rfl rfl) (.advance rfl rfl (armings_same hit))
  case h_5 =>
    split at hs
    next hskip =>
      cases hs
      exact .write hit (.inside (hmu rfl)) nofun nofun (.inl rfl) (.quiet rfl rfl)
        (.skip it₀.arming rfl ha hskip (armings_same hit))
    next hskip =>
      -- The generation is current and nobody was here before: the item expires.
      cases hs
      simp only [not_or, Bool.not_eq_true, not_not] at hskip
      exact .write hit (.inside (hmu rfl) (fun _ => rfl)) (fun _ => hmu rfl) (fun _ => rfl)
        (.inl rfl) (.mark hit hskip.1 (getElem?_set_some hit _) rfl rfl rfl)
        (.mark it₀.arming rfl ha hskip.2 armings_set)
  case h_6 =>
    split at hs <;> cases hs
    exact .write hit (.inside (hmu rfl)) nofun (fun _ => hmark rfl) (.inl rfl)
      (.quiet rfl rfl) (.release it₀.arming rfl ha (hmark rfl) armings_set)
  case h_7 =>
    split at hs <;> cases hs
    refine .write hit (.outside _ (fun hp => ?_)) nofun (fun _ => hmark rfl)
      (.inr rfl) (.run rfl rfl) (.finish rfl (armings_same hit))
    exact absurd ((hmark rfl).symm.trans hp) (by decide)
  case h_8 =>
    cases hs
    have hmaps : ∃ it, s.items[i]? = some it ∧ it.processed ∧
        (s.removeIfSame it₀.key i).current = (s.removeIfSame it.key i).current ∧
        (s.removeIfSame it₀.key i).previous = (s.removeIfSame it.key i).previous ∧
        (s.removeIfSame it₀.key i).count = (s.removeIfSame it.key i).count :=
      ⟨it₀, hit, hmark rfl, rfl, rfl, rfl⟩
    obtain ⟨current, previous, count, hremove⟩ := removeIfSame_frame s it₀.key i
    rw [hremove] at hmaps ⊢
    split
    all_goals
      exact ⟨⟨_, rfl, ⟨it₀, hit, nofun, nofun⟩, .quiet rfl rfl, .finish rfl rfl⟩,
        .of_eq _, rfl, rfl, rfl, rfl, rfl, rfl, rfl, .inr hmaps⟩
  case h_9 =>
    cases hs
    exact .move hit (.finish rfl rfl)
  case h_10 => cases hs

theorem expiryStep_moved (hs : s.expiryStep t o = some s') :
    ∃ x pc, s.expiryTasks[t]? = some x ∧
      s'.expiryTasks = s.expiryTasks.set t { x with pc := pc } ∧
      s'.expiryCancelled = s.expiryCancelled ∧ ExpiryMove s x pc s' := by
  obtain ⟨x, hx, he⟩ := expiryStep_effect htasks hs
  obtain ⟨pc, htasks, -, -, hmove⟩ := he.task
  exact ⟨x, pc, hx, htasks, he.cancelled, hmove⟩

end

/-- What a step of the stop callback of item `i` does. -/
structure CancelEffect (h : Holder) (s : State K V) (i : ItemId) (fails : Bool)
    (s' : State K V) : Prop where
  items : ItemsStep h s s'
  tasks : TasksStep s s'
  rest : ∃ items expiryTasks, s' = { s with items := items, expiryTasks := expiryTasks }
  moved : CancelMove s i fails s'

/-- **A step of a stop callback**, which needs no lock. -/
theorem cancelStep_effect {fails : Bool} (h : Holder) (hs : s.cancelStep i fails = some s') :
    CancelEffect h s i fails s' := by
  obtain ⟨it, hit, hs⟩ := bind_eq_some_iff.mp hs
  obtain ⟨b, hb, hs⟩ := bind_eq_some_iff.mp hs
  have ha := armings_of_item hit
  have hwrite : ∀ {t : State K V} (pc : SubPc) (cancelled : Nat),
      t.items = s.items.set i { it with
        cancelCallback := some { b with pc := pc }, cancelledGeneration := cancelled } →
      ItemsStep h s t :=
    fun pc cancelled heq => .of_set hit heq (.outside h (fun _ => .callback hb pc cancelled))
  simp only at hs
  split at hs
  case h_1 hpc =>
    split at hs
    · cases hs
    · split at hs
      · cases hs
        exact ⟨hwrite .checking _ rfl, .of_eq, ⟨_, _, rfl⟩,
          .publish it.arming b ha hb hpc armings_set rfl⟩
      next hgone =>
        cases hs
        exact ⟨hwrite .finished it.cancelledGeneration rfl, .of_eq, ⟨_, _, rfl⟩,
          .gone it.arming b ha hb (by simpa using hgone) armings_set rfl⟩
  case h_2 hpc =>
    cases hs
    exact ⟨hwrite _ it.cancelledGeneration rfl, .of_eq, ⟨_, _, rfl⟩,
      .check it.arming b ha hb hpc armings_set rfl⟩
  case h_3 hpc =>
    rw [scheduleExpiryNow_eq] at hs
    cases hs
    exact ⟨hwrite .finished it.cancelledGeneration rfl, .of_woken (getElem?_set_some hit _) rfl,
      ⟨_, _, rfl⟩, .schedule it.arming b ha hb hpc armings_set rfl⟩
  case h_4 => cases hs

/-- What a step of `stop` call `n` at `pc` does. -/
inductive StopStep (s : State K V) (n : Nat) : StopPc → State K V → Prop
  | close : s.lifeState ≠ .stopped → s.lifeState ≠ .stopping →
      StopStep s n .entered { s.setStop n .draining with lifeState := .stopping }
  /-- It goes on, knowing that it has closed the storage and waited if it did before. -/
  | walk {pc pc' : StopPc} : (pc'.closing → pc.closing) →
      (pc'.drained → pc.drained ∨ s.activeOperations = 0) →
      (∀ i rest, pc' ≠ .resetting i rest) → StopStep s n pc (s.setStop n pc')
  | lock {i : ItemId} {rest : List ItemId} {it : Item K V} : s.items[i]? = some it →
      it.mu = none → StopStep s n (.visiting (i :: rest))
        ((s.setItem i { it with mu := some (.stop n) }).setStop n (.resetting i rest))
  | reset {i : ItemId} {rest : List ItemId} {it : Item K V} : s.items[i]? = some it →
      StopStep s n (.resetting i rest) ((s.setItem i it.resetUnlock).setStop n (.visiting rest))
  | cancel : StopStep s n .cancelling
      { s.setStop n .awaiting with rotation := .ended, expiryCancelled := true }
  | clear : StopStep s n .clearing { s.setStop n .returned with
      current := ∅, previous := ∅, count := 0, lifeState := .stopped }

theorem stopStep_cases {n : Nat} (hs : s.stopStep n = some s') :
    ∃ pc, s.stops[n]? = some pc ∧ StopStep s n pc s' := by
  obtain ⟨pc, hpc, hs⟩ := bind_eq_some_iff.mp hs
  refine ⟨pc, hpc, ?_⟩
  split at hs
  case h_1 =>
    split at hs <;> cases hs
    next => exact .walk nofun nofun nofun
    next => exact .walk nofun nofun nofun
    next hstopped hstopping => exact .close hstopped hstopping
  case h_2 =>
    split at hs <;> cases hs
    exact .walk nofun nofun nofun
  case h_3 =>
    split at hs <;> cases hs
    next hzero => exact .walk (fun _ => rfl) (fun _ => .inr hzero) nofun
  case h_4 =>
    cases hs
    exact .walk (fun _ => rfl) (fun _ => .inl rfl) nofun
  case h_5 =>
    obtain ⟨it, hit, hs⟩ := bind_eq_some_iff.mp hs
    split at hs
    · cases hs
    next hfree =>
      cases hs
      exact .lock hit (by simpa using hfree)
  case h_6 =>
    obtain ⟨it, hit, hs⟩ := bind_eq_some_iff.mp hs
    split at hs <;> cases hs
    exact .reset hit
  case h_7 =>
    split at hs <;> cases hs
    exact .cancel
  case h_8 =>
    split at hs <;> cases hs
    exact .walk (fun _ => rfl) (fun _ => .inl rfl) nofun
  case h_9 =>
    cases hs
    exact .clear
  case h_10 => cases hs

/-- What a step of a `stop` call does to the other threads and to the items. -/
structure StopEffect (s : State K V) (n : Nat) (s' : State K V) : Prop where
  stop : ∃ pc, s'.stops = s.stops.set n pc ∧ StopOk s' n pc
  items : ItemsStep (.stop n) s s'
  calls : s'.calls = s.calls
  tasks : s'.expiryTasks = s.expiryTasks
  appends : s'.appends = s.appends
  expiries : s'.expiries = s.expiries
  completions : s'.completions = s.completions
  config : s'.config = s.config

/-- **A step of a `stop` call.** -/
theorem stopStep_effect {n : Nat} (hstops : ∀ n pc, s.stops[n]? = some pc → StopOk s n pc)
    (hs : s.stopStep n = some s') : StopEffect s n s' := by
  obtain ⟨pc, hpc, hm⟩ := stopStep_cases hs
  cases hm with
  | close | cancel | clear =>
    exact ⟨⟨_, rfl, nofun⟩, .of_eq _, rfl, rfl, rfl, rfl, rfl, rfl⟩
  | walk _ _ hne =>
    exact ⟨⟨_, rfl, fun i rest h => absurd h (hne i rest)⟩, .of_eq _, rfl, rfl, rfl, rfl, rfl, rfl⟩
  | lock hit hfree =>
    refine ⟨⟨_, rfl, ?_⟩, .of_set hit rfl (.acquire _ hfree), rfl, rfl, rfl, rfl, rfl, rfl⟩
    rintro k r ⟨⟩
    exact ⟨_, getElem?_set_some hit _, rfl⟩
  | reset hit =>
    obtain ⟨it₀, hit₀, hmu⟩ := hstops n _ hpc _ _ rfl
    obtain rfl := some.inj (hit₀.symm.trans hit)
    exact ⟨⟨_, rfl, nofun⟩, .of_set hit rfl (.inside hmu), rfl, rfl, rfl, rfl, rfl, rfl⟩

end ServiceLib.Join
