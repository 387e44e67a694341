import ServiceLib.Store.JoinMaps

namespace ServiceLib.Join

/-!
# Join storage — what every run keeps
-/

open List Option State

variable {K V : Type} [DecidableEq K] {s s' : State K V}

/-- Every thread may rely on what it relies on. -/
structure ThreadsOk (s : State K V) : Prop where
  calls : ∀ c j, s.calls[c]? = some j → CallOk s c j
  tasks : ∀ t x, s.expiryTasks[t]? = some x → ExpiryOk s t x
  stops : ∀ n pc, s.stops[n]? = some pc → StopOk s n pc

/-- The count of active operations is right, and zero once a `stop` has seen it so. -/
structure LifeInv (s : State K V) : Prop where
  ops : s.activeOperations = s.calls.countP (·.pc.active)
  closing : ∀ pc ∈ s.stops, pc.closing → s.lifeState.closed
  drained : ∀ pc ∈ s.stops, pc.drained → s.activeOperations = 0
  stopped : s.lifeState = .stopped → s.activeOperations = 0

/-- How many threads still have to run the expiry callback of item `i`. -/
def State.owing (s : State K V) (i : ItemId) : Nat :=
  (s.calls.filterMap (·.pc.owes)).count i + (s.expiryTasks.filterMap ExpiryTask.owes).count i

/-- Whether item `i` is marked. -/
def State.isProcessed (s : State K V) (i : ItemId) : Bool := s.items[i]?.any (·.processed)

/-- An item's expiry callback is run, or still to be run, or replaced by a completed join, at
    most once, and not at all before the item is marked. -/
def FateInv (s : State K V) : Prop :=
  ∀ i, s.owing i + s.expiries.count i + s.completions.count i ≤ if s.isProcessed i then 1 else 0

/-- How often call `c` appended its value. -/
def State.appendCount (s : State K V) (c : CallId) : Nat := s.appends.countP (·.1 = c)

/-- A call appends its value once on its way to a normal return. -/
def AppendInv (s : State K V) : Prop :=
  (∀ (c : CallId) j, s.calls[c]? = some j → ∀ b, j.pc.appended = some b →
    s.appendCount c = if b then 1 else 0) ∧
  ∀ (c : CallId), s.calls.length ≤ c → s.appendCount c = 0

/-! ### Threads -/

variable {h : Holder} {x : ExpiryTask} {t : TaskId} {j : JoinCall K V} {c : CallId} {n : Nat}
  {o : Outcome V} {a : Action K V}

/-- A step of thread `h`: the other threads are as they were and are not disturbed. -/
theorem ThreadsOk.step (hok : ThreadsOk s) (hitems : ItemsStep h s s')
    (hcalls : ∀ c j, s'.calls[c]? = some j →
      (h ≠ .call c ∧ s.calls[c]? = some j) ∨ CallOk s' c j)
    (htasks : ∀ t x, s'.expiryTasks[t]? = some x →
      (h ≠ .expiry t ∧ s.expiryTasks[t]? = some x) ∨ ExpiryOk s' t x)
    (hstops : ∀ n pc, s'.stops[n]? = some pc →
      (h ≠ .stop n ∧ s.stops[n]? = some pc) ∨ StopOk s' n pc) : ThreadsOk s' where
  calls c j hj := by
    rcases hcalls c j hj with ⟨hne, hj⟩ | hj
    · exact (hok.calls c j hj).frame hitems hne
    · exact hj
  tasks t x hx := by
    rcases htasks t x hx with ⟨hne, hx⟩ | hx
    · exact (hok.tasks t x hx).frame hitems hne
    · exact hx
  stops n pc hpc := by
    rcases hstops n pc hpc with ⟨hne, hpc⟩ | hpc
    · exact (hok.stops n pc hpc).frame hitems hne
    · exact hpc

/-- A coroutine that was just started relies on nothing but its item. -/
theorem TasksStep.cases (htasks : TasksStep s s') (hx : s'.expiryTasks[t]? = some x)
    (hne : h ≠ .expiry t) : (h ≠ .expiry t ∧ s.expiryTasks[t]? = some x) ∨ ExpiryOk s' t x := by
  obtain ⟨new, heq, hnew⟩ := htasks
  rw [heq] at hx
  rcases Nat.lt_or_ge t s.expiryTasks.length with hlt | hge
  · left
    rw [getElem?_append_left hlt] at hx
    exact ⟨hne, hx⟩
  · right
    rw [getElem?_append_right hge] at hx
    obtain ⟨⟨it, hit⟩, hin, hmark, -⟩ := hnew x (mem_of_getElem? hx)
    refine ⟨it, hit, fun h => ?_, fun h => ?_⟩
    · exact absurd (hin.symm.trans h) (by decide)
    · exact absurd (hmark.symm.trans h) (by decide)

section

variable (hok : ThreadsOk s)
include hok

theorem JoinEffect.threadsOk (he : JoinEffect s c j o s') : ThreadsOk s' := by
  obtain ⟨j', hcalls, -, hj', -⟩ := he.call
  refine hok.step he.items ?_ (fun t x hx => he.tasks.cases hx nofun)
    (fun n pc hpc => .inl ⟨nofun, he.stops ▸ hpc⟩)
  intro d jd hd
  rw [hcalls] at hd
  rcases getElem?_set_cases hd with ⟨rfl, rfl⟩ | ⟨hne, hd⟩
  · exact .inr hj'
  · exact .inl ⟨fun h => hne (Holder.call.inj h).symm, hd⟩

theorem ExpiryEffect.threadsOk (he : ExpiryEffect s t x s') : ThreadsOk s' := by
  obtain ⟨pc, htasks, hx', -⟩ := he.task
  refine hok.step he.items (fun c j hj => .inl ⟨nofun, he.calls ▸ hj⟩) ?_
    (fun n pc hpc => .inl ⟨nofun, he.stops ▸ hpc⟩)
  intro u y hy
  rw [htasks] at hy
  rcases getElem?_set_cases hy with ⟨rfl, rfl⟩ | ⟨hne, hy⟩
  · exact .inr hx'
  · exact .inl ⟨fun h => hne (Holder.expiry.inj h).symm, hy⟩

theorem StopEffect.threadsOk (he : StopEffect s n s') : ThreadsOk s' := by
  obtain ⟨pc', hstops, hpc'⟩ := he.stop
  refine hok.step he.items (fun c j hj => .inl ⟨nofun, he.calls ▸ hj⟩)
    (fun t x hx => .inl ⟨nofun, he.tasks ▸ hx⟩) ?_
  intro m pc hpc
  rw [hstops] at hpc
  rcases getElem?_set_cases hpc with ⟨rfl, rfl⟩ | ⟨hne, hpc⟩
  · exact .inr hpc'
  · exact .inl ⟨fun h => hne (Holder.stop.inj h).symm, hpc⟩

/-- No thread moves; new threads rely on nothing. -/
theorem QuietEffect.threadsOk (hq : QuietEffect s a s') : ThreadsOk s' := by
  refine hok.step (.of_eq (.stop s'.stops.length) hq.items) ?_
    (fun t x hx => .inl ⟨nofun, hq.tasks ▸ hx⟩) ?_
  · intro c j hj
    rcases getElem?_of_grown hq.calls hj with hj | hpc
    · exact .inl ⟨nofun, hj⟩
    · exact .inr (.of_none (by rw [hpc]; rfl))
  · intro n pc hpc
    have hne : Holder.stop s'.stops.length ≠ .stop n := by
      rintro ⟨⟩
      exact absurd (lt_of_getElem? hpc) (Nat.lt_irrefl _)
    rcases hq.stops with heq | heq <;> rw [heq] at hpc
    · exact .inl ⟨hne, hpc⟩
    · rcases getElem?_append_singleton_cases hpc with hpc | ⟨-, rfl⟩
      · exact .inl ⟨hne, hpc⟩
      · exact .inr nofun

end

/-! ### The life cycle -/

section

variable (hl : LifeInv s)
include hl

theorem LifeInv.not_active (hzero : s.activeOperations = 0) (hj : s.calls[c]? = some j) :
    j.pc.active = false := by
  have hcount := hl.ops
  rw [hzero] at hcount
  by_contra hact
  have := countP_eq_zero.mp hcount.symm j (mem_of_getElem? hj)
  simp_all

/-- A closed storage with no active operation admits none. -/
theorem JoinEffect.stays_drained (hj : s.calls[c]? = some j) (he : JoinEffect s c j o s')
    (hz : s.activeOperations = 0) (hclosed : s.lifeState.closed) : s'.activeOperations = 0 := by
  obtain ⟨j', -, -, -, -, -, hops⟩ := he.call
  have hcount := hops.count
  have hact : j'.pc.active = false := by
    by_contra hact
    rcases hops.admitted (by simpa using hact) with h | h
    · simp [hl.not_active hz hj] at h
    · rw [h] at hclosed
      cases hclosed
  rw [hl.not_active hz hj, hact, hz] at hcount
  exact hcount

theorem JoinEffect.lifeInv (hj : s.calls[c]? = some j) (he : JoinEffect s c j o s') :
    LifeInv s' := by
  obtain ⟨j', hcalls, -, -, -, -, hops⟩ := he.call
  have hset := countP_set (fun x : JoinCall K V => x.pc.active) hj j'
  have hzero := he.stays_drained hl hj
  refine ⟨?_, ?_, ?_, ?_⟩
  · have hcount := hops.count
    rw [hcalls]
    have hprev := hl.ops
    omega
  · intro pc hpc hclosing
    rw [he.stops] at hpc
    rw [hops.life]
    exact hl.closing pc hpc hclosing
  · intro pc hpc hdrained
    rw [he.stops] at hpc
    refine hzero (hl.drained pc hpc hdrained) (hl.closing pc hpc ?_)
    cases pc <;> first | rfl | cases hdrained
  · intro hstopped
    rw [hops.life] at hstopped
    exact hzero (hl.stopped hstopped) (by rw [hstopped]; rfl)

/-- A step that touches neither the calls nor the life cycle. -/
theorem LifeInv.frame (hcalls : s'.calls = s.calls)
    (hops : s'.activeOperations = s.activeOperations) (hlife : s'.lifeState = s.lifeState)
    (hstops : s'.stops = s.stops) : LifeInv s' where
  ops := by rw [hcalls, hops]; exact hl.ops
  closing := by rw [hstops, hlife]; exact hl.closing
  drained := by rw [hstops, hops]; exact hl.drained
  stopped := by rw [hlife, hops]; exact hl.stopped

/-- A `stop` call moves on. -/
theorem LifeInv.setStop {pc : StopPc} (hstops : s'.stops = s.stops.set n pc)
    (hcalls : s'.calls = s.calls) (hops : s'.activeOperations = s.activeOperations)
    (hclosed : s.lifeState.closed → s'.lifeState.closed)
    (hclosing : pc.closing → s'.lifeState.closed) (hdrained : pc.drained → s.activeOperations = 0)
    (hstopped : s'.lifeState = .stopped → s.activeOperations = 0) : LifeInv s' where
  ops := by rw [hcalls, hops]; exact hl.ops
  closing := by
    rw [hstops]
    exact forall_mem_set (fun x hx h => hclosed (hl.closing x hx h)) hclosing
  drained := by
    rw [hstops, hops]
    exact forall_mem_set hl.drained hdrained
  stopped := by rw [hops]; exact hstopped

theorem stopStep_lifeInv (hs : s.stopStep n = some s') : LifeInv s' := by
  obtain ⟨pc, hpc, hm⟩ := stopStep_cases hs
  have hmem := mem_of_getElem? hpc
  cases hm with
  | close => exact hl.setStop rfl rfl rfl (fun _ => rfl) (fun _ => rfl) nofun nofun
  | walk hclosing hdrained =>
    refine hl.setStop rfl rfl rfl id (fun h => hl.closing _ hmem (hclosing h)) (fun h => ?_)
      hl.stopped
    rcases hdrained h with h | hzero
    · exact hl.drained _ hmem h
    · exact hzero
  | lock | reset | cancel =>
    exact hl.setStop rfl rfl rfl id (fun _ => hl.closing _ hmem rfl)
      (fun _ => hl.drained _ hmem rfl) hl.stopped
  | clear =>
    exact hl.setStop rfl rfl rfl (fun _ => rfl) nofun nofun (fun _ => hl.drained _ hmem rfl)

/-- A call or a `stop` that begins has done nothing, and only a storage that no `stop` has closed
    is started. -/
theorem QuietEffect.lifeInv (hq : QuietEffect s a s') : LifeInv s' := by
  have hstops : ∀ pc ∈ s'.stops, pc ∈ s.stops ∨ pc = .entered := by
    intro pc hpc
    rcases hq.stops with heq | heq <;> rw [heq] at hpc
    · exact .inl hpc
    · exact (mem_append.mp hpc).imp_right mem_singleton.mp
  refine ⟨?_, fun pc hpc h => ?_, fun pc hpc h => ?_, fun h => ?_⟩
  · rw [hq.ops, hl.ops]
    rcases hq.calls with heq | ⟨j, heq, hpc⟩ <;> rw [heq]
    rw [countP_append, countP_singleton, hpc]
    rfl
  · rcases hstops pc hpc with hpc | rfl
    · have hclosed := hl.closing pc hpc h
      rcases hq.life with hlife | ⟨hlife, -⟩
      · rw [hlife]
        exact hclosed
      · rw [hlife] at hclosed
        cases hclosed
    · cases h
  · rcases hstops pc hpc with hpc | rfl
    · rw [hq.ops]
      exact hl.drained pc hpc h
    · cases h
  · rw [hq.ops]
    rcases hq.life with hlife | ⟨-, hlife⟩
    · exact hl.stopped (hlife.symm.trans h)
    · exact absurd h hlife

end

/-! ### Fate -/

/-- An item that exists is never unmarked. -/
theorem ItemsStep.isProcessed (hitems : ItemsStep h s s') {i : ItemId}
    (hp : s.isProcessed i) : s'.isProcessed i := by
  unfold State.isProcessed at hp ⊢
  cases hit : s.items[i]? with
  | none => simp [hit] at hp
  | some it =>
    rw [hit] at hp
    obtain ⟨it', hit', hs⟩ := hitems.keeps i it hit
    rw [hit']
    exact hs.mono hp

/-- One thread moves from owing `o` to owing `o'`. -/
theorem FateStep.fateInv {o o' : Option ItemId} (hf : FateInv s) (hstep : FateStep s s' o o')
    (hitems : ItemsStep h s s')
    (howing : ∀ i, o.toList.count i + s'.owing i = o'.toList.count i + s.owing i) : FateInv s' := by
  have hmono : ∀ i, (if s.isProcessed i then 1 else 0) ≤ if s'.isProcessed i then 1 else 0 := by
    intro i
    cases hp : s.isProcessed i with
    | false => exact Nat.zero_le _
    | true => rw [hitems.isProcessed hp]
  -- Marking an unmarked item makes room for one more.
  have hmark : ∀ i it it', s.items[i]? = some it → it.processed = false →
      s'.items[i]? = some it' → it'.processed →
      s.isProcessed i = false ∧ s'.isProcessed i := by
    intro i it it' hit hp hit' hp'
    unfold isProcessed
    rw [hit, hit']
    exact ⟨hp, hp'⟩
  intro k
  have hk := hf k
  have hm := hmono k
  have ho := howing k
  cases hstep with
  | quiet he hc =>
    rw [he, hc]
    omega
  | @mark i it it' hit hp hit' hp' he hc =>
    rw [he, hc]
    by_cases hik : i = k
    · subst hik
      obtain ⟨hbefore, hafter⟩ := hmark i it it' hit hp hit' hp'
      rw [hbefore] at hk
      rw [hafter]
      simp only [toList, count_nil, count_singleton_self] at ho
      simp only [Bool.false_eq_true, if_false, if_true] at hk ⊢
      omega
    · have hne : [i].count k = 0 := count_eq_zero.mpr (by simpa using fun h => hik h.symm)
      simp only [toList, count_nil, hne] at ho
      omega
  | @run i he hc =>
    rw [he, hc, count_append]
    simp only [toList, count_nil] at ho
    omega
  | @complete i it it' hit hp hit' hp' he hc =>
    rw [he, hc, count_append]
    by_cases hik : i = k
    · subst hik
      obtain ⟨hbefore, hafter⟩ := hmark i it it' hit hp hit' hp'
      rw [hbefore] at hk
      rw [hafter, count_singleton_self]
      simp only [Bool.false_eq_true, if_false, if_true] at hk ⊢
      omega
    · have hne : [i].count k = 0 := count_eq_zero.mpr (by simpa using fun h => hik h.symm)
      rw [hne]
      omega

theorem TasksStep.owes (htasks : TasksStep s s') :
    s'.expiryTasks.filterMap ExpiryTask.owes = s.expiryTasks.filterMap ExpiryTask.owes := by
  obtain ⟨new, heq, hnew⟩ := htasks
  rw [heq, filterMap_append, filterMap_eq_nil_iff.mpr (fun x hx => (hnew x hx).2.2.2), append_nil]

theorem JoinEffect.fateInv (hf : FateInv s) (hj : s.calls[c]? = some j)
    (he : JoinEffect s c j o s') : FateInv s' := by
  obtain ⟨j', hcalls, -, -, hfate, -⟩ := he.call
  refine hfate.fateInv hf he.items (fun i => ?_)
  have hset := count_filterMap_set (fun x : JoinCall K V => x.pc.owes) hj j' i
  unfold owing
  rw [hcalls, he.tasks.owes]
  omega

theorem ExpiryEffect.fateInv (hf : FateInv s) (hx : s.expiryTasks[t]? = some x)
    (he : ExpiryEffect s t x s') : FateInv s' := by
  obtain ⟨pc, htasks, -, hfate, -⟩ := he.task
  refine hfate.fateInv hf he.items (fun i => ?_)
  have hset := count_filterMap_set ExpiryTask.owes hx { x with pc := pc } i
  unfold owing
  rw [he.calls, htasks]
  omega

/-- A step that nobody's expiry callback is concerned by. -/
theorem FateInv.frame (hf : FateInv s) (hitems : ItemsStep h s s')
    (hcalls : s'.calls.filterMap (·.pc.owes) = s.calls.filterMap (·.pc.owes))
    (htasks : s'.expiryTasks.filterMap ExpiryTask.owes = s.expiryTasks.filterMap ExpiryTask.owes)
    (hexpiries : s'.expiries = s.expiries) (hcompletions : s'.completions = s.completions) :
    FateInv s' := by
  have hquiet : FateStep s s' none none := .quiet hexpiries hcompletions
  refine hquiet.fateInv hf hitems (fun i => ?_)
  unfold owing
  rw [hcalls, htasks]

/-! ### Appended values -/

theorem JoinEffect.appendInv (ha : AppendInv s) (hj : s.calls[c]? = some j)
    (he : JoinEffect s c j o s') : AppendInv s' := by
  obtain ⟨j', hcalls, -, -, -, happ, -⟩ := he.call
  have hlen : s'.calls.length = s.calls.length := by rw [hcalls, length_set]
  rcases happ with ⟨happends, hpc⟩ | ⟨i, hpc, hpc', happends⟩
  · have hsame : ∀ d, s'.appendCount d = s.appendCount d := by
      intro d
      unfold appendCount
      rw [happends]
    refine ⟨fun d jd hd b hb => ?_, fun d hd => ?_⟩
    · rw [hsame]
      rw [hcalls] at hd
      rcases getElem?_set_cases hd with ⟨rfl, rfl⟩ | ⟨-, hd⟩
      · rcases hpc with hnone | heq
        · simp [hnone] at hb
        · exact ha.1 d j hj b (heq.symm.trans hb)
      · exact ha.1 d jd hd b hb
    · rw [hsame]
      exact ha.2 d (by rw [← hlen]; exact hd)
  · -- The value is appended: the count of this call goes from zero to one.
    have hcount : ∀ d, s'.appendCount d = s.appendCount d + if c = d then 1 else 0 := by
      intro d
      unfold appendCount
      rw [happends, countP_append, countP_singleton]
      simp
    have hc : c < s.calls.length := lt_of_getElem? hj
    refine ⟨fun d jd hd b hb => ?_, fun d hd => ?_⟩
    · rw [hcount]
      rw [hcalls] at hd
      rcases getElem?_set_cases hd with ⟨rfl, rfl⟩ | ⟨hne, hd⟩
      · have hzero := ha.1 d j hj false (by rw [hpc]; rfl)
        rw [hpc'] at hb
        cases hb
        rw [hzero, if_pos rfl]
        rfl
      · rw [if_neg (Ne.symm hne)]
        exact ha.1 d jd hd b hb
    · rw [hlen] at hd
      rw [hcount, ha.2 d hd, if_neg ?_]
      rintro rfl
      exact absurd hc (Nat.not_lt.mpr hd)

/-- A step that appends nothing; new calls have appended nothing. -/
theorem AppendInv.frame (ha : AppendInv s) (happends : s'.appends = s.appends)
    (hcalls : s'.calls = s.calls ∨ ∃ j, s'.calls = s.calls ++ [j] ∧ j.pc = .entered) :
    AppendInv s' := by
  have hsame : ∀ d, s'.appendCount d = s.appendCount d := by
    intro d
    unfold appendCount
    rw [happends]
  refine ⟨fun c j hj b hb => ?_, fun c hc => ?_⟩ <;> rw [hsame]
  · rcases hcalls with heq | ⟨jn, heq, hpc⟩ <;> rw [heq] at hj
    · exact ha.1 c j hj b hb
    · rcases getElem?_append_singleton_cases hj with hj | ⟨rfl, rfl⟩
      · exact ha.1 c j hj b hb
      · rw [hpc] at hb
        cases hb
        exact ha.2 _ (Nat.le_refl _)
  · refine ha.2 c (Nat.le_trans ?_ hc)
    rcases hcalls with heq | ⟨jn, heq, -⟩ <;> rw [heq]
    rw [length_append]
    exact Nat.le_add_right _ _

/-! ### All of it -/

/-- What holds in every reachable state. -/
structure Inv (s : State K V) : Prop where
  threads : ThreadsOk s
  keys : KeysOk s
  life : LifeInv s
  fate : FateInv s
  append : AppendInv s

theorem QuietEffect.inv (hi : Inv s) (hq : QuietEffect s a s') : Inv s' where
  threads := hq.threadsOk hi.threads
  keys := hi.keys.step (ItemsStep.of_eq (.stop 0) hq.items) hq.mapsFrom
  life := hq.lifeInv hi.life
  fate := by
    refine hi.fate.frame (ItemsStep.of_eq (.stop 0) hq.items) ?_ (by rw [hq.tasks]) hq.expiries
      hq.completions
    rcases hq.calls with heq | ⟨j, heq, hpc⟩ <;> rw [heq]
    rw [filterMap_append, filterMap_cons_none (by rw [hpc]; rfl), filterMap_nil,
      append_nil]
  append := hi.append.frame hq.appends hq.calls

theorem Inv.joinEffect (hi : Inv s) (hs : s.joinStep c o = some s') :
    ∃ j, s.calls[c]? = some j ∧ JoinEffect s c j o s' :=
  joinStep_effect hi.keys hi.threads.calls hi.life.ops hs

theorem Inv.joinMoved (hi : Inv s) (hs : s.joinStep c o = some s') :
    ∃ j, s.calls[c]? = some j ∧ CallMoved s c j o s' := by
  obtain ⟨j, hj, he⟩ := hi.joinEffect hs
  exact ⟨j, hj, he.moved⟩

/-- **Every step keeps the invariant.** -/
theorem step_inv (hi : Inv s) (hs : step s a = some s') : Inv s' := by
  cases a with
  | join c o =>
    obtain ⟨j, hj, he⟩ := hi.joinEffect hs
    exact ⟨he.threadsOk hi.threads, hi.keys.step he.items he.maps.mapsFrom,
      he.lifeInv hi.life hj, he.fateInv hi.fate hj, he.appendInv hi.append hj⟩
  | cancel i fails =>
    have he := cancelStep_effect (.stop s.stops.length) hs
    obtain ⟨items, expiryTasks, rfl⟩ := he.rest
    refine ⟨?_, hi.keys.step he.items (.of_eq rfl rfl), hi.life.frame rfl rfl rfl rfl, ?_, ?_⟩
    · refine hi.threads.step he.items (fun c j hj => .inl ⟨nofun, hj⟩)
        (fun t x hx => he.tasks.cases hx nofun) (fun n pc hpc => .inl ⟨?_, hpc⟩)
      -- No `stop` call has the index that stands for this callback.
      rintro ⟨⟩
      exact absurd (lt_of_getElem? hpc) (Nat.lt_irrefl _)
    · exact hi.fate.frame he.items rfl he.tasks.owes rfl rfl
    · exact hi.append.frame rfl (.inl rfl)
  | expire t o =>
    obtain ⟨x, hx, he⟩ := expiryStep_effect hi.threads.tasks hs
    refine ⟨he.threadsOk hi.threads, hi.keys.step he.items ?_,
      hi.life.frame he.calls he.ops he.life he.stops, he.fateInv hi.fate hx,
      hi.append.frame he.appends (.inl he.calls)⟩
    rcases he.maps with ⟨hc, hp, -⟩ | ⟨it, -, -, hc, hp, -⟩
    · exact .of_eq hc hp
    · exact .of_remove hc hp
  | stop n =>
    have he := stopStep_effect hi.threads.stops hs
    exact ⟨he.threadsOk hi.threads, hi.keys.step he.items (stopStep_mapsFrom hs),
      stopStep_lifeInv hi.life hs, hi.fate.frame he.items (by rw [he.calls]) (by rw [he.tasks])
        he.expiries he.completions, hi.append.frame he.appends (.inl he.calls)⟩
  | _ => exact (step_quietEffect rfl hs).inv hi

theorem init_inv (config : JoinStorageConfig) : Inv (system K V config).init where
  threads := ⟨nofun, nofun, nofun⟩
  keys := by
    rintro key i (h | h) <;>
    · have h : (∅ : Generation K).lookup key = some i := h
      simp [AList.lookup_empty] at h
  life := ⟨rfl, nofun, nofun, nofun⟩
  fate := fun i => Nat.le_refl _
  append := ⟨nofun, fun c _ => rfl⟩

theorem reachable_inv {config : JoinStorageConfig} (h : (system K V config).Reachable s) : Inv s :=
  h.invariant (init_inv config) (fun _ hi _ hs => step_inv hi hs)

end ServiceLib.Join
