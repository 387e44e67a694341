import ServiceLib.Store.JoinArming

namespace ServiceLib.Join

/-!
# Join storage — what a step can do

Every thread works on items whose lock it holds, or on none.  This module says once what a
step does to the items, to the thread that takes it and to the history, and what a thread may
rely on while the others move.
-/

open List Option

variable {K V : Type}

/-! ### What threads rely on -/

/-- The flag a `joinValue` call knows its item to have. -/
def JoinPc.expects : JoinPc → Option Bool
  | .renewing .. | .subscribing .. | .inlineScheduling .. | .spawning .. | .arming ..
  | .rechecking .. | .scheduling .. | .restoring .. | .relocating _ | .appending _ | .calling _ =>
    some false
  | .releasing .. | .expiring _ | .removing .. => some true
  | _ => none

/-- The item whose expiry callback a `joinValue` call still has to run. -/
def JoinPc.owes : JoinPc → Option ItemId
  | .releasing i .expired | .expiring i => some i
  | _ => none

/-- Whether a `joinValue` call has appended its value; a call that throws may or may not. -/
def JoinPc.appended : JoinPc → Option Bool
  | .calling _ | .releasing _ .completed | .removing _ _ .ret | .counting _ .ret | .leaving none
  | .returned => some true
  | .leaving (some _) | .threw _ => none
  | _ => some false

/-- Whether a `joinValue` call is inside its `OperationGuard`. -/
def JoinPc.active : JoinPc → Bool
  | .entered | .returned | .threw _ => false
  | _ => true

/-- Whether an expiry coroutine holds the lock of its item. -/
def ExpiryPc.inside : ExpiryPc → Bool
  | .inspecting | .releasing => true
  | _ => false

/-- Whether an expiry coroutine has marked its item. -/
def ExpiryPc.marked : ExpiryPc → Bool
  | .releasing | .expiring | .removing => true
  | _ => false

/-- The item whose expiry callback a coroutine still has to run. -/
def ExpiryTask.owes (x : ExpiryTask) : Option ItemId :=
  match x.pc with
  | .releasing | .expiring => some x.item
  | _ => none

/-- Whether a `stop` call has closed the storage. -/
def StopPc.closing : StopPc → Bool
  | .draining | .visiting _ | .resetting .. | .cancelling | .awaiting | .clearing => true
  | _ => false

/-- Whether a `stop` call has waited for the active operations. -/
def StopPc.drained : StopPc → Bool
  | .visiting _ | .resetting .. | .cancelling | .awaiting | .clearing => true
  | _ => false

/-- Whether the storage admits no more operations. -/
def LifeState.closed : LifeState → Bool
  | .stopping | .stopped => true
  | _ => false

/-! ### What a thread does to the items -/

variable {h : Holder} {it it' : Item K V}

/-- What the stop callback of an item was registered for. -/
def Item.subscribedTo (it : Item K V) : Option (Option TokenId × Nat) :=
  it.cancelCallback.map (fun b => (b.token, b.generation))

/-- The arming of the item is as it was; its stop callback may have run. -/
structure Kept (it it' : Item K V) : Prop where
  deadline : it'.deadline = it.deadline
  generation : it'.generation = it.generation
  armedGeneration : it'.armedGeneration = it.armedGeneration
  subscribedTo : it'.subscribedTo = it.subscribedTo

/-- The item is as it was; its stop callback may have run. -/
structure Untouched (it it' : Item K V) : Prop where
  values : it'.values = it.values
  processed : it'.processed = it.processed
  kept : Kept it it'

theorem Kept.refl (it : Item K V) : Kept it it := ⟨rfl, rfl, rfl, rfl⟩

theorem Kept.trans {it'' : Item K V} (h : Kept it it') (h' : Kept it' it'') : Kept it it'' :=
  ⟨h'.deadline.trans h.deadline, h'.generation.trans h.generation,
    h'.armedGeneration.trans h.armedGeneration, h'.subscribedTo.trans h.subscribedTo⟩

theorem Untouched.refl (it : Item K V) : Untouched it it := ⟨rfl, rfl, .refl it⟩

/-- The stop callback writes how far it has come, and `cancelledGeneration`. -/
theorem Untouched.callback {b : Subscription} (hb : it.cancelCallback = some b) (pc : SubPc)
    (cancelled : Nat) : Untouched it { it with
      cancelCallback := some { b with pc := pc }, cancelledGeneration := cancelled } := by
  refine ⟨rfl, rfl, rfl, rfl, rfl, ?_⟩
  rw [Item.subscribedTo, Item.subscribedTo, hb]
  rfl

/-- What thread `h` may do to an item.  The key stays, the flag is never taken back, and lock
    and flag change only under the lock, apart from taking it. -/
structure ItemStep (h : Holder) (it it' : Item K V) : Prop where
  key : it'.key = it.key
  mono : it.processed → it'.processed
  frame : (it'.mu = it.mu ∧ it'.processed = it.processed) ∨
    (it.mu = none ∧ it'.processed = it.processed) ∨ it.mu = some h
  /-- An unprocessed item that another thread has locked is left alone. -/
  untouched : it.processed = false → it.mu ≠ none → it.mu ≠ some h → Untouched it it'

theorem ItemStep.refl (h : Holder) (it : Item K V) : ItemStep h it it :=
  ⟨rfl, id, .inl ⟨rfl, rfl⟩, fun _ _ _ => .refl it⟩

/-- Under its own lock a thread may do what it likes, short of taking the flag back. -/
theorem ItemStep.inside (hmu : it.mu = some h) (hmono : it.processed → it'.processed := by exact id)
    (hkey : it'.key = it.key := by rfl) : ItemStep h it it' :=
  ⟨hkey, hmono, .inr (.inr hmu), fun _ _ hne => absurd hmu hne⟩

/-- A step that leaves lock and flag alone needs no lock. -/
theorem ItemStep.outside (h : Holder) (hu : it.processed = false → Untouched it it')
    (hkey : it'.key = it.key := by rfl) (hmu : it'.mu = it.mu := by rfl)
    (hp : it'.processed = it.processed := by rfl) : ItemStep h it it' :=
  ⟨hkey, fun hq => hp.trans hq, .inl ⟨hmu, hp⟩, fun hq _ _ => hu hq⟩

/-- Taking a free lock. -/
theorem ItemStep.acquire (h : Holder) (hfree : it.mu = none)
    (hkey : it'.key = it.key := by rfl) (hp : it'.processed = it.processed := by rfl) :
    ItemStep h it it' :=
  ⟨hkey, fun hq => hp.trans hq, .inr (.inl ⟨hfree, hp⟩), fun _ hne _ => absurd hfree hne⟩

variable {pc : JoinPc} {j : JoinCall K V} {c : CallId}

section

variable [DecidableEq K] {s s' : State K V} {i : ItemId} {o : Outcome V}

/-- What a `joinValue` call relies on: its item exists and is for its key, the lock is its own
    where it holds it, and the flag is what it knows it to be. -/
def CallOk (s : State K V) (c : CallId) (j : JoinCall K V) : Prop :=
  ∀ i, j.pc.item = some i → ∃ it, s.items[i]? = some it ∧ it.key = j.key ∧
    (j.pc.inside = some i → it.mu = some (.call c)) ∧
    ∀ b, j.pc.expects = some b → it.processed = b

/-- What an expiry coroutine relies on. -/
def ExpiryOk (s : State K V) (t : TaskId) (x : ExpiryTask) : Prop :=
  ∃ it, s.items[x.item]? = some it ∧ (x.pc.inside → it.mu = some (.expiry t)) ∧
    (x.pc.marked → it.processed)

/-- What a `stop` call relies on. -/
def StopOk (s : State K V) (n : Nat) (pc : StopPc) : Prop :=
  ∀ i rest, pc = .resetting i rest → ∃ it, s.items[i]? = some it ∧ it.mu = some (.stop n)

/-- A step of thread `h` keeps every item there is, and does to it what `h` may do; the values
    of a marked item change only when its expiry callback runs.  An item that appears is
    registered for its key at once. -/
structure ItemsStep (h : Holder) (s s' : State K V) : Prop where
  keeps : ∀ (i : ItemId) it, s.items[i]? = some it →
    ∃ it', s'.items[i]? = some it' ∧ ItemStep h it it'
  values : ∀ (i : ItemId) it it', s.items[i]? = some it → s'.items[i]? = some it' →
    it.processed → it'.values = it.values ∨ s'.expiries = s.expiries ++ [i]
  grows : s'.items.length = s.items.length ∨
    ∃ it, s'.items = s.items ++ [it] ∧ s'.findItemLocked it.key = some s.items.length

theorem ItemsStep.of_eq (h : Holder) (heq : s'.items = s.items := by rfl) : ItemsStep h s s' := by
  refine ⟨?_, ?_, .inl (by rw [heq])⟩
  · intro i it hit
    exact ⟨it, by rw [heq]; exact hit, ItemStep.refl h it⟩
  · intro i it it' hit hit' _
    rw [heq, hit] at hit'
    cases hit'
    exact .inl rfl

theorem ItemsStep.of_set (hit : s.items[i]? = some it) (heq : s'.items = s.items.set i it')
    (hstep : ItemStep h it it')
    (hvalues : it.processed → it'.values = it.values ∨ s'.expiries = s.expiries ++ [i] := by
      exact fun _ => .inl rfl) : ItemsStep h s s' := by
  refine ⟨?_, ?_, .inl (by rw [heq, length_set])⟩
  · intro k itk hk
    by_cases hki : i = k
    · subst hki
      cases hk.symm.trans hit
      refine ⟨it', ?_, hstep⟩
      rw [heq, getElem?_set_some hit]
    · refine ⟨itk, ?_, ItemStep.refl h itk⟩
      rw [heq, getElem?_set_ne hki]
      exact hk
  · intro k itk itk' hk hk' hp
    rw [heq] at hk'
    rcases getElem?_set_cases hk' with ⟨rfl, rfl⟩ | ⟨-, hk'⟩
    · cases hk.symm.trans hit
      exact hvalues hp
    · rw [hk] at hk'
      cases hk'
      exact .inl rfl

theorem ItemsStep.of_append (h : Holder) (heq : s'.items = s.items ++ [it])
    (hfind : s'.findItemLocked it.key = some s.items.length) : ItemsStep h s s' := by
  have hold : ∀ (k : ItemId) itk, s.items[k]? = some itk → s'.items[k]? = some itk := by
    intro k itk hk
    rw [heq, getElem?_append_left (lt_of_getElem? hk)]
    exact hk
  refine ⟨fun k itk hk => ⟨itk, hold k itk hk, ItemStep.refl h itk⟩, ?_, .inr ⟨it, heq, hfind⟩⟩
  intro k itk itk' hk hk' _
  rw [hold k itk hk] at hk'
  cases hk'
  exact .inl rfl

/-- Where an item of the later state comes from. -/
theorem ItemsStep.origin (hstep : ItemsStep h s s') (hit' : s'.items[i]? = some it') :
    (∃ it, s.items[i]? = some it ∧ ItemStep h it it') ∨
      (i = s.items.length ∧ s'.findItemLocked it'.key = some i) := by
  rcases Nat.lt_or_ge i s.items.length with hlt | hge
  · left
    obtain ⟨it₁, hit₁, hs⟩ := hstep.keeps i _ (getElem?_eq_getElem hlt)
    cases hit₁.symm.trans hit'
    exact ⟨_, getElem?_eq_getElem hlt, hs⟩
  · right
    have hi := lt_of_getElem? hit'
    rcases hstep.grows with hlen | ⟨it₁, happ, hfind⟩
    · omega
    · have hlast : i = s.items.length := by
        rw [happ, length_append, length_singleton] at hi
        exact Nat.le_antisymm (Nat.le_of_lt_succ hi) hge
      subst hlast
      rw [happ, getElem?_concat_length] at hit'
      cases hit'
      exact ⟨rfl, hfind⟩

/-! ### The others are not disturbed -/

/-- A call that knows its item to be unprocessed is inside it. -/
theorem JoinPc.inside_of_expects_false (hi : pc.item = some i) (he : pc.expects = some false) :
    pc.inside = some i := by
  cases pc <;> simp_all [JoinPc.expects, JoinPc.item, JoinPc.inside]

/-- The steps of others leave a call its item. -/
theorem CallOk.frame (hj : CallOk s c j) (hstep : ItemsStep h s s') (hne : h ≠ .call c) :
    CallOk s' c j := by
  intro i hi
  obtain ⟨it, hit, hkey, hmu, hexp⟩ := hj i hi
  obtain ⟨it', hit', hs⟩ := hstep.keeps i it hit
  -- While the call is inside, the item is exactly as it left it.
  have hstay : j.pc.inside = some i → it'.mu = it.mu ∧ it'.processed = it.processed := by
    intro hin
    rcases hs.frame with hsame | ⟨hfree, -⟩ | hmine
    · exact hsame
    · simp [hmu hin] at hfree
    · rw [hmu hin] at hmine
      exact absurd (some.inj hmine).symm hne
  refine ⟨it', hit', hs.key.trans hkey, fun hin => (hstay hin).1.trans (hmu hin), ?_⟩
  intro b hb
  cases b with
  | true => exact hs.mono (hexp true hb)
  | false => exact (hstay (JoinPc.inside_of_expects_false hi hb)).2.trans (hexp false hb)

theorem ExpiryOk.frame {t : TaskId} {x : ExpiryTask} (hx : ExpiryOk s t x)
    (hstep : ItemsStep h s s') (hne : h ≠ .expiry t) : ExpiryOk s' t x := by
  obtain ⟨it, hit, hmu, hmark⟩ := hx
  obtain ⟨it', hit', hs⟩ := hstep.keeps _ it hit
  refine ⟨it', hit', ?_, fun hm => hs.mono (hmark hm)⟩
  intro hin
  rcases hs.frame with hsame | ⟨hfree, -⟩ | hmine
  · exact hsame.1.trans (hmu hin)
  · simp [hmu hin] at hfree
  · rw [hmu hin] at hmine
    exact absurd (some.inj hmine).symm hne

theorem StopOk.frame {n : Nat} {pc : StopPc} (hpc : StopOk s n pc) (hstep : ItemsStep h s s')
    (hne : h ≠ .stop n) : StopOk s' n pc := by
  intro i rest heq
  obtain ⟨it, hit, hmu⟩ := hpc i rest heq
  obtain ⟨it', hit', hs⟩ := hstep.keeps i it hit
  refine ⟨it', hit', ?_⟩
  rcases hs.frame with hsame | ⟨hfree, -⟩ | hmine
  · exact hsame.1.trans hmu
  · simp [hmu] at hfree
  · rw [hmu] at hmine
    exact absurd (some.inj hmine).symm hne

/-! ### Effects -/

/-- What a step does to the flags and to the history of callbacks, for a thread that goes from
    owing the expiry callback of `o` to owing that of `o'`. -/
inductive FateStep (s s' : State K V) : Option ItemId → Option ItemId → Prop
  | quiet {o : Option ItemId} : s'.expiries = s.expiries → s'.completions = s.completions →
      FateStep s s' o o
  /-- The thread marks an item as expired. -/
  | mark {i : ItemId} {it it' : Item K V} : s.items[i]? = some it → it.processed = false →
      s'.items[i]? = some it' → it'.processed → s'.expiries = s.expiries →
      s'.completions = s.completions → FateStep s s' none (some i)
  /-- The thread runs the expiry callback. -/
  | run {i : ItemId} : s'.expiries = s.expiries ++ [i] → s'.completions = s.completions →
      FateStep s s' (some i) none
  /-- A callback returned true. -/
  | complete {i : ItemId} {it it' : Item K V} : s.items[i]? = some it → it.processed = false →
      s'.items[i]? = some it' → it'.processed → s'.expiries = s.expiries →
      s'.completions = s.completions ++ [i] → FateStep s s' none none

/-- What a step of call `c` from `pc` to `pc'` does to the history of appended values. -/
def AppendStep (s : State K V) (c : CallId) (pc : JoinPc) (s' : State K V) (pc' : JoinPc) :
    Prop :=
  (s'.appends = s.appends ∧ (pc'.appended = none ∨ pc'.appended = pc.appended)) ∨
    ∃ i, pc = .appending i ∧ pc' = .calling i ∧ s'.appends = s.appends ++ [(c, i)]

/-- New expiry coroutines are for items that exist and have not done anything yet. -/
def TasksStep (s s' : State K V) : Prop :=
  ∃ new, s'.expiryTasks = s.expiryTasks ++ new ∧
    ∀ x ∈ new, (∃ it, s'.items[x.item]? = some it) ∧ x.pc.inside = false ∧
      x.pc.marked = false ∧ x.owes = none

/-- The number of active operations follows the call, which becomes one only while the storage
    is running. -/
structure OpsStep (s s' : State K V) (pc pc' : JoinPc) : Prop where
  count : s'.activeOperations + (if pc.active then 1 else 0) =
    s.activeOperations + (if pc'.active then 1 else 0)
  life : s'.lifeState = s.lifeState
  admitted : pc'.active → pc.active ∨ s.lifeState = .running

/-- What a step of a call for `key` at `pc` does to the two generations of the map and to the
    count. -/
inductive MapStep (s : State K V) (key : K) (pc : JoinPc) (o : Outcome V) (s' : State K V) : Prop
  | same : s'.current = s.current → s'.previous = s.previous → s'.count = s.count →
      MapStep s key pc o s'
  /-- A new item, when there was none. -/
  | insert (it : Item K V) : s.findItemLocked key = none → it.key = key →
      s'.items = s.items ++ [it] → s'.current = s.current.insert key s.items.length →
      s'.previous = s.previous → s'.count = s.count + 1 → MapStep s key pc o s'
  /-- A renewal moves the item to the current generation. -/
  | relocate (i : ItemId) : pc = .relocating i → s.previous.lookup key = some i →
      s'.current = s.current.insert key i → s'.previous = s.previous.erase key →
      s'.count = s.count → MapStep s key pc o s'
  /-- A renewal erases the entry and cannot insert it again. -/
  | lose (i : ItemId) : pc = .relocating i → s.previous.lookup key = some i →
      s'.current = s.current → s'.previous = s.previous.erase key → o.fails →
      MapStep s key pc o s'
  | remove (i : ItemId) (eviction : Bool) (k : AfterRemoval) : pc = .removing i eviction k →
      s'.current = (s.removeIfSame key i).current →
      s'.previous = (s.removeIfSame key i).previous →
      s'.count = (s.removeIfSame key i).count → MapStep s key pc o s'

/-- What a step of a `joinValue` call does. -/
structure JoinEffect (s : State K V) (c : CallId) (j : JoinCall K V) (o : Outcome V)
    (s' : State K V) : Prop where
  call : ∃ j', s'.calls = s.calls.set c j' ∧ j'.key = j.key ∧ CallOk s' c j' ∧
    FateStep s s' j.pc.owes j'.pc.owes ∧ AppendStep s c j.pc s' j'.pc ∧
    OpsStep s s' j.pc j'.pc
  items : ItemsStep (.call c) s s'
  tasks : TasksStep s s'
  stops : s'.stops = s.stops
  maps : MapStep s j.key j.pc o s'
  config : s'.config = s.config
  moved : CallMoved s c j o s'

theorem OpsStep.same {pc' : JoinPc} (hact : pc'.active = pc.active := by rfl)
    (hcount : s'.activeOperations = s.activeOperations := by rfl)
    (hlife : s'.lifeState = s.lifeState := by rfl) : OpsStep s s' pc pc' := by
  refine ⟨?_, hlife, fun h => .inl (hact.symm.trans h)⟩
  rw [hact, hcount]

/-- A move that neither the histories nor the count of operations record. -/
structure JoinPc.Passes (pc pc' : JoinPc) : Prop where
  owes : pc'.owes = pc.owes
  appended : pc'.appended = none ∨ pc'.appended = pc.appended
  active : pc'.active = pc.active

theorem TasksStep.of_eq (heq : s'.expiryTasks = s.expiryTasks := by rfl) : TasksStep s s' :=
  ⟨[], by rw [heq, append_nil], fun _ hx => absurd hx not_mem_nil⟩

section

variable (hit : s.items[i]? = some it)
include hit

/-- `CallOk` when the item is the one just written. -/
theorem CallOk.of_set
    (hok : ∀ k, j.pc.item = some k → k = i ∧ it'.key = j.key ∧
      (j.pc.inside = some k → it'.mu = some (.call c)) ∧
      ∀ b, j.pc.expects = some b → it'.processed = b)
    (heq : s'.items = s.items.set i it' := by rfl) : CallOk s' c j := by
  intro k hk
  obtain ⟨rfl, hrest⟩ := hok k hk
  refine ⟨it', ?_, hrest⟩
  rw [heq, getElem?_set_some hit]

/-- A step of a call that writes one item, and does nothing that the history records. -/
theorem JoinEffect.write (hstep : ItemStep (.call c) it it') (hkey : it.key = j.key)
    (hmove : JoinMove s j o ((s.setItem i it').setPc c j pc) { j with pc := pc })
    (hexp : ∀ b, pc.expects = some b → it'.processed = b := by rintro b ⟨⟩)
    (hin : pc.inside = none ∨ it'.mu = some (.call c) := by exact .inl rfl)
    (hpass : j.pc.Passes pc := by exact ⟨rfl, .inr rfl, rfl⟩)
    (hitem : pc.item = none ∨ pc.item = some i := by exact .inr rfl)
    (hvalues : it.processed → it'.values = it.values := by exact fun _ => rfl) :
    JoinEffect s c j o ((s.setItem i it').setPc c j pc) := by
  refine ⟨⟨_, rfl, rfl, .of_set hit ?_, ?_, .inl ⟨rfl, hpass.appended⟩, .same hpass.active⟩,
    .of_set hit rfl hstep (fun hp => .inl (hvalues hp)), .of_eq, rfl, .same rfl rfl rfl, rfl,
    .of_pc rfl hmove⟩
  · intro k hk
    refine ⟨?_, hstep.key.trans hkey, ?_, hexp⟩
    · rcases hitem with hnone | hsome
      · exact absurd (hk.symm.trans hnone) (by simp)
      · exact some.inj (hk.symm.trans hsome)
    · intro hk'
      rcases hin with hnone | hmu
      · exact absurd (hk'.symm.trans hnone) (by simp)
      · exact hmu
  · show FateStep _ _ j.pc.owes pc.owes
    rw [hpass.owes]
    exact .quiet rfl rfl

/-- A step of a call that gives its item back and leaves. -/
theorem JoinEffect.unwind {r : Option JoinError}
    (hstep : ItemStep (.call c) it it') (hkey : it.key = j.key)
    (hmove : JoinMove s j o ((s.setItem i it').setPc c j (.leaving r))
      { j with pc := .leaving r })
    (hvalues : it.processed → it'.values = it.values)
    (hpass : j.pc.Passes (.leaving r) := by exact ⟨rfl, .inl rfl, rfl⟩) :
    JoinEffect s c j o ((s.setItem i it').setPc c j (.leaving r)) :=
  .write hit hstep hkey hmove (by rintro b ⟨⟩) (.inl rfl) hpass (.inl rfl) hvalues

end

/-- A step of a call that writes no item. -/
theorem JoinEffect.move {j' : JoinCall K V} (hcalls : s'.calls = s.calls.set c j')
    (hok : CallOk s c j') (howes : j'.pc.owes = j.pc.owes)
    (happ : j'.pc.appended = none ∨ j'.pc.appended = j.pc.appended)
    (hops : OpsStep s s' j.pc j'.pc) (hmove : JoinMove s j o s' j')
    (htasks : TasksStep s s' := by exact .of_eq)
    (hmaps : MapStep s j.key j.pc o s' := by exact .same rfl rfl rfl)
    (hkey : j'.key = j.key := by rfl)
    (hctx : j'.ctx = j.ctx := by rfl) (hitems : s'.items = s.items := by rfl)
    (hstops : s'.stops = s.stops := by rfl) (happends : s'.appends = s.appends := by rfl)
    (hexpiries : s'.expiries = s.expiries := by rfl)
    (hcompletions : s'.completions = s.completions := by rfl)
    (hconfig : s'.config = s.config := by rfl)
    (hcancel : s'.expiryCancelled = s.expiryCancelled := by rfl) : JoinEffect s c j o s' where
  call := by
    refine ⟨j', hcalls, hkey, ?_, ?_, .inl ⟨happends, happ⟩, hops⟩
    · intro k hk
      rw [hitems]
      exact hok k hk
    · rw [howes]
      exact .quiet hexpiries hcompletions
  items := .of_eq _ hitems
  tasks := htasks
  stops := hstops
  maps := hmaps
  config := hconfig
  moved := ⟨j', hcalls, hctx, hcancel, hmove⟩

/-- A step of a call that moves on and does nothing else. -/
theorem JoinEffect.walk (hok : CallOk s c { j with pc := pc })
    (hmove : JoinMove s j o (s.setPc c j pc) { j with pc := pc } := by
      exact .idle rfl rfl (by rintro _ ⟨⟩) rfl rfl)
    (hpass : j.pc.Passes pc := by exact ⟨rfl, .inr rfl, rfl⟩) :
    JoinEffect s c j o (s.setPc c j pc) :=
  .move rfl hok hpass.owes hpass.appended (.same hpass.active) hmove

/-- A step of a call that starts coroutines at most. -/
theorem JoinEffect.start {tasks : List ExpiryTask} (hok : CallOk s c { j with pc := pc })
    (htasks : TasksStep s { s with expiryTasks := tasks })
    (hmove : JoinMove s j o ({ s with expiryTasks := tasks }.setPc c j pc) { j with pc := pc })
    (hpass : j.pc.Passes pc) : JoinEffect s c j o ({ s with expiryTasks := tasks }.setPc c j pc) :=
  .move rfl hok hpass.owes hpass.appended (.same hpass.active) hmove htasks

/-- A step of a call that moves on and rearranges the map. -/
theorem JoinEffect.rearrange {current previous : Generation K} {count : Int}
    (hok : CallOk s c { j with pc := pc })
    (hmaps : MapStep s j.key j.pc o ({ s with
      current := current, previous := previous, count := count }.setPc c j pc))
    (hpass : j.pc.Passes pc := by exact ⟨rfl, .inr rfl, rfl⟩)
    (harms : j.pc.arms = none ∧ pc.arms = none := by exact ⟨rfl, rfl⟩)
    (hins : ∀ deadline, pc ≠ .inserting deadline := by rintro _ ⟨⟩) :
    JoinEffect s c j o ({ s with
      current := current, previous := previous, count := count }.setPc c j pc) :=
  .move rfl hok hpass.owes hpass.appended (.same hpass.active)
    (.idle harms.1 harms.2 (fun _ h => absurd h (hins _)) rfl rfl) .of_eq hmaps

/-- A call that stays with its item, knowing no more than before. -/
theorem CallOk.weaken {j' : JoinCall K V} (hj : CallOk s c j) (hkey : j'.key = j.key)
    (hitem : j'.pc.item = none ∨ j'.pc.item = j.pc.item)
    (hin : j'.pc.inside = none ∨ j'.pc.inside = j.pc.inside)
    (hexp : j'.pc.expects = none ∨ j'.pc.expects = j.pc.expects) : CallOk s c j' := by
  intro i hi
  have hi' : j.pc.item = some i := by
    rcases hitem with hnone | hsame
    · exact absurd (hi.symm.trans hnone) (by simp)
    · exact hsame.symm.trans hi
  obtain ⟨it, hit, hkey', hmu, hflag⟩ := hj i hi'
  refine ⟨it, hit, hkey'.trans hkey.symm, fun h => hmu ?_, fun b hb => hflag b ?_⟩
  · rcases hin with hnone | hsame
    · exact absurd (h.symm.trans hnone) (by simp)
    · exact hsame.symm.trans h
  · rcases hexp with hnone | hsame
    · exact absurd (hb.symm.trans hnone) (by simp)
    · exact hsame.symm.trans hb

theorem CallOk.of_none (h : j.pc.item = none) : CallOk s c j := by
  intro i hi
  simp [h] at hi

/-- Both generations of the map lead to items that were made for the key. -/
def KeysOk (s : State K V) : Prop :=
  ∀ key (i : ItemId), s.current.lookup key = some i ∨ s.previous.lookup key = some i →
    ∃ it, s.items[i]? = some it ∧ it.key = key

theorem KeysOk.findItemLocked {key : K} (hk : KeysOk s) (hf : s.findItemLocked key = some i) :
    ∃ it, s.items[i]? = some it ∧ it.key = key := by
  refine hk key i ?_
  unfold State.findItemLocked at hf
  cases hc : s.current.lookup key with
  | none =>
    right
    simpa [hc] using hf
  | some k =>
    left
    simpa [hc] using hf

/-- `removeIfSame` touches the maps and the count only. -/
theorem removeIfSame_frame (s : State K V) (key : K) (i : ItemId) :
    ∃ current previous count, s.removeIfSame key i =
      { s with current := current, previous := previous, count := count } := by
  unfold State.removeIfSame
  split
  · exact ⟨_, s.previous, _, rfl⟩
  · split
    · exact ⟨s.current, _, _, rfl⟩
    · exact ⟨s.current, s.previous, s.count, rfl⟩

end

end ServiceLib.Join
