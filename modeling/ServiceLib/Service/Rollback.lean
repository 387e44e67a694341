import ServiceLib.Service.Runs

namespace ServiceLib.Service

/-!
# Service lifecycle — the rollback of a failed start

`startImpl` records every entry in `started_` before it calls its `start`; when one of them
throws, `stopStarted` stops what was recorded in reverse order, and so does every later `stop`
until all of it has stopped.  `clear` then forgets the record, so its order is kept as history.
-/

open List

/-! ### History -/

/-- What a start has done. -/
structure StartHistory where
  /-- The entries whose start was begun, in that order. -/
  begun : List Nat := []
  /-- The call in which a `start` threw. -/
  failed : Option Nat := none
  deriving DecidableEq, Repr

/-- A round of the loop of `startImpl` begins the start of an entry. -/
def recordStart (s : Lifecycle) (a : Action) (η : StartHistory) : StartHistory :=
  match a with
  | .run t o =>
    match s.calls[t]?.map Call.pc with
    | some (.starting (i :: _)) => ⟨η.begun ++ [i], if o == .ok then η.failed else some t⟩
    | _ => η
  | _ => η

/-- The lifecycle with this history. -/
def startingSystem : System (Lifecycle × StartHistory) Action :=
  system.withHistory {} recordStart

/-! ### Invariants -/

/-- Whether `start` of component `i` was called. -/
def beganAt (components : List Component) (i : Nat) : Bool := components[i]?.any (·.started)

def Method.starts : Method → Bool
  | .start | .startGraph => true
  | _ => false

theorem Method.starts_iff {m : Method} : m.starts ↔ m = .start ∨ m = .startGraph := by
  cases m <;> decide

/-- Whether a call is in the rollback, or has rethrown what made its start fail. -/
def CallPc.rolledBack : CallPc → Bool
  | .launching p _ _ | .awaiting p _ _ => p.isRollback
  | .threw e => e = .startFailed
  | _ => false

/-- Whether only a start gets there. -/
def CallPc.ofStart : CallPc → Bool
  | .atGate .start | .starting _ => true
  | _ => false

/-- What the order of the starts says, whoever is inside the gate. -/
structure RollCore (s : Lifecycle) (η : StartHistory) : Prop where
  nodup : η.begun.Nodup
  created : s.state = .created → η.begun = []
  record : s.ran = false → s.state ≠ .stopped → s.started = η.begun
  size : s.state ≠ .stopped → s.components.length = s.entries.length
  began : ∀ i, beganAt s.components i ↔ i ∈ η.begun
  /-- An operation is launched when everything that was begun after its entry has stopped. -/
  order : s.ran = false → ∀ i ∈ s.operations.map (·.entry),
    ∃ pre post, η.begun = pre ++ i :: post ∧ ∀ j ∈ post, startedAt s.entries j = false

/-- What a call in a start or in the rollback knows of the order. -/
def RollCall (size : Nat) (begun : List Nat) : CallPc → Prop
  | .starting todo => (begun ++ todo).Nodup ∧ ∀ i ∈ todo, i < size
  | .launching (.rollback rest) entries _ => ∃ i post, entries = [i] ∧
      begun = rest.reverse ++ i :: post
  | .awaiting (.rollback rest) _ _ => ∃ post, begun = rest.reverse ++ post
  | _ => True

/-- The start that failed ends with what its entry threw, and nothing starts again. -/
structure Ended (s : Lifecycle) : Prop where
  ran : s.ran = false
  state : s.state = .stopping ∨ s.state = .stopped

/-- What every call says about the order of the starts. -/
structure Rolled (s : Lifecycle) (η : StartHistory) : Prop where
  core : RollCore s η
  calls : ∀ c ∈ s.calls, RollCall s.components.length η.begun c.pc
  methods : ∀ c ∈ s.calls, c.pc.ofStart → c.method.starts
  failed : ∀ t, η.failed = some t → Ended s ∧ ∃ c, s.calls[t]? = some c ∧
    c.method.starts ∧ c.pc.rolledBack

variable {s s' : Lifecycle} {η : StartHistory} {t : Nat} {c c' : Call}

theorem Rolled.atPc {pc : CallPc} (h : Rolled s η) (ht : s.calls[t]? = some c) (hpc : c.pc = pc) :
    RollCall s.components.length η.begun pc :=
  hpc ▸ h.calls c (mem_of_getElem? ht)

/-! ### Frames -/

/-- What a step may change without a start being begun. -/
theorem RollCore.frame (h : RollCore s η) (hcreated : s'.state = .created → s.state = .created)
    (hran : s'.ran = false → s.ran = false)
    (hrecord : s'.state ≠ .stopped → s.state ≠ .stopped ∧ s'.started = s.started ∧
      (s.components.length = s.entries.length → s'.components.length = s'.entries.length))
    (hbegan : ∀ i, beganAt s'.components i = beganAt s.components i)
    (hops : ∀ i ∈ s'.operations.map (·.entry), i ∈ s.operations.map (·.entry))
    (hshrink : ∀ j, startedAt s.entries j = false → startedAt s'.entries j = false) :
    RollCore s' η where
  nodup := h.nodup
  created hc := h.created (hcreated hc)
  record hr hs := (hrecord hs).2.1.trans (h.record (hran hr) (hrecord hs).1)
  size hs := (hrecord hs).2.2 (h.size (hrecord hs).1)
  began i := by
    rw [hbegan i]
    exact h.began i
  order hr i hi := by
    obtain ⟨pre, post, hsplit, hpost⟩ := h.order (hran hr) i (hops i hi)
    exact ⟨pre, post, hsplit, fun j hj => hshrink j (hpost j hj)⟩

theorem RollCore.stopped (h : RollCore s η) (pending : Bool) :
    RollCore { s with rollbackPending := pending, state := .stopped }.clear η :=
  h.frame (by rintro ⟨⟩) id (fun hne => absurd rfl hne) (fun _ => rfl) (fun _ hi => hi)
    (fun _ _ => rfl)

/-- The core does not look at the calls. -/
theorem RollCore.ofCalls (h : RollCore s η) (calls : List Call) (busy : Bool) :
    RollCore { s with calls := calls, busy := busy } η :=
  { h with }

variable {pc : CallPc} {u : Lifecycle} {todo : List Nat} {i : Nat} {p : Phase} {begun : List Nat}

/-- Components are added, never removed. -/
theorem RollCall.mono {n m : Nat} (h : RollCall n begun pc) (hle : n ≤ m) :
    RollCall m begun pc := by
  cases pc with
  | starting todo => exact ⟨h.1, fun i hi => Nat.lt_of_lt_of_le (h.2 i hi) hle⟩
  | launching p | awaiting p => cases p <;> exact h
  | _ => trivial

/-- A call outside the gate knows nothing. -/
theorem RollCall.of_outside {n : Nat} (hout : pc.inside = false) :
    RollCall n begun pc := by
  cases pc with
  | starting | launching | awaiting => cases hout
  | _ => trivial

/-- A step of call `t` that begins no start. -/
theorem Rolled.stepCall (h : Rolled s η) (ht : s.calls[t]? = some c)
    (hcalls : s'.calls = s.calls.set t c') (hsize : s.components.length ≤ s'.components.length)
    (hcore : RollCore s' η) (hcall : RollCall s'.components.length η.begun c'.pc)
    (hmethod : c'.pc.ofStart → c'.method.starts) (hend : Ended s → Ended s')
    (hback : c.method.starts → c.pc.rolledBack →
      c'.method.starts ∧ c'.pc.rolledBack) : Rolled s' η where
  core := hcore
  calls := by
    rw [hcalls]
    exact forall_mem_set (fun d hd => (h.calls d hd).mono hsize) hcall
  methods := by
    rw [hcalls]
    exact forall_mem_set h.methods hmethod
  failed u hu := by
    obtain ⟨hended, d, hd, hrolled⟩ := h.failed u hu
    refine ⟨hend hended, ?_⟩
    rw [hcalls]
    exact exists_getElem?_set_of ht (fun hrolled => hback hrolled.1 hrolled.2) hd hrolled

section

variable (h : Rolled s η) (ht : s.calls[t]? = some c) (hcore : RollCore u η)
  (hcalls : u.calls = s.calls) (hsize : s.components.length ≤ u.components.length)
  (hend : Ended s → Ended u)
include h ht hcore hcalls hsize hend

/-- Call `t` leaves the gate, in a lifecycle that is now `u` but for that. -/
theorem Rolled.leave (hout : pc.inside = false) (hof : pc.ofStart = false)
    (hback : c.method.starts → c.pc.rolledBack → pc.rolledBack) : Rolled (u.leave t c pc) η := by
  have hset : (u.leave t c pc).calls = s.calls.set t { c with pc := pc } := by
    rw [← hcalls]
    rfl
  exact h.stepCall ht hset hsize (hcore.ofCalls _ _) (.of_outside hout)
    (fun hof' => absurd (hof.symm.trans hof') (by decide))
    (fun he => ⟨(hend he).ran, (hend he).state⟩) (fun hs hr => ⟨hs, hback hs hr⟩)

/-- The same for the end of `stopBeforeGraphDrain`. -/
theorem Rolled.endBefore (hback : c.method.starts → c.pc.rolledBack = false) :
    Rolled (u.endBefore t c) η := by
  have hnot : ∀ {pc : CallPc}, c.method.starts → c.pc.rolledBack →
      pc.rolledBack := by
    intro pc hs hr
    simp [hback hs] at hr
  unfold Lifecycle.endBefore
  split
  · exact h.leave ht hcore hcalls hsize hend rfl rfl hnot
  · exact h.leave ht hcore hcalls hsize hend rfl rfl hnot

end

/-! ### The rollback -/

/-- A call of a start method rethrows what made the start fail, whatever ends the rollback. -/
theorem fail_eq_leave (s : Lifecycle) (t : Nat) (c : Call) (e : LifecycleError) :
    ∃ pc, s.fail t c e = s.leave t c pc ∧ pc.inside = false ∧ pc.ofStart = false ∧
      (c.method.starts → pc.rolledBack) := by
  refine ⟨_, rfl, rfl, rfl, fun hstarts => ?_⟩
  rw [if_pos (Method.starts_iff.mp hstarts)]
  rfl

/-- A call throws; what was begun stays recorded. -/
theorem Rolled.fail (h : Rolled s η) (ht : s.calls[t]? = some c) (e : LifecycleError) :
    Rolled (s.fail t c e) η := by
  obtain ⟨pc, hfail, hout, hof, hrolled⟩ := fail_eq_leave s t c e
  rw [hfail]
  exact h.leave ht h.core rfl (Nat.le_refl _) id hout hof (fun hstarts _ => hrolled hstarts)

/-- `stopStarted` goes on with the entries `todo`, which were begun first. -/
theorem Rolled.rollbackFrom (h : Rolled s η) (ht : s.calls[t]? = some c) (hcore : RollCore u η)
    (hcalls : u.calls = s.calls) (hsize : s.components.length ≤ u.components.length)
    (hend : Ended u) (hbegun : ∃ post, η.begun = todo.reverse ++ post) :
    Rolled (u.rollbackFrom t c todo) η := by
  cases todo with
  | nil =>
    have hcleared := hcore.stopped false
    have hend' : Ended { u with rollbackPending := false, state := .stopped }.clear :=
      ⟨hend.ran, .inr rfl⟩
    unfold Lifecycle.rollbackFrom
    simp only
    split
    · exact h.leave ht hcleared hcalls hsize (fun _ => hend') rfl rfl (fun _ _ => rfl)
    next hmethod =>
      refine h.endBefore ht hcleared hcalls hsize (fun _ => hend') (fun hs => ?_)
      exact absurd (Method.starts_iff.mp hs) hmethod
  | cons i rest =>
    obtain ⟨post, hpost⟩ := hbegun
    rw [reverse_cons, append_assoc] at hpost
    have hset : (u.rollbackFrom t c (i :: rest)).calls =
        s.calls.set t { c with pc := .launching (.rollback rest) [i] [i] } := by
      rw [← hcalls]
      rfl
    exact h.stepCall ht hset hsize (hcore.ofCalls _ _) ⟨i, post, rfl, hpost⟩ (by rintro ⟨⟩)
      (fun _ => ⟨hend.ran, hend.state⟩) (fun hstarts _ => ⟨hstarts, rfl⟩)

theorem beganAt_modify {components : List Component} {f : Component → Component}
    (hf : ∀ x, (f x).started = x.started) (j : Nat) :
    beganAt (components.modify i f) j = beganAt components j := by
  unfold beganAt
  by_cases hij : i = j
  · subst hij
    rw [getElem?_modify_eq]
    cases components[i]? with
    | none => rfl
    | some x => exact hf x
  · rw [getElem?_modify_ne _ _ hij]

theorem beganAt_append_unstarted {components : List Component} {x : Component}
    (hx : x.started = false) (i : Nat) :
    beganAt (components ++ [x]) i = beganAt components i := any_append_singleton hx i

theorem startedAt_modify_false {entries : List Entry} {f : Entry → Entry}
    (hf : ∀ e, (f e).started → e.started) (j : Nat) (h : startedAt entries j = false) :
    startedAt (entries.modify i f) j = false := by
  cases hj : startedAt (entries.modify i f) j with
  | false => rfl
  | true =>
    obtain ⟨e, he, hs⟩ := exists_of_startedAt hj
    rcases getElem?_modify_cases he with ⟨rfl, e₀, he₀, rfl⟩ | ⟨-, he₀⟩
    · simp [startedAt_eq he₀, hf e₀ hs] at h
    · simp [startedAt_eq he₀, hs] at h

/-- Call `t` goes on in the loops of one phase, in a lifecycle that is now `u` but for that. -/
theorem Rolled.goOn (h : Rolled s η) (ht : s.calls[t]? = some c) (hcore : RollCore u η)
    (hcall : RollCall u.components.length η.begun pc) (hback : c.pc.rolledBack → pc.rolledBack)
    (hsize : u.components.length = s.components.length := by rfl)
    (hcalls : u.calls = s.calls := by rfl) (hmethod : c'.method = c.method := by rfl)
    (hstate : u.state = s.state := by rfl) (hran : u.ran = s.ran := by rfl)
    (hof : pc.ofStart = false := by rfl) : Rolled (u.setCall t c' pc) η := by
  have hset : (u.setCall t c' pc).calls = s.calls.set t { c' with pc := pc } := by
    rw [← hcalls]
    rfl
  refine h.stepCall ht hset (Nat.le_of_eq hsize.symm) (hcore.ofCalls _ _) hcall
    (fun hof' => absurd (hof.symm.trans hof') (by decide)) (fun he => ⟨hran.trans he.ran, ?_⟩)
    (fun hs hr => ⟨?_, hback hr⟩)
  · show u.state = _ ∨ u.state = _
    rw [hstate]
    exact he.state
  · show c'.method.starts
    rw [hmethod]
    exact hs

/-- A new operation: what was begun after its entry is neither in the list of the phase nor in
    the phases that follow, so it has stopped. -/
theorem Rolled.launch (h : Rolled s η) (hi : Inv s) (ht : s.calls[t]? = some c) {entries : List Nat}
    (hpc : c.pc = .launching p entries todo) (hmem : i ∈ entries) : RollCore (s.launch i) η := by
  have hshrink : ∀ j, startedAt s.entries j = false → startedAt (s.launch i).entries j = false :=
    startedAt_modify_false (fun _ hs => hs)
  refine ⟨h.core.nodup, h.core.created, h.core.record, fun hs => ?_, h.core.began,
    fun hran k hk => ?_⟩
  · exact (h.core.size hs).trans (length_modify _ _ _).symm
  change k ∈ (s.operations ++ [StopOperation.mk i .spawned]).map (·.entry) at hk
  rw [map_append, mem_append] at hk
  rcases hk with hk | hk
  · obtain ⟨pre, post, hsplit, hpost⟩ := h.core.order hran k hk
    exact ⟨pre, post, hsplit, fun j hj => hshrink j (hpost j hj)⟩
  · obtain rfl : k = i := mem_singleton.mp hk
    have hl : Launching s c.owed p entries todo := hi.atPc ht hpc
    have hroll := h.atPc ht hpc
    cases p with
    | stage g =>
      exact absurd ((hi.core.ran hl.state hl.pending).symm.trans hran) (by decide)
    | rollback rest =>
      obtain ⟨i, post, rfl, hsplit⟩ := hroll
      obtain rfl : k = i := mem_singleton.mp hmem
      refine ⟨rest.reverse, post, hsplit, fun j hj => hshrink j ?_⟩
      have hnodup := h.core.nodup
      rw [hsplit, nodup_append, nodup_cons] at hnodup
      obtain ⟨-, ⟨hfresh, -⟩, hdisjoint⟩ := hnodup
      cases hs : startedAt s.entries j with
      | false => rfl
      | true =>
        obtain ⟨e, he, hstarted⟩ := exists_of_startedAt hs
        rcases hl.cover j e he hstarted with hjk | hjr
        · obtain rfl : j = k := mem_singleton.mp hjk
          exact absurd hj hfresh
        · exact absurd rfl (hdisjoint j (mem_reverse.mpr hjr) j (mem_cons_of_mem _ hj))

/-- A round of the loop that launches the operations. -/
theorem Rolled.launchStep (h : Rolled s η) (hi : Inv s) (ht : s.calls[t]? = some c)
    {entries : List Nat} {ok : Bool} (hpc : c.pc = .launching p entries todo)
    (hs : s.launchStep t c p entries todo ok = some s') : Rolled s' η := by
  have hroll := h.atPc ht hpc
  have hround : ∀ todo', RollCall s.components.length η.begun (.launching p entries todo') := by
    intro todo'
    cases p <;> exact hroll
  unfold Lifecycle.launchStep at hs
  split at hs
  case h_1 =>
    cases hs
    refine h.goOn ht h.core ?_ (fun hb => by rwa [hpc] at hb)
    cases p with
    | stage => trivial
    | rollback rest =>
      obtain ⟨i, post, -, hsplit⟩ := hroll
      exact ⟨i :: post, hsplit⟩
  case h_2 i todo =>
    split at hs
    case h_1 => cases hs
    case h_2 e he =>
      split at hs
      case isTrue =>
        cases hs
        exact h.goOn ht h.core (hround todo) (fun hb => by rwa [hpc] at hb)
      case isFalse =>
        split at hs
        · cases hs
          have hmem : i ∈ entries := by
            have hl := hi.atPc ht hpc
            exact hl.rounds i mem_cons_self
          exact h.goOn ht (h.launch hi ht hpc hmem) (hround todo) (fun hb => by rwa [hpc] at hb)
        · cases hs
          exact h.fail ht .resource

/-! ### The second loop -/

theorem RollCore.unsettle (h : RollCore s η) (i : Nat) : RollCore (s.unsettle i) η :=
  h.frame id id (fun hs => ⟨hs, rfl, fun hsize => (length_modify _ _ _).trans hsize⟩)
    (beganAt_modify (fun _ => rfl)) (fun _ hi => hi) (fun _ hj => hj)

/-- An entry that was stopped is not started. -/
theorem RollCore.detach (h : RollCore s η) (i : Nat) (failed : Bool) :
    RollCore (s.detach i failed) η :=
  h.frame id id (fun hs => ⟨hs, rfl, fun hsize => hsize.trans (length_modify _ _ _).symm⟩)
    (fun _ => rfl) (fun _ hi => hi)
    (startedAt_modify_false (fun _ hs => ((Bool.and_eq_true _ _).mp hs).1))

/-- A `stopPhase` returned normally. -/
theorem Rolled.endPhase (h : Rolled s η) (hi : Inv s) (ht : s.calls[t]? = some c)
    (hpc : c.pc = .awaiting p [] none) : Rolled (s.endPhase t c p) η := by
  have ha : Awaiting s c.owed p [] none := hi.atPc ht hpc
  cases p with
  | rollback rest =>
    have hroll := h.atPc ht hpc
    exact h.rollbackFrom ht h.core rfl (Nat.le_refl _)
      ⟨hi.core.not_ran ha.state ha.pending, .inl ha.state⟩ hroll
  | stage g =>
    have hnot : c.pc.rolledBack = false := by rw [hpc]; rfl
    have habsurd : ∀ {P : Prop}, c.pc.rolledBack → P :=
      fun hb => absurd (hnot.symm.trans hb) (by decide)
    cases g with
    | admission => exact h.goOn ht h.core trivial habsurd
    | executors =>
      have hcore : RollCore { s with beforeGraphDrained := true } η :=
        { h.core with }
      exact h.endBefore ht hcore rfl (Nat.le_refl _) (fun he => ⟨he.ran, he.state⟩) (fun _ => hnot)
    | sinks =>
      exact h.leave ht (h.core.stopped _) rfl (Nat.le_refl _) (fun he => ⟨he.ran, .inr rfl⟩) rfl
        rfl (fun _ => habsurd)

/-- A round of the loop that waits for the operations. -/
theorem Rolled.awaitStep (h : Rolled s η) (hi : Inv s) (ht : s.calls[t]? = some c)
    {failure : Option LifecycleError} {o : Lifecycle.Outcome}
    (hpc : c.pc = .awaiting p todo failure) (hs : s.awaitStep t c p todo failure o = some s') :
    Rolled s' η := by
  have hround : ∀ n todo' failure', n = s.components.length →
      RollCall n η.begun (.awaiting p todo' failure') := by
    rintro n todo' failure' rfl
    have hroll := h.atPc ht hpc
    cases p <;> exact hroll
  have hback : ∀ todo' failure', c.pc.rolledBack →
      (CallPc.awaiting p todo' failure').rolledBack := by
    intro todo' failure' hb
    rwa [hpc] at hb
  unfold Lifecycle.awaitStep at hs
  split at hs
  case h_1 =>
    split at hs
    case h_1 e =>
      cases hs
      exact h.fail ht e
    case h_2 =>
      cases hs
      exact h.endPhase hi ht hpc
  case h_2 i todo =>
    split at hs
    case h_1 => cases hs
    case h_2 e he =>
      split at hs
      case isTrue =>
        cases hs
        exact h.goOn ht h.core (hround _ _ _ rfl) (hback _ _)
      case isFalse =>
        split at hs
        case h_1 => cases hs
        case h_2 op hop =>
          have hlen : (s.unsettle i).components.length = s.components.length :=
            length_modify _ _ _
          split at hs
          case h_1 =>
            cases hs
            exact h.goOn ht (h.core.detach i false) (hround _ _ _ rfl) (hback _ _)
          case h_2 =>
            cases hs
            exact h.goOn ht ((h.core.detach i true).unsettle i) (hround _ _ _ hlen) (hback _ _) hlen
          case h_3 | h_4 => cases hs
          case h_5 =>
            cases hs
            exact h.goOn ht (h.core.unsettle i) (hround _ _ _ hlen) (hback _ _) hlen
          case h_6 =>
            cases hs
            exact h.fail ht .resource

end ServiceLib.Service
