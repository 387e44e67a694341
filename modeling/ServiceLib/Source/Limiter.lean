import ServiceLib.Lib.ThreadList
import ServiceLib.Lib.Transition

namespace ServiceLib.Limiter

/-!
# Sources — the concurrency limiter

`acquire` and `release` of the local and of the Kafka endpoint, around the processing of a
message: `submit` takes a place, processes the message itself or spawns a task for it, and the
place is given back on every way out.  `start` and `stop` may come at any time, as far as they set
the flag.  `limiter_exact` is the result.

The counter never leaves the range from zero to the limit, so its `size_t` does not wrap.
-/

inductive Kind
  /-- Kafka processes in `submit`, and its messages can be cancelled while they wait. -/
  | kafka
  | localSource (processInline : Bool)
  deriving DecidableEq, Repr

/-- A call of `submit`, with the task it spawns. -/
inductive MessagePc
  | acquiring
  | waiting
  /-- Admitted, before `CriticalAsyncDetach`, which may throw. -/
  | spawning
  | processing
  /-- In the `catch` of `submit`. -/
  | unwinding
  | left
  deriving DecidableEq, Repr

/-- Admitted and not yet released. -/
def MessagePc.admitted : MessagePc → Bool
  | .spawning | .processing | .unwinding => true
  | .acquiring | .waiting | .left => false

def Kind.entered : Kind → MessagePc
  | .localSource false => .spawning
  | .localSource true | .kafka => .processing

structure State where
  active : Int := 0
  stopped : Bool := true
  messages : List MessagePc := []
  deriving DecidableEq, Repr

inductive Action
  | start
  | stop
  | submit
  /-- A round of the loop of `acquire`; the handler's `concurrency` or an allocation may throw. -/
  | acquire (i : Nat) (cancelled throws : Bool)
  | wake (i : Nat)
  | spawn (i : Nat) (throws : Bool)
  | release (i : Nat)
  deriving DecidableEq, Repr

namespace State

def goto (s : State) (i : Nat) (pc : MessagePc) : State :=
  { s with messages := s.messages.set i pc }

/-- `acquire`, with the mutex held, for a message of an endpoint of the given kind and limit. -/
def acquire (kind : Kind) (limit : Int) (s : State) (i : Nat) (cancelled throws : Bool) : State :=
  if s.stopped || (kind == .kafka && cancelled) || throws then s.goto i .left
  else if limit ≤ 0 ∨ s.active < limit then
    { s.goto i kind.entered with active := s.active + 1 }
  else s.goto i .waiting

end State

def step (kind : Kind) (limit : Int) (s : State) : Action → Option State
  | .start => some { s with stopped := false }
  | .stop => some { s with stopped := true }
  | .submit => some { s with messages := s.messages ++ [.acquiring] }
  | .acquire i cancelled throws =>
    if s.messages[i]? = some .acquiring then some (s.acquire kind limit i cancelled throws)
    else none
  | .wake i => if s.messages[i]? = some .waiting then some (s.goto i .acquiring) else none
  | .spawn i throws =>
    if s.messages[i]? = some .spawning then
      some (s.goto i (if throws then .unwinding else .processing))
    else none
  | .release i =>
    if s.messages[i]? = some .processing ∨ s.messages[i]? = some .unwinding then
      some { s.goto i .left with active := s.active - 1 }
    else none

def limiterSystem (kind : Kind) (limit : Int) : System State Action := ⟨{}, step kind limit⟩

structure Inv (limit : Int) (s : State) : Prop where
  count : s.active = s.messages.countP MessagePc.admitted
  bound : s.active ≤ limit

variable {kind : Kind} {limit : Int} {s s' : State} {a : Action} {i : Nat} {pc : MessagePc}
  {pc' : MessagePc}

/-- A message that moves without getting or losing a place. -/
theorem Inv.goto (h : Inv limit s) (hi : s.messages[i]? = some pc)
    (hpc : pc'.admitted = pc.admitted := by rfl) : Inv limit (s.goto i pc') :=
  { h with count := by rw [State.goto, countP_set_same hi hpc]; exact h.count }

/-- **Step lemma.**  -/
theorem Inv.step (h : Inv limit s) (hpos : 0 < limit) (hs : step kind limit s a = some s') :
    Inv limit s' := by
  have hcount := h.count
  have hbound := h.bound
  cases a <;> simp only [Limiter.step] at hs
  case start | stop => cases hs; exact { h with }
  case submit => cases hs; exact { h with count := by simpa [MessagePc.admitted] using hcount }
  case acquire i cancelled throws =>
    split at hs <;> cases hs
    next hi =>
    unfold State.acquire
    split
    · exact h.goto hi
    · split
      next hfree =>
        have henter := countP_set_enter hi (p := MessagePc.admitted) (b := kind.entered) rfl
          (by cases kind with | kafka => rfl | localSource b => cases b <;> rfl)
        constructor <;> simp only [State.goto, henter] <;> push_cast <;> omega
      next => exact h.goto hi
  case wake i =>
    split at hs <;> cases hs
    exact h.goto ‹_›
  case spawn i throws =>
    split at hs <;> cases hs
    exact h.goto ‹_› (by cases throws <;> rfl)
  case release i =>
    split at hs <;> cases hs
    next hi =>
    have hleave : (s.messages.set i .left).countP MessagePc.admitted + 1 =
        s.messages.countP MessagePc.admitted := by
      rcases hi with hi | hi <;> exact countP_set_leave hi rfl rfl
    constructor <;> simp only [State.goto] <;> omega

/-! ### While the endpoint is stopped -/

/-- Who holds a place in `t` held one in `s`. -/
def Keeps (s t : State) : Prop :=
  ∀ (i : Nat) pc, t.messages[i]? = some pc → pc.admitted →
    ∃ pc₀, s.messages[i]? = some pc₀ ∧ pc₀.admitted

variable {s₀ : State}

theorem Keeps.goto (h : Keeps s₀ s) (hi : s.messages[i]? = some pc)
    (hpc : pc'.admitted → pc.admitted := by rintro ⟨⟩) : Keeps s₀ (s.goto i pc') :=
  forall_getElem?_set h (fun hadm => h i pc hi (hpc hadm))

/-- **Step lemma** of the stopped endpoint. -/
theorem Keeps.step (h : Keeps s₀ s) (ha : a ≠ .start) (hstop : s.stopped)
    (hs : step kind limit s a = some s') : s'.stopped ∧ Keeps s₀ s' := by
  cases a <;> simp only [Limiter.step] at hs
  case start => exact absurd rfl ha
  case stop => cases hs; exact ⟨rfl, h⟩
  case submit => cases hs; exact ⟨hstop, forall_getElem?_concat h (by rintro ⟨⟩)⟩
  case acquire i cancelled throws =>
    split at hs <;> cases hs
    rw [State.acquire, if_pos (by simp [hstop])]
    exact ⟨hstop, h.goto ‹_›⟩
  case wake i =>
    split at hs <;> cases hs
    exact ⟨hstop, h.goto ‹_›⟩
  case spawn i throws =>
    split at hs <;> cases hs
    exact ⟨hstop, h.goto ‹_› (fun _ => rfl)⟩
  case release i =>
    split at hs <;> cases hs
    next hi => rcases hi with hi | hi <;> exact ⟨hstop, h.goto hi⟩

/-- **The limiter is exact.**  In every run of an endpoint with a positive limit the counter is
    the number of the messages admitted and not yet released, and at most the limit; and from a
    state in which the endpoint is stopped no message is admitted before it is started again. -/
theorem limiter_exact (kind : Kind) (limit : Int) (hpos : 0 < limit) (s : State)
    (h : (limiterSystem kind limit).Reachable s) :
    s.active = s.messages.countP MessagePc.admitted ∧ s.active ≤ limit ∧
      (s.stopped = true → ∀ t, (limiterSystem kind limit).Steps (fun _ a => a ≠ .start) s t →
        Keeps s t) := by
  have hinv : Inv limit s := by
    refine h.invariant (I := Inv limit) ⟨rfl, Int.le_of_lt hpos⟩ ?_
    exact fun _ hi _ hs => hi.step hpos hs
  refine ⟨hinv.count, hinv.bound, fun hstop t hsteps => ?_⟩
  refine (hsteps.preserves (I := fun t => t.stopped = true ∧ Keeps s t) ?_
    ⟨hstop, fun _ pc hpc hadm => ⟨pc, hpc, hadm⟩⟩).2
  exact fun hi ha hs => hi.2.step ha hi.1 hs

theorem limiter_exact_full :
    ∃ s, (limiterSystem (.localSource false) 1).Reachable s ∧
      s.messages = [.unwinding, .waiting] ∧ s.active = 1 ∧ s.active ≤ 1 := by
  obtain ⟨s, hs, hmessages⟩ := (limiterSystem (.localSource false) 1).exists_reachable_of_run
    [.start, .submit, .submit, .acquire 0 false false, .acquire 1 false false, .spawn 0 true]
    (fun s => s.messages = [.unwinding, .waiting]) (by decide +kernel)
  obtain ⟨hcount, hbound, -⟩ := limiter_exact (.localSource false) 1 (by decide) s hs
  rw [hmessages] at hcount
  exact ⟨s, hs, hmessages, hcount, hbound⟩

end ServiceLib.Limiter
