import ServiceLib.SubStream.Call

namespace ServiceLib.SubStream

/-!
# SubStream calls — the moves of a coroutine

Every step of a coroutine, as what it does to the call and where it leads.
-/

open List Option Thread

variable {R E : Type} {c c' : SubStreamCall R E} {w : World} {t : Nat} {op : Op R} {o : Choice E}

/-! ### Steps -/

/-- A coroutine in `op` gets from `pc` to `pc'`, and the call becomes `c'` but for that. -/
inductive Move (c : SubStreamCall R E) (w : World) (op : Op R) :
    Pc E → SubStreamCall R E → Pc E → Prop
  | skip (h : c.closed) : Move c w op .loading c (.ended .returned)
  | pass (h : c.closed = false) : Move c w op .loading c .locking
  | wake : Move c w op .waiting c .exchanging
  | interrupt : Move c w op .waiting c (.ended .interrupted)
  | close (h : c.closed = false) : Move c w op .exchanging { c with closed := true } .sending
  | again (h : c.closed) :
      Move c w op .exchanging { c with closed := true } (op.afterCancel E)
  | send : Move c w op .sending { c with done := c.done + 1 } (op.afterCancel E)
  | lock (h : c.callbackMutex = false) :
      Move c w op .locking { c with callbackMutex := true } (op.afterLock E)
  | refuse (h : c.closed) : Move c w op .checking c .unlocking
  | admission (h : c.closed = false) : Move c w op .checking c .polling
  | drop : Move c w op .polling c .exchanging
  | call (value : R) (via : Nat) (h : op = .deliver value via) :
      Move c w op .polling { c with invoked := c.invoked ++ [(value, via)] } .calling
  | complete : Move c w op .calling
      { c with outs := c.outs ++ [.returned true], completed := true } .exchanging
  | goOn : Move c w op .calling { c with outs := c.outs ++ [.returned false] } .unlocking
  | fail (e : E) : Move c w op .calling
      { c with outs := c.outs ++ [.threw e], error := some e } .exchanging
  | unlock : Move c w op .unlocking { c with callbackMutex := false } (.ended .returned)
  | read : Move c w op .reading { c with callbackMutex := false } (.ended c.result)
  | reset : Move c w op .resetting { c with
      callbackMutex := false, collector := false, context := none, error := none }
      (.ended .returned)

theorem SubStreamCall.waitStep_move {deadline : Option Time} {pc' : Pc E}
    (h : c.waitStep w deadline o = some pc') : Move c w op .waiting c pc' := by
  cases o with
  | go | timeout =>
    obtain ⟨-, hpc⟩ := ite_none_right_eq_some.mp h
    cases hpc
    exact .wake
  | interrupt =>
    cases h
    cases deadline with
    | none => exact .interrupt
    | some => exact .wake
  | out => cases h

/-- A step of a thread is one of its moves. -/
theorem SubStreamCall.goStep_move {pc : Pc E} (h : c.goStep w t op pc = some c') :
    ∃ d pc', Move c w op pc d pc' ∧ c' = d.goto t op pc' := by
  cases pc with
  | loading =>
    cases h
    cases hc : c.closed with
    | true => exact ⟨_, _, .skip hc, rfl⟩
    | false => exact ⟨_, _, .pass hc, rfl⟩
  | exchanging =>
    cases h
    cases hc : c.closed with
    | true => exact ⟨_, _, .again hc, rfl⟩
    | false => exact ⟨_, _, .close hc, rfl⟩
  | sending => cases h; exact ⟨_, _, .send, rfl⟩
  | locking =>
    cases hm : c.callbackMutex with
    | true => simp only [goStep, hm] at h; cases h
    | false =>
      simp only [goStep, hm] at h
      cases h
      exact ⟨_, _, .lock hm, rfl⟩
  | checking =>
    cases h
    cases hc : c.closed with
    | true => exact ⟨_, _, .refuse hc, rfl⟩
    | false => exact ⟨_, _, .admission hc, rfl⟩
  | polling =>
    have h : c.pollStep w t op = some c' := h
    unfold pollStep at h
    split at h
    case h_1 =>
      split at h
      · cases h; exact ⟨_, _, .drop, rfl⟩
      · cases h; exact ⟨_, _, .call _ _ rfl, rfl⟩
    case h_2 => cases h
  | unlocking => cases h; exact ⟨_, _, .unlock, rfl⟩
  | reading => cases h; exact ⟨_, _, .read, rfl⟩
  | resetting => cases h; exact ⟨_, _, .reset, rfl⟩
  | waiting | calling | ended => cases h

/-- The collector returns or throws. -/
theorem SubStreamCall.outStep_move (c : SubStreamCall R E) (w : World) (t : Nat) (op : Op R)
    (r : Out E) : ∃ d pc', Move c w op .calling d pc' ∧ c.outStep t op r = d.goto t op pc' := by
  cases r with
  | returned completed =>
    cases completed with
    | true => exact ⟨_, _, .complete, rfl⟩
    | false => exact ⟨_, _, .goOn, rfl⟩
  | threw e => exact ⟨_, _, .fail e, rfl⟩

/-- Every step of a coroutine is one of the moves. -/
theorem SubStreamCall.runStep_move (h : c.runStep w t o = some c') :
    ∃ op pc d pc', c.threads[t]? = some ⟨op, pc⟩ ∧ Move c w op pc d pc' ∧
      c' = d.goto t op pc' := by
  unfold runStep at h
  split at h
  case h_1 => cases h
  case h_2 op pc ht =>
    refine ⟨op, pc, ?_⟩
    split at h
    case h_1 deadline =>
      obtain ⟨pc', hpc', rfl⟩ := map_eq_some_iff.mp h
      exact ⟨c, pc', ht, waitStep_move hpc', rfl⟩
    case h_2 r =>
      cases h
      obtain ⟨d, pc', hmove, heq⟩ := c.outStep_move w t op r
      exact ⟨d, pc', ht, hmove, heq⟩
    case h_3 =>
      obtain ⟨d, pc', hmove, heq⟩ := goStep_move h
      exact ⟨d, pc', ht, hmove, heq⟩
    case h_4 => cases h

/-! ### Positions -/

def Op.isWait : Op R → Bool
  | .wait _ => true
  | _ => false

def Op.isClose : Op R → Bool
  | .close => true
  | _ => false

/-- Where an operation can be. -/
def Op.allows (op : Op R) (pc : Pc E) : Bool :=
  match pc with
  | .loading | .checking | .polling | .calling | .unlocking => op.isDeliver
  | .locking => op.isDeliver || op.drains
  | .exchanging | .sending | .ended .returned => true
  | .waiting | .reading | .ended _ => op.isWait
  | .resetting => op.isClose

/-- The collector runs, or may be about to. -/
def Pc.admitted : Pc E → Bool
  | .polling | .calling => true
  | _ => false

namespace Thread

/-- Whether the coroutine holds `callbackMutex_`. -/
def holds (x : Thread R E) : Bool :=
  match x.pc with
  | .checking | .polling | .calling | .unlocking | .reading | .resetting => true
  | .exchanging | .sending => x.op.isDeliver
  | _ => false

def sends (x : Thread R E) : Bool :=
  match x.pc with
  | .sending => true
  | _ => false

/-- `wait` or `close` has got the mutex, which it only asks for when the call is closed. -/
def drained (x : Thread R E) : Bool :=
  x.op.drains && match x.pc with
    | .reading | .resetting => true
    | .ended .interrupted => false
    | .ended _ => true
    | _ => false

end Thread

/-! ### One move -/

section Moves

variable {d : SubStreamCall R E} {pc pc' : Pc E}

section

variable (h : Move c w op pc d pc')
include h

namespace Move

theorem allows (hop : op.allows pc) : op.allows pc' := by
  cases h with
  | read =>
    cases op with
    | wait => cases c.result <;> rfl
    | _ => cases hop
  | _ => cases op <;> first | rfl | cases hop

/-- Whoever gets the mutex found it free, and whoever gives it up held it. -/
theorem mutex (hop : op.allows pc)
    (hheld : (mk op pc).holds → c.callbackMutex) :
    (mk op pc').holds.toNat + c.callbackMutex.toNat =
      (mk op pc).holds.toNat + d.callbackMutex.toNat := by
  cases h <;> cases op <;>
    simp_all [holds, Op.allows, Op.isDeliver, Op.isWait, Op.isClose, Op.drains,
      Op.afterCancel, Op.afterLock]

/-- `done` is sent once for each time the call is closed. -/
theorem sent :
    d.done + (mk op pc').sends.toNat + c.closed.toNat =
      c.done + (mk op pc).sends.toNat + d.closed.toNat := by
  cases h <;> cases op <;> simp_all [sends, Op.afterCancel, Op.afterLock]

theorem threads : d.threads = c.threads := by
  cases h <;> rfl

theorem closed (hc : c.closed) : d.closed := by
  cases h <;> first | exact hc | rfl

/-- A closed call admits nobody. -/
theorem admitted (hc : c.closed) (hpc : pc.admitted = false) : pc'.admitted = false := by
  cases h with
  | admission hopen =>
    simp [hc] at hopen
  | call => cases hpc
  | again | send | lock => cases op <;> rfl
  | _ => rfl

/-- `wait` and `close` come to the mutex after their `cancel`, and are drained once they have it. -/
theorem drained (hop : op.allows pc) (hd : (mk op pc').drained) :
    (mk op pc).drained ∨ (op.drains ∧ pc = .locking ∧
      c.callbackMutex = false) := by
  cases h with
  | lock hfree =>
    cases op <;> first | exact .inr ⟨rfl, rfl, hfree⟩ | exact absurd hd Bool.false_ne_true
  | read | reset => cases op <;> first | exact .inl rfl | cases hop
  | _ =>
    cases op <;>
      first | exact absurd hd Bool.false_ne_true | exact absurd hop Bool.false_ne_true

theorem attached (hd : d.context = none ∨ d.collector = false) :
    (c.context = none ∨ c.collector = false) ∨ pc = .resetting := by
  cases h <;> first | exact .inr rfl | exact .inl hd

/-- How runs of the collector end, and nothing else, is added to. -/
theorem outs {r : Out E} (hr : r ∈ d.outs) :
    r ∈ c.outs ∨ (pc = .calling ∧ (r.final → pc' = .exchanging)) := by
  cases h with
  | complete | fail => exact (mem_append.mp hr).imp_right (fun _ => ⟨rfl, fun _ => rfl⟩)
  | goOn =>
    refine (mem_append.mp hr).imp_right (fun hnew => ⟨rfl, fun hfinal => ?_⟩)
    rw [mem_singleton.mp hnew] at hfinal
    cases hfinal
  | _ => exact .inl hr

theorem completed (hiff : c.completed ↔ .returned true ∈ c.outs) :
    d.completed ↔ .returned true ∈ d.outs := by
  cases h with
  | complete => exact ⟨fun _ => mem_append_right _ mem_cons_self, fun _ => rfl⟩
  | goOn | fail e =>
    refine hiff.trans ⟨mem_append_left _, fun hr => (mem_append.mp hr).resolve_right ?_⟩
    rintro (_ | ⟨_, ⟨⟩⟩)
  | _ => exact hiff

theorem completed_mono (hc : c.completed) : d.completed := by
  cases h <;> first | exact hc | rfl

theorem completed_of (hd : d.completed) : c.completed ∨ pc = .calling := by
  cases h <;> first | exact .inl hd | exact .inr rfl

theorem error (herror : ∀ e, c.error = some e → .threw e ∈ c.outs) (e : E)
    (hd : d.error = some e) : .threw e ∈ d.outs := by
  cases h with
  | complete | goOn => exact mem_append_left _ (herror e hd)
  | fail e' =>
    cases hd
    exact mem_append_right _ mem_cons_self
  | reset => cases hd
  | _ => exact herror e hd

end Move

end

end Moves

end ServiceLib.SubStream
