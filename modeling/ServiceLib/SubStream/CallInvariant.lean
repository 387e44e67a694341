import ServiceLib.Lib.ThreadList
import ServiceLib.SubStream.Moves

namespace ServiceLib.SubStream

/-!
# SubStream calls — the invariant of one call

The mutex, the event, what the collector has done and what `wait` makes of it.
-/

open List Thread

variable {R E : Type} {c c' : SubStreamCall R E} {w : World} {t : Nat} {op : Op R}

/-- No run of the collector goes on, and none can begin. -/
structure Sealed (c : SubStreamCall R E) : Prop where
  closed : c.closed
  idle : ∀ x ∈ c.threads, x.pc.admitted = false

/-- The invariant of a call. -/
structure CallInv (c : SubStreamCall R E) : Prop where
  typed : ∀ x ∈ c.threads, x.op.allows x.pc
  mutex : c.threads.countP holds = c.callbackMutex.toNat
  sent : c.done + c.threads.countP sends = c.closed.toNat
  draining : ∀ x ∈ c.threads, x.op.drains → x.pc = .locking → c.closed
  drained : ∀ x ∈ c.threads, x.drained → Sealed c
  attached : c.context = none ∨ c.collector = false → Sealed c
  /-- The last run of the collector closes the call before it gives the mutex up. -/
  last : ∀ r ∈ c.outs, r.final →
    Sealed c ∨ ∃ x ∈ c.threads, x.op.isDeliver ∧ x.pc = .exchanging
  completed : c.completed ↔ .returned true ∈ c.outs
  error : ∀ e, c.error = some e → .threw e ∈ c.outs
  apart : c.completed → c.error = none
  waited : ∀ x ∈ c.threads, ∀ d r, x.op = .wait d → x.pc = .ended r →
    (r = .returned → c.completed) ∧
    (c.completed → r = .returned ∨ r = .interrupted)

section

variable {d : SubStreamCall R E} {pc pc' : Pc E}

/-- Once sealed, always sealed. -/
theorem Sealed.move (hs : Sealed c) (ht : c.threads[t]? = some ⟨op, pc⟩)
    (h : Move c w op pc d pc') : Sealed (d.goto t op pc') where
  closed := h.closed hs.closed
  idle := by
    change ∀ x ∈ d.threads.set t _, _
    rw [h.threads]
    exact forall_mem_set hs.idle (h.admitted hs.closed (hs.idle _ (mem_of_getElem? ht)))

end

/-! ### Who holds the mutex -/

variable {x : Thread R E}

theorem CallInv.held (h : CallInv c) (hx : x ∈ c.threads) (hholds : x.holds) : c.callbackMutex := by
  have hpos : 0 < c.threads.countP holds := countP_pos_iff.mpr ⟨x, hx, hholds⟩
  rw [h.mutex] at hpos
  cases hm : c.callbackMutex with
  | true => rfl
  | false =>
    simp [hm] at hpos

/-- No two coroutines hold it. -/
theorem CallInv.exclusive (h : CallInv c) {i j : Nat} {y : Thread R E} (hi : c.threads[i]? = some x)
    (hx : x.holds) (hj : c.threads[j]? = some y) (hy : y.holds) : j = i := by
  refine eq_of_countP_le_one ?_ hi hx hj hy
  rw [h.mutex]
  exact Bool.toNat_le _

theorem Pc.holds_of_admitted {pc : Pc E} (h : pc.admitted) : (Thread.mk op pc).holds := by
  cases pc <;> first | rfl | cases h

/-- Whoever finds the mutex free when the call is closed seals it. -/
theorem CallInv.sealed_of_free (h : CallInv c) (hfree : c.callbackMutex = false)
    (hc : c.closed) : Sealed c where
  closed := hc
  idle x hx := by
    cases hpc : x.pc.admitted with
    | false => rfl
    | true =>
      have hheld := h.held hx (Pc.holds_of_admitted hpc)
      simp [hfree] at hheld

/-- The collector runs in a coroutine only if no run of it was the last. -/
theorem CallInv.not_final (h : CallInv c) (hx : x ∈ c.threads) (hpc : x.pc.admitted)
    {r : Out E} (hr : r ∈ c.outs) : r.final = false := by
  cases hfinal : r.final with
  | false => rfl
  | true =>
    rcases h.last r hr hfinal with hsealed | ⟨y, hy, hop, hypc⟩
    · simp [hsealed.idle x hx] at hpc
    · obtain ⟨i, hi⟩ := getElem?_of_mem hx
      obtain ⟨j, hj⟩ := getElem?_of_mem hy
      have hyholds : y.holds := by
        unfold holds
        rw [hypc]
        exact hop
      obtain rfl := h.exclusive hi (Pc.holds_of_admitted hpc) hj hyholds
      cases hi.symm.trans hj
      rw [hypc] at hpc
      cases hpc

theorem CallInv.closed_of_sends (h : CallInv c) (hx : x ∈ c.threads) (hsends : x.sends) :
    c.closed := by
  have hpos : 0 < c.threads.countP sends := countP_pos_iff.mpr ⟨x, hx, hsends⟩
  have hsent := h.sent
  cases hc : c.closed with
  | true => rfl
  | false =>
    rw [hc] at hsent
    have hzero : Bool.toNat false = 0 := rfl
    omega

/-! ### Every step -/

section Steps

variable {d : SubStreamCall R E} {pc pc' : Pc E}

section

variable (h : CallInv c)
include h

theorem CallInv.move_draining (ht : c.threads[t]? = some ⟨op, pc⟩) (hm : Move c w op pc d pc')
    (hop : op.drains) (hpc' : pc' = .locking) : d.closed := by
  have hx := mem_of_getElem? ht
  have hallows := h.typed _ hx
  cases hm with
  | pass =>
    cases op <;>
      first | exact absurd hop Bool.false_ne_true | exact absurd hallows Bool.false_ne_true
  | again => rfl
  | send => exact h.closed_of_sends hx rfl
  | lock => cases op <;> cases hpc'
  | _ => cases hpc'

theorem CallInv.move_drained (ht : c.threads[t]? = some ⟨op, pc⟩) (hm : Move c w op pc d pc')
    (hd : (Thread.mk op pc').drained) : Sealed (d.goto t op pc') := by
  have hx := mem_of_getElem? ht
  refine Sealed.move ?_ ht hm
  rcases hm.drained (h.typed _ hx) hd with hold | ⟨hop, rfl, hfree⟩
  · exact h.drained _ hx hold
  · exact h.sealed_of_free hfree (h.draining _ hx hop rfl)

/-- The coroutine whose run of the collector was the last closes the call. -/
theorem CallInv.sealed_of_exchange (ht : c.threads[t]? = some ⟨op, .exchanging⟩)
    (hop : op.isDeliver) (hm : Move c w op .exchanging d pc') : Sealed (d.goto t op pc') := by
  have hclosed : d.closed := by cases hm <;> rfl
  have hpc' : pc'.admitted = false := by
    cases hm with
    | close => rfl
    | again => cases op <;> rfl
  refine ⟨hclosed, fun x hx => ?_⟩
  change x ∈ d.threads.set t _ at hx
  rw [hm.threads] at hx
  obtain ⟨j, hj⟩ := getElem?_of_mem hx
  rcases getElem?_set_cases hj with ⟨-, rfl⟩ | ⟨hne, hj'⟩
  · exact hpc'
  · cases hadm : x.pc.admitted with
    | false => rfl
    | true => exact absurd (h.exclusive ht hop hj' (Pc.holds_of_admitted hadm)) hne

theorem CallInv.move_last (ht : c.threads[t]? = some ⟨op, pc⟩) (hm : Move c w op pc d pc')
    {r : Out E} (hr : r ∈ d.outs) (hfinal : r.final) :
    Sealed (d.goto t op pc') ∨
      ∃ x ∈ (d.goto t op pc').threads, x.op.isDeliver ∧ x.pc = .exchanging := by
  have hx := mem_of_getElem? ht
  have hlt : t < d.threads.length := by
    rw [hm.threads]
    exact lt_of_getElem? ht
  rcases hm.outs hr with hold | ⟨rfl, hnew⟩
  · rcases h.last r hold hfinal with hsealed | ⟨y, hy, hop, hpc⟩
    · exact .inl (hsealed.move ht hm)
    · obtain ⟨j, hj⟩ := getElem?_of_mem hy
      by_cases htj : t = j
      · subst htj
        rw [ht] at hj
        cases hj
        cases hpc
        exact .inl (h.sealed_of_exchange ht hop hm)
      · refine .inr ⟨y, mem_of_getElem? (i := j) ?_, hop, hpc⟩
        change (d.threads.set t _)[j]? = some y
        rw [hm.threads, getElem?_set_ne htj, hj]
  · have hop : op.isDeliver := h.typed _ hx
    exact .inr ⟨⟨op, pc'⟩, mem_set hlt _, hop, hnew hfinal⟩

theorem CallInv.move_apart (ht : c.threads[t]? = some ⟨op, pc⟩) (hm : Move c w op pc d pc')
    (hd : d.completed) : d.error = none := by
  have hx := mem_of_getElem? ht
  cases hm with
  | complete =>
    cases herror : c.error with
    | none => rfl
    | some e =>
      have hfinal := h.not_final hx rfl (h.error e herror)
      cases hfinal
  | fail e =>
    have hfinal := h.not_final hx rfl (h.completed.mp hd)
    cases hfinal
  | reset => rfl
  | _ => exact h.apart hd

theorem CallInv.result_spec :
    (c.result = .returned → c.completed) ∧ (c.completed → c.result = .returned) := by
  unfold SubStreamCall.result
  constructor
  · intro hr
    split at hr
    · cases hr
    · split at hr
      next hc => exact hc
      next => cases hr
  · intro hc
    rw [h.apart hc]
    exact if_pos hc

theorem CallInv.move_waited (ht : c.threads[t]? = some ⟨op, pc⟩) (hm : Move c w op pc d pc')
    {deadline : Option Time} {r : Ending E} (hop : op = .wait deadline) (hpc' : pc' = .ended r) :
    (r = .returned → d.completed) ∧
      (d.completed → r = .returned ∨ r = .interrupted) := by
  have hx := mem_of_getElem? ht
  have hallows := h.typed _ hx
  subst hop
  cases hm with
  | read =>
    cases hpc'
    exact ⟨h.result_spec.1, fun hc => .inl (h.result_spec.2 hc)⟩
  | interrupt =>
    cases hpc'
    exact ⟨by rintro ⟨⟩, fun _ => .inr rfl⟩
  | skip | unlock | reset => cases hallows
  | _ => cases hpc'

/-- **Every step of a call keeps its invariant.** -/
theorem CallInv.move (ht : c.threads[t]? = some ⟨op, pc⟩) (hm : Move c w op pc d pc') :
    CallInv (d.goto t op pc') := by
  have hx := mem_of_getElem? ht
  have hallows := h.typed _ hx
  have hset : (d.goto t op pc').threads = c.threads.set t ⟨op, pc'⟩ := by
    rw [← hm.threads]
    rfl
  have hapart := h.move_apart ht hm
  refine ⟨?_, ?_, ?_, ?_, ?_, fun hd => ?_, fun r hr hfinal => h.move_last ht hm hr hfinal,
    hm.completed h.completed, hm.error h.error, hapart, ?_⟩
  · rw [hset]
    exact forall_mem_set h.typed (hm.allows hallows)
  · -- One thread moves, so the number of holders changes as the flag does.
    rw [hset]
    have hcount := countP_set holds ht ⟨op, pc'⟩
    have hmutex := hm.mutex hallows (h.held hx)
    have hold := h.mutex
    change _ = d.callbackMutex.toNat
    cases ha : (Thread.mk op pc).holds <;> cases hb : (Thread.mk op pc').holds <;>
      simp [ha, hb] at hcount hmutex <;> omega
  · rw [hset]
    have hcount := countP_set sends ht ⟨op, pc'⟩
    have hsent := hm.sent
    have hold := h.sent
    change d.done + _ = d.closed.toNat
    cases ha : (Thread.mk op pc).sends <;> cases hb : (Thread.mk op pc').sends <;>
      simp [ha, hb] at hcount hsent <;> omega
  · rw [hset]
    have hmine := h.move_draining ht hm
    exact forall_mem_set (fun x hx hop hpc => hm.closed (h.draining x hx hop hpc)) hmine
  · rw [hset]
    exact forall_mem_set (fun x hx hd => (h.drained x hx hd).move ht hm) (h.move_drained ht hm)
  · rcases hm.attached hd with hold | rfl
    · exact (h.attached hold).move ht hm
    · -- `close` has drained the call before it resets anything.
      refine (h.drained _ hx ?_).move ht hm
      cases op <;> first | rfl | exact absurd hallows Bool.false_ne_true
  · rw [hset]
    refine forall_mem_set (fun x hold deadline r hop hpc => ?_) (fun _ _ => h.move_waited ht hm)
    obtain ⟨hreturned, hcompleted⟩ := h.waited x hold deadline r hop hpc
    refine ⟨fun hr => hm.completed_mono (hreturned hr), fun hc => ?_⟩
    rcases hm.completed_of hc with hc | rfl
    · exact hcompleted hc
    · -- Once `wait` is over, the collector does not run.
      cases r with
      | interrupted => exact .inr rfl
      | _ =>
        have hdrained : x.drained := by
          unfold Thread.drained
          rw [hop, hpc]
          rfl
        have hidle := (h.drained x hold hdrained).idle _ hx
        cases hidle

end

end Steps

/-- **The steps of the coroutines keep the invariant.** -/
theorem CallInv.runStep (h : CallInv c) {o : Choice E} (hs : c.runStep w t o = some c') :
    CallInv c' := by
  obtain ⟨op, pc, d, pc', ht, hm, rfl⟩ := SubStreamCall.runStep_move hs
  exact h.move ht hm

theorem callInv_init (context : Context) : CallInv (SubStreamCall.init context : SubStreamCall R E)
    where
  typed _ h := nomatch h
  mutex := rfl
  sent := rfl
  draining _ h := nomatch h
  drained _ h := nomatch h
  attached h := by rcases h with h | h <;> cases h
  last _ h := nomatch h
  completed := ⟨fun h => (nomatch h), fun h => (nomatch h)⟩
  error _ h := nomatch h
  apart _ := rfl
  waited _ h := nomatch h

theorem Sealed.begin (h : Sealed c) (op : Op R) : Sealed (c.begin op) where
  closed := h.closed
  idle := forall_mem_concat h.idle (by cases op <;> rfl)

/-- A new operation neither holds the mutex nor is about to send. -/
theorem CallInv.begin (h : CallInv c) (op : Op R) : CallInv (c.begin op) := by
  have hcount : ∀ p : Thread R E → Bool, p ⟨op, op.first E⟩ = false →
      (c.begin op).threads.countP p = c.threads.countP p := by
    intro p hp
    change (c.threads ++ [_]).countP p = _
    rw [countP_append, countP_singleton, hp]
    rfl
  refine ⟨forall_mem_concat h.typed (by cases op <;> rfl), ?_, ?_, forall_mem_concat h.draining ?_,
    forall_mem_concat (fun x hx hd => (h.drained x hx hd).begin op) ?_,
    fun hd => (h.attached hd).begin op, fun r hr hfinal => ?_, h.completed, h.error, h.apart,
    forall_mem_concat h.waited ?_⟩
  · rw [hcount _ (by cases op <;> rfl)]
    exact h.mutex
  · rw [hcount _ (by cases op <;> rfl)]
    exact h.sent
  · intro _ hpc
    cases op <;> cases hpc
  · intro hd
    cases op <;> cases hd
  · rcases h.last r hr hfinal with hsealed | ⟨y, hy, hyop⟩
    · exact .inl (hsealed.begin op)
    · exact .inr ⟨y, mem_append_left _ hy, hyop⟩
  · intro _ _ _ hpc
    cases op <;> cases hpc

end ServiceLib.SubStream
