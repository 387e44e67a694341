import Mathlib
import ServiceLib.SubStream.CallInvariant

namespace ServiceLib.SubStream

/-!
# SubStream calls — the coroutines of a call come to an end
-/

open List Option SubStreamCall

variable {R E : Type} {c c' : SubStreamCall R E} {w : World} {t : Nat} {op : Op R} {pc pc' : Pc E}

/-- How many steps an operation can still take. -/
def Thread.remaining (x : Thread R E) : Nat :=
  match x.op, x.pc with
  | .deliver _ _, .loading => 9
  | .deliver _ _, .locking => 8
  | .deliver _ _, .checking => 7
  | .deliver _ _, .polling => 6
  | .deliver _ _, .calling => 5
  | .deliver _ _, .exchanging => 4
  | .deliver _ _, .sending => 3
  | .deliver _ _, .unlocking => 2
  | .deliver _ _, _ => 0
  | _, .waiting => 6
  | _, .exchanging => 5
  | _, .sending => 4
  | _, .locking => 3
  | _, .reading => 2
  | _, .resetting => 2
  | _, _ => 0

def SubStreamCall.remaining (c : SubStreamCall R E) : Nat :=
  (c.threads.map Thread.remaining).sum

theorem Move.remaining {d : SubStreamCall R E} (h : Move c w op pc d pc') (hop : op.allows pc) :
    (Thread.mk op pc').remaining < (Thread.mk op pc).remaining := by
  cases h <;> cases op <;> first
    | exact absurd hop Bool.false_ne_true
    | simp [Thread.remaining, Op.afterCancel, Op.afterLock]

/-- **No coroutine goes on for ever.** -/
theorem CallInv.remaining_lt (h : CallInv c) {o : Choice E} (hs : c.runStep w t o = some c') :
    c'.remaining < c.remaining := by
  obtain ⟨op, pc, d, pc', ht, hm, rfl⟩ := runStep_move hs
  have hlt := hm.remaining (h.typed _ (mem_of_getElem? ht))
  obtain ⟨rest, hold, hnew⟩ := exists_perm_set ht
  have hset : (d.goto t op pc').threads = c.threads.set t ⟨op, pc'⟩ := by
    rw [← hm.threads]
    rfl
  unfold remaining
  rw [hset, ((hnew ⟨op, pc'⟩).map _).sum_eq, (hold.map _).sum_eq, map_cons, map_cons,
    sum_cons, sum_cons]
  exact Nat.add_lt_add_right hlt _

/-- Where a coroutine cannot go on by itself. -/
inductive Stuck (c : SubStreamCall R E) : Pc E → Prop
  | polling : Stuck c .polling
  | calling : Stuck c .calling
  | locking (h : c.callbackMutex) : Stuck c .locking
  | waiting (h : c.done = 0) : Stuck c .waiting
  | ended (r : Ending E) : Stuck c (.ended r)

theorem stuck_of_none (ht : c.threads[t]? = some ⟨op, pc⟩) (hop : op.allows pc)
    (hs : c.runStep w t .go = none) : Stuck c pc := by
  simp only [runStep, ht] at hs
  cases pc with
  | polling => exact .polling
  | calling => exact .calling
  | locking =>
    cases hm : c.callbackMutex with
    | true => exact .locking hm
    | false =>
      simp only [goStep, hm] at hs
      cases hs
  | waiting =>
    cases op with
    | wait deadline =>
      rw [map_eq_none_iff] at hs
      refine .waiting (Nat.eq_zero_of_not_pos (fun hpos => ?_))
      have hwake : c.waitStep w deadline .go = some .exchanging := if_pos hpos
      simp [hwake] at hs
    | _ => exact absurd hop Bool.false_ne_true
  | ended r => exact .ended r
  | _ => cases hs

/-- **After the last run of the collector nobody is stuck.** -/
theorem CallInv.all_ended (h : CallInv c) {r : Out E} (hr : r ∈ c.outs) (hfinal : r.final)
    (hquiet : ∀ t, c.runStep w t .go = none) : ∀ x ∈ c.threads, ∃ r, x.pc = .ended r := by
  have hstuck : ∀ op pc, ⟨op, pc⟩ ∈ c.threads → Stuck c pc := by
    intro op pc hx
    obtain ⟨t, ht⟩ := getElem?_of_mem hx
    exact stuck_of_none ht (h.typed _ hx) (hquiet t)
  -- The call is closed, for its last run would go on to do so.
  have hsealed : Sealed c := by
    rcases h.last r hr hfinal with hsealed | ⟨⟨op, pc⟩, hx, -, hpc⟩
    · exact hsealed
    · cases hstuck op pc hx <;> cases hpc
  -- Nobody holds the mutex, for whoever does would go on.
  have hfree : c.callbackMutex = false := by
    cases hm : c.callbackMutex with
    | false => rfl
    | true =>
      have hone := h.mutex
      rw [hm] at hone
      obtain ⟨⟨op, pc⟩, hx, hholds⟩ :=
        countP_pos_iff.mp (Nat.lt_of_lt_of_eq Nat.zero_lt_one hone.symm)
      have hidle := hsealed.idle _ hx
      cases hstuck op pc hx <;> first | exact absurd hholds Bool.false_ne_true | cases hidle
  -- The event was sent, for nobody is about to.
  have hdone : c.done ≠ 0 := by
    have hsent := h.sent
    have hnone : c.threads.countP Thread.sends = 0 := by
      refine countP_eq_zero.mpr (fun x hx hsends => ?_)
      obtain ⟨op, pc⟩ := x
      cases hstuck op pc hx <;> cases hsends
    rw [hnone, hsealed.closed] at hsent
    intro hzero
    simp [hzero] at hsent
  rintro ⟨op, pc⟩ hx
  have hidle := hsealed.idle _ hx
  cases hstuck op pc hx with
  | polling | calling => cases hidle
  | locking hmutex =>
    simp [hfree] at hmutex
  | waiting hzero => exact absurd hzero hdone
  | ended r => exact ⟨r, rfl⟩

end ServiceLib.SubStream
