import Mathlib.Data.List.Nodup
import Mathlib.Data.List.Perm.Basic
import ServiceLib.Runtime.Context

namespace ServiceLib.Pool

/-!
# What a pool needs of its wait queue

`TaskPoolImpl` and `PriorityTaskPoolImpl` are the same program around two different wait
queues.  `WaitQueue` is the interface between the two halves, and `LawfulWaitQueue` is what
the pool may assume of a queue: the operations account for every task identity, whatever
order they serve them in.

* `Holds q l` — the tasks waiting in `q` are exactly the ones in `l`, in any order.
-/

/-- The identity of a `PoolTask` object; each `addTask` call makes a fresh one. -/
abbrev TaskId := Nat

/-- The operations a pool performs on its wait queue with `mu_` held.  `R` is what an
    `addTask` call supplies besides the context. -/
class WaitQueue (Q : Type) (R : outParam Type) where
  /-- The queue of a freshly constructed pool. -/
  empty : Q
  /-- The insertion of `addTask`; `false` when an allocation throws. -/
  push : Q → TaskId → Option Time → R → Q × Bool
  /-- The critical section of `requeueToFront` / `expedite`, and how many tasks it promoted. -/
  promote : Q → TaskId → Time → Q × Nat
  /-- Whether the queue owns a reference to the task. -/
  contains : Q → TaskId → Bool
  /-- The number of waiting tasks, as the executors' predicate reads it. -/
  size : Q → Nat
  /-- The removal in `executorLoop`; undefined behaviour (`none`) on an empty queue. -/
  pop : Q → Time → Option (TaskId × Q)

/-- The accounting laws of a wait queue. -/
class LawfulWaitQueue (Q : Type) {R : outParam Type} [WaitQueue Q R] where
  /-- The tasks waiting in the queue are exactly `l`, in any order. -/
  Holds : Q → List TaskId → Prop
  holds_empty : Holds (WaitQueue.empty : Q) []
  holds_nodup {q : Q} {l : List TaskId} : Holds q l → l.Nodup
  holds_perm {q : Q} {l l' : List TaskId} : Holds q l → l.Perm l' → Holds q l'
  holds_contains {q : Q} {l : List TaskId} : Holds q l → ∀ t, WaitQueue.contains q t ↔ t ∈ l
  holds_size {q : Q} {l : List TaskId} : Holds q l → WaitQueue.size q = l.length
  holds_push {q q' : Q} {l : List TaskId} {t : TaskId} {d : Option Time} {r : R} :
    Holds q l → t ∉ l → WaitQueue.push q t d r = (q', true) → Holds q' (t :: l)
  holds_push_fail {q q' : Q} {l : List TaskId} {t : TaskId} {d : Option Time} {r : R} :
    Holds q l → t ∉ l → WaitQueue.push q t d r = (q', false) → Holds q' l
  holds_promote {q : Q} {l : List TaskId} (t : TaskId) (now : Time) :
    Holds q l → Holds (WaitQueue.promote q t now).1 l
  holds_pop {q q' : Q} {l : List TaskId} {t : TaskId} {now : Time} :
    Holds q l → WaitQueue.pop q now = some (t, q') → t ∈ l ∧ Holds q' (l.erase t)
  pop_isSome {q : Q} {l : List TaskId} (now : Time) :
    Holds q l → l ≠ [] → (WaitQueue.pop q now).isSome

/-! ### Deadline promotion -/

/-- The loop of `promoteExpiredDeadlinesLocked`: while the earliest deadline has passed,
    take its task out of the deadline heap and promote it.  Every iteration shrinks the
    heap, so its size bounds the number of iterations. -/
def promoteLoop {Q : Type} (earliest : Q → Option (TaskId × Time)) (removeEarliest : Q → Q)
    (promoteLocked : Q → TaskId → Q × Bool) (now : Time) : Nat → Q → Nat → Q × Nat
  | 0, q, promoted => (q, promoted)
  | fuel + 1, q, promoted =>
    match earliest q with
    | none => (q, promoted)
    | some (t, deadline) =>
      if deadline ≤ now then
        let r := promoteLocked (removeEarliest q) t
        promoteLoop earliest removeEarliest promoteLocked now fuel r.1
          (if r.2 then promoted + 1 else promoted)
      else (q, promoted)

variable {Q : Type} {earliest : Q → Option (TaskId × Time)} {I : Q → Prop}
  {promoteLocked : Q → TaskId → Q × Bool} {q : Q} {removeEarliest : Q → Q}

/-- Whatever one iteration preserves, the loop preserves. -/
theorem promoteLoop_induction (now : Time) (hstep : ∀ q t d, earliest q = some (t, d) → d ≤ now → I
    q → I (promoteLocked (removeEarliest q) t).1) (fuel n : Nat) (h : I q) :
    I (promoteLoop earliest removeEarliest promoteLocked now fuel q n).1 := by
  induction fuel generalizing q n with
  | zero => exact h
  | succ fuel ih =>
    unfold promoteLoop
    split
    · exact h
    next hroot =>
      split
      · exact ih _ (hstep _ _ _ hroot ‹_› h)
      · exact h

/-- The case in which the removal from the deadline heap preserves it on its own. -/
theorem promoteLoop_invariant (hremove : ∀ q, I q → I (removeEarliest q))
    (hpromote : ∀ q t, I q → I (promoteLocked q t).1) (now : Time) (fuel n : Nat) (h : I q) :
    I (promoteLoop earliest removeEarliest promoteLocked now fuel q n).1 :=
  promoteLoop_induction now (fun q t _ _ _ hq => hpromote _ t (hremove q hq)) fuel n h

/-- When every iteration shrinks the deadline heap, the loop only stops once the earliest
    deadline lies ahead. -/
theorem promoteLoop_exhausts (size : Q → Nat) (now : Time)
    (hzero : ∀ q, size q = 0 → earliest q = none) (hstep : ∀ q t d, earliest q = some (t, d) → d ≤
    now → I q → I (promoteLocked (removeEarliest q) t).1 ∧ size (promoteLocked (removeEarliest q)
    t).1 < size q) (fuel n : Nat) (h : I q) (hfuel : size q ≤ fuel) {t : TaskId} {d : Time} (hroot :
    earliest (promoteLoop earliest removeEarliest promoteLocked now fuel q n).1 = some (t, d)) :
    now < d := by
  induction fuel generalizing q n with
  | zero =>
    have hnone := hzero q (Nat.le_zero.mp hfuel)
    simp only [promoteLoop] at hroot
    simp [hnone] at hroot
  | succ fuel ih =>
    unfold promoteLoop at hroot
    split at hroot
    next hnone =>
      simp [hnone] at hroot
    next u e hearliest =>
      split at hroot
      · obtain ⟨hI, hsize⟩ := hstep q u e hearliest ‹_› h
        exact ih _ hI (by omega) hroot
      next hlate =>
        rw [hearliest] at hroot
        cases hroot
        exact Int.not_le.mp hlate

end ServiceLib.Pool
