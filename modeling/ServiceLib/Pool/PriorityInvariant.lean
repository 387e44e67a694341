import Mathlib.Data.Prod.Lex
import ServiceLib.Pool.PriorityTimers

namespace ServiceLib.Pool.PriorityQueue

/-!
# Priority task pool — the representation of the wait queue

The two heaps of the priority pool index each other's members: a task's priority may change
while it waits, and a task leaves the deadline heap when it is promoted or removed.
-/

open List Option IndexedHeap

/-- What the priority heap orders tasks by. -/
def key (q : PriorityQueue) (t : TaskId) : ℤ ×ₗ ℕ := toLex (q.priority t, q.sequence t)

/-- The comparison is the lexicographic order. -/
theorem keyed_comesBefore (q : PriorityQueue) : IndexedHeap.Keyed q.comesBefore q.key := by
  intro a b
  rw [key, key, Prod.Lex.toLex_lt_toLex]
  unfold comesBefore
  split
  next hne =>
    simp [hne]
  next heq =>
    simp [not_not.mp heq]

/-- **Representation invariant** of the priority pool's queue. -/
structure WellFormed (q : PriorityQueue) : Prop where
  heap : q.heap.Valid q.key
  deadlines : q.deadlineHeap.Valid q.deadlineKey
  members : ∀ t, t ∈ q.deadlineHeap.arr ↔ t ∈ q.heap.arr ∧ q.timed t
  bounded : ∀ t ∈ q.heap.arr, intMin ≤ q.priority t

/-- The invariant while `t` may be missing from the deadline heap. -/
structure WellFormedBut (q : PriorityQueue) (t : TaskId) : Prop where
  heap : q.heap.Valid q.key
  timers : TimersBut q t
  bounded : ∀ t ∈ q.heap.arr, intMin ≤ q.priority t

theorem wellFormed_empty : WellFormed empty where
  heap := valid_empty _
  deadlines := valid_empty _
  members := by simp [empty, IndexedHeap.empty]
  bounded := by simp [empty, IndexedHeap.empty]

variable {q q' : PriorityQueue} {t : TaskId} {cause : TaskId → Prop} {now : Time} {d : Time}

theorem WellFormed.timers (h : WellFormed q) : Timers q :=
  ⟨h.deadlines, h.members⟩

theorem WellFormed.but (h : WellFormed q) (t : TaskId) : WellFormedBut q t :=
  ⟨h.heap, h.timers.holds.but t, h.bounded⟩

/-! ### Insertion -/

/-- The fields of a fresh task are read by neither heap. -/
theorem WellFormed.newTask (h : WellFormed q) (ht : t ∉ q.heap.arr) (priority : Int)
    (d : Option Time) :
    (q.newTask t priority d).heap.Valid (q.newTask t priority d).key ∧
      ∀ u ∈ q.heap.arr, intMin ≤ (q.newTask t priority d).priority u := by
  have hne : ∀ {u : TaskId}, u ∈ q.heap.arr → u ≠ t := by
    rintro u hu rfl
    exact ht hu
  refine ⟨h.heap.congr (fun u hu => ?_), fun u hu => ?_⟩
  · simp [key, PriorityQueue.newTask, hne hu]
  · rw [show (q.newTask t priority d).priority u = q.priority u by
      simp [PriorityQueue.newTask, hne hu]]
    exact h.bounded u hu

/-- Numbering and pushing a task keeps the priority heap valid. -/
theorem valid_enqueue (hheap : q.heap.Valid q.key) (ht : t ∉ q.heap.arr) :
    (q.enqueue t true).1.heap.Valid (q.enqueue t true).1.key := by
  have hnumbered : q.heap.Valid
      { q with sequence := Function.update q.sequence t q.nextSequence }.key := by
    refine hheap.congr (fun u hu => ?_)
    have hut : u ≠ t := by
      rintro rfl
      exact ht hu
    simp [key, hut]
  exact IndexedHeap.Valid.push (keyed_comesBefore _) hnumbered ht

/-- **Insertion** keeps the invariant, when the heaps can grow. -/
theorem WellFormed.push (h : WellFormed q) (ht : t ∉ q.heap.arr) (d : Option Time) {priority : Int}
    (hpriority : intMin ≤ priority) : WellFormed (q.push t d ⟨priority, true, true⟩).1 := by
  obtain ⟨hheap, hbounded⟩ := h.newTask ht priority d
  obtain ⟨hdeadlines, hmembers⟩ := h.timers.push ht d ⟨priority, true, true⟩
  have hprio : intMin ≤ (q.newTask t priority d).priority t := by
    simpa [PriorityQueue.newTask] using hpriority
  have hperm := push_perm q t d ⟨priority, true, true⟩
  refine ⟨?_, hdeadlines, hmembers, fun u hu => ?_⟩
  · cases d with
    | none => exact valid_enqueue hheap ht
    | some d =>
      exact valid_enqueue (q := (q.newTask t priority (some d)).deadlineHeapPushLocked t) hheap ht
  · have hpr : (q.push t d ⟨priority, true, true⟩).1.priority =
        (q.newTask t priority d).priority ∧ (q.push t d ⟨priority, true, true⟩).2 := by
      cases d <;> exact ⟨rfl, rfl⟩
    rw [hpr.2] at hperm
    rw [hpr.1]
    rcases mem_cons.mp (hperm.mem_iff.mp hu) with rfl | hu
    · exact hprio
    · exact hbounded u hu

/-! ### Promotion -/

/-- Taking the root out of the deadline heap leaves only that task in transit. -/
theorem WellFormed.removeEarliest (h : WellFormed q) (ht : q.deadlineHeap.arr.head? = some t) :
    WellFormedBut (q.deadlineHeapRemoveAtLocked 0) t :=
  ⟨h.heap, h.timers.removeEarliest ht, h.bounded⟩

/-- `expediteLocked` does nothing to a task that does not wait or was promoted before. -/
theorem expediteLocked_of_not (hx : q.heap.Indexed) (hcond : t ∉ q.heap.arr ∨ q.expedited t) :
    (q.expediteLocked t).1 = q := by
  unfold expediteLocked
  split
  · rfl
  next i hi =>
    have hmem : t ∈ q.heap.arr := mem_of_getElem? (hx.get hi)
    rw [if_pos (hcond.resolve_left (fun hnot => hnot hmem))]

/-- **Promotion** completes the transit of `t`. -/
theorem WellFormedBut.expedite (h : WellFormedBut q t) : WellFormed (q.expediteLocked t).1 := by
  obtain ⟨hdeadlines, hmembers⟩ := h.timers.expedite
    (fun ht hnone => h.heap.indexed.idx_eq_none.mp hnone ht)
  refine ⟨?_, hdeadlines, hmembers, ?_⟩
  all_goals rcases expediteLocked_cases q t with ⟨heq, -⟩ | ⟨i, hidx, hexp⟩
  · rw [heq]
    exact h.heap
  · rw [expediteLocked_eq hidx hexp]
    refine h.heap.lower (keyed_comesBefore _) hidx (fun u hu => ?_) ?_
    · simp [key, hu]
    · rw [key, key, Prod.Lex.toLex_le_toLex]
      have hle := h.bounded t (mem_of_getElem? (h.heap.indexed.get hidx))
      rcases Int.lt_or_eq_of_le hle with hlt | heq
      · exact .inl (by simpa using hlt)
      · exact .inr (by simpa using heq)
  · rw [heq]
    exact h.bounded
  · intro u hu
    have hu' := (expediteLocked_perm q t).mem_iff.mp hu
    rw [expediteLocked_eq hidx hexp]
    by_cases hut : u = t
    · subst hut
      simp
    · simpa [hut] using h.bounded u hu'

/-- The deadline of task `t` has passed at `now`. -/
def due (q : PriorityQueue) (now : Time) (t : TaskId) : Prop :=
  ∃ d, q.deadline t = some d ∧ d ≤ now

/-- `q'` is `q` after some waiting tasks were promoted, each for a reason in `cause`. -/
structure Raised (q : PriorityQueue) (cause : TaskId → Prop) (q' : PriorityQueue) : Prop where
  perm : q'.heap.arr.Perm q.heap.arr
  sequence : q'.sequence = q.sequence
  deadline : q'.deadline = q.deadline
  nextSequence : q'.nextSequence = q.nextSequence
  keeps : ∀ t, q.expedited t → q'.expedited t
  only : ∀ t, q'.expedited t → q.expedited t ∨ cause t
  priority : ∀ t, q'.priority t = if q'.expedited t = q.expedited t then q.priority t else intMin

theorem raised_refl (q : PriorityQueue) (cause : TaskId → Prop) : Raised q cause q :=
  ⟨Perm.refl _, rfl, rfl, rfl, fun _ => id, fun _ => .inl, fun t => by simp⟩

theorem Raised.mono {cause' : TaskId → Prop} (h : Raised q cause q')
    (himp : ∀ t, cause t → cause' t) : Raised q cause' q' :=
  ⟨h.perm, h.sequence, h.deadline, h.nextSequence, h.keeps,
    fun t ht => (h.only t ht).imp id (himp t), h.priority⟩

/-- The deadline heap plays no part in it. -/
theorem Raised.removeEarliest (h : Raised q cause q') :
    Raised q cause (q'.deadlineHeapRemoveAtLocked 0) :=
  { h with }

/-- One more task is promoted. -/
theorem Raised.expediteLocked (h : Raised q cause q') (hx : q'.heap.Indexed) (ht : cause t) :
    Raised q cause (q'.expediteLocked t).1 := by
  by_cases hcond : t ∉ q'.heap.arr ∨ q'.expedited t
  · rw [expediteLocked_of_not hx hcond]
    exact h
  · rw [not_or, not_not, Bool.not_eq_true] at hcond
    obtain ⟨i, hi⟩ := mem_iff_getElem?.mp hcond.1
    have hexp : q.expedited t = false := by
      cases hq : q.expedited t with
      | false => rfl
      | true => exact absurd (h.keeps t hq) (by rw [hcond.2]; exact Bool.false_ne_true)
    have hperm := (expediteLocked_perm q' t).trans h.perm
    rw [expediteLocked_eq (hx.knows hi) hcond.2] at hperm ⊢
    refine ⟨hperm, h.sequence, h.deadline, h.nextSequence, fun u hu => ?_, fun u hu => ?_,
      fun u => ?_⟩
    all_goals by_cases hut : u = t
    · subst hut
      simp
    · simpa [hut] using h.keeps u hu
    · subst hut
      exact .inr ht
    · exact h.only u (by simpa [hut] using hu)
    · subst hut
      simp [hexp]
    · simpa [hut] using h.priority u

/-- How far a deadline promotion at `now` that began at `q` has come. -/
structure Promoting (q : PriorityQueue) (now : Time) (q' : PriorityQueue) : Prop
    extends Raised q (q.due now) q' where
  wellFormed : WellFormed q'

/-- One iteration of the loop. -/
theorem Promoting.step (h : Promoting q now q') (hroot : q'.earliest = some (t, d))
    (hdue : d ≤ now) : Promoting q now ((q'.deadlineHeapRemoveAtLocked 0).expediteLocked t).1 := by
  obtain ⟨hhead, rfl⟩ := head?_of_earliest hroot
  have hbut := h.wellFormed.removeEarliest hhead
  obtain ⟨-, -, hsome⟩ := (h.wellFormed.members t).mp (mem_of_mem_head? hhead)
  have hdue' : q.due now t := by
    obtain ⟨d, hd⟩ := isSome_iff_exists.mp hsome
    rw [deadlineKey, hd] at hdue
    exact ⟨d, by rw [← h.deadline]; exact hd, hdue⟩
  exact ⟨h.toRaised.removeEarliest.expediteLocked hbut.heap.indexed hdue', hbut.expedite⟩

section

variable (h : WellFormed q)
include h

theorem promoting_refl (now : Time) : Promoting q now q := ⟨raised_refl q _, h⟩

theorem promoting_promote (now : Time) : Promoting q now (q.promoteExpiredDeadlinesLocked now).1 :=
  promoteLoop_induction now (fun _ _ _ hroot hdue hq => hq.step hroot hdue) _ _
    (promoting_refl h now)

/-- After the loop the earliest deadline lies ahead. -/
theorem lt_of_earliest_promote (now : Time)
    (hroot : (q.promoteExpiredDeadlinesLocked now).1.earliest = some (t, d)) : now < d := by
  refine promoteLoop_exhausts (I := Promoting q now) (fun q => q.deadlineHeap.arr.length) now
    ?_ ?_ _ _ (promoting_refl h now) (Nat.le_refl _) hroot
  · intro q hq
    rw [earliest, length_eq_zero_iff.mp hq]
    rfl
  · intro q' u e hroot' hdue hq'
    refine ⟨hq'.step hroot' hdue, ?_⟩
    have hhead := (head?_of_earliest hroot').1
    rw [head?_eq_getElem?] at hhead
    have hlen := removeAt_length q'.deadlineEarlier hhead
    have hle := remove_length_le
      (q'.deadlineHeapRemoveAtLocked 0).deadlineEarlier
        (q'.deadlineHeapRemoveAtLocked 0).deadlineHeap u
    have hheap : ((q'.deadlineHeapRemoveAtLocked 0).expediteLocked u).1.deadlineHeap.arr.length ≤
        (q'.deadlineHeapRemoveAtLocked 0).deadlineHeap.arr.length := by
      unfold expediteLocked
      split
      · exact Nat.le_refl _
      · split
        · exact Nat.le_refl _
        · exact hle
    exact Nat.lt_of_le_of_lt hheap (Nat.lt_of_succ_le (Nat.le_of_eq hlen))

/-- **Deadline promotion** expedites exactly the waiting tasks whose deadline has passed. -/
theorem promote_due (ht : t ∈ q.heap.arr) (hdue : q.due now t) :
    (q.promoteExpiredDeadlinesLocked now).1.expedited t := by
  have hend := promoting_promote h now
  by_contra hexp
  rw [Bool.not_eq_true] at hexp
  obtain ⟨d, hd, hle⟩ := hdue
  -- `t` would still be in the deadline heap, whose earliest deadline lies ahead.
  have hmem := (hend.wellFormed.members t).mpr
    ⟨hend.perm.mem_iff.mpr ht, hexp, by rw [hend.deadline, hd]; rfl⟩
  have hkey : (q.promoteExpiredDeadlinesLocked now).1.deadlineKey t = d := by
    rw [deadlineKey, hend.deadline, hd]
    rfl
  have hne := ne_nil_of_mem hmem
  have hhead := head?_eq_some_head hne
  have hroot := hend.wellFormed.deadlines.ordered.root_le hhead hmem
  have hahead := lt_of_earliest_promote h now (by rw [earliest, hhead]; rfl)
  rw [hkey] at hroot
  exact absurd (lt_of_lt_of_le hahead hroot) (not_lt.mpr hle)

end

/-- `expediteLocked` leaves a waiting task promoted. -/
theorem expediteLocked_expedited (hx : q.heap.Indexed) (ht : t ∈ q.heap.arr) :
    (q.expediteLocked t).1.expedited t := by
  cases hexp : q.expedited t with
  | true =>
    rw [expediteLocked_of_not hx (.inr hexp)]
    exact hexp
  | false =>
    obtain ⟨i, hi⟩ := mem_iff_getElem?.mp ht
    rw [expediteLocked_eq (hx.knows hi) hexp]
    simp

/-- **Cancellation** promotes the cancelled task, and the tasks whose deadline passed before. -/
theorem WellFormed.expedite (h : WellFormed q) (t : TaskId) (now : Time) :
    WellFormed (q.expedite t now).1 ∧
      Raised q (fun u => q.due now u ∨ u = t) (q.expedite t now).1 ∧
      (t ∈ q.heap.arr → (q.expedite t now).1.expedited t) := by
  have hend := promoting_promote h now
  refine ⟨(hend.wellFormed.but t).expedite, ?_, fun ht => ?_⟩
  · exact (hend.toRaised.mono (fun u => .inl)).expediteLocked hend.wellFormed.heap.indexed
      (.inr rfl)
  · exact expediteLocked_expedited hend.wellFormed.heap.indexed (hend.perm.mem_iff.mpr ht)

/-! ### Removal -/

/-- `heapPop` takes the least task; once it has left the deadline heap as well, the invariant
    holds again. -/
theorem WellFormed.heapPop (h : WellFormed q) (hpop : q.heapPop = some (t, q')) :
    WellFormed (q'.deadlineHeapRemoveLocked t) ∧ t ∈ q.heap.arr ∧
      (∀ u, u ∈ q'.heap.arr ↔ u ∈ q.heap.arr ∧ u ≠ t) ∧ ∀ u ∈ q.heap.arr, q.key t ≤ q.key u := by
  have hmem := mem_heapPop h.heap.indexed.nodup hpop
  obtain ⟨hdeadlines, hmembers⟩ := h.timers.heapPop h.heap.indexed.nodup hpop
  obtain ⟨last, htop, hlast, rfl⟩ := heapPop_eq hpop
  refine ⟨⟨?_, hdeadlines, hmembers, fun u hu => ?_⟩, mem_of_mem_head? htop, hmem,
    fun u hu => h.heap.ordered.root_le htop hu⟩
  · exact h.heap.popTop (keyed_comesBefore q) htop hlast
  · exact h.bounded u ((hmem u).mp hu).1

/-- **Dequeue** keeps the invariant and takes the least task of the promoted queue. -/
theorem WellFormed.dequeue (h : WellFormed q) (hpop : q.dequeue now = some (t, q')) :
    WellFormed q' ∧ t ∈ q.heap.arr ∧ (∀ u, u ∈ q'.heap.arr ↔ u ∈ q.heap.arr ∧ u ≠ t) ∧
      ∀ u ∈ q.heap.arr, (q.promoteExpiredDeadlinesLocked now).1.key t ≤
        (q.promoteExpiredDeadlinesLocked now).1.key u := by
  have hend := promoting_promote h now
  obtain ⟨⟨t', q₁⟩, hheapPop, heq⟩ := map_eq_some_iff.mp hpop
  cases heq
  obtain ⟨hwf, hmem, hothers, hleast⟩ := hend.wellFormed.heapPop hheapPop
  refine ⟨hwf, hend.perm.mem_iff.mp hmem, fun u => ?_, fun u hu => ?_⟩
  · rw [← hend.perm.mem_iff]
    exact hothers u
  · exact hleast u (hend.perm.mem_iff.mpr hu)

/-- What a dequeue leaves of the tasks is what the promotion before it left. -/
theorem dequeue_frame (hpop : q.dequeue now = some (t, q')) :
    q' = { (q.promoteExpiredDeadlinesLocked now).1 with
      heap := q'.heap, deadlineHeap := q'.deadlineHeap } := by
  obtain ⟨⟨t', q₁⟩, hheapPop, heq⟩ := map_eq_some_iff.mp hpop
  cases heq
  obtain ⟨last, -, -, rfl⟩ := heapPop_eq hheapPop
  rfl

end ServiceLib.Pool.PriorityQueue
