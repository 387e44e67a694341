import ServiceLib.Pool.EagerTimers
import ServiceLib.Pool.TaskQueueInvariant

namespace ServiceLib.Pool

/-!
# Task pool — lazy deadline promotion refines eager timers

The pool has no timers.  It looks at its deadline heap when an executor dequeues and when a
task is cancelled, and promotes what is overdue by then; it serves the same tasks as a queue
with timers (`taskQueue_refines_eager`).
-/

open List Option Function EagerQueue IndexedHeap

/-! ### The pool's queue as a queue with timers -/

namespace TaskQueue

/-- The queue `q`, whose pointers spell `l`, without its pointers and its heap. -/
def view (q : TaskQueue) (l : List TaskId) : EagerQueue := ⟨l, q.expedited, q.deadline⟩

variable {q : TaskQueue} {l : List TaskId} {now : Time} {l l₁ ds : List TaskId} {q₁ : TaskQueue}
  {t : TaskId} {d : Time}

/-- `requeueToFrontLocked` is a cancellation at once. -/
theorem Linked.view_requeue (h : q.Linked l) (t : TaskId) :
    (q.requeueToFrontLocked t).1.view (q.requeued l t) = (q.view l).cancel t := by
  have hiff : (q.inQueue t = false ∨ q.expedited t) ↔
      ¬ (t ∈ l ∧ q.expedited t = false) := by
    rw [← h.inQueue_iff t]
    cases q.inQueue t <;> cases q.expedited t <;> simp
  by_cases hcond : q.inQueue t = false ∨ q.expedited t
  · have hkeep : (q.view l).cancel t = q.view l := if_neg (hiff.mp hcond)
    rw [hkeep, requeued, if_pos hcond, TaskQueue.requeueToFrontLocked, if_pos hcond]
  · have hmove : (q.view l).cancel t = (q.view l).moveToFront t :=
      if_pos (not_not.mp (fun hn => hcond (hiff.mpr hn)))
    obtain ⟨-, hdeadline, hexp⟩ := requeueToFrontLocked_frame q t hcond
    rw [hmove, requeued, if_neg hcond]
    exact EagerQueue.ext rfl hexp hdeadline

/-- A stage of the promotion loop that started from `q`: the tasks of `ds` were promoted, and
    what is left in the heap comes later. -/
structure Firing (q : TaskQueue) (l : List TaskId) (now : Time) (q₁ : TaskQueue)
    (l₁ ds : List TaskId) : Prop where
  wellFormed : q₁.WellFormed l₁
  view_eq : q₁.view l₁ = ds.foldl EagerQueue.moveToFront (q.view l)
  sorted : ds.Pairwise (fun a b => (q.view l).instant a < (q.view l).instant b)
  due : ∀ t ∈ ds, t ∈ l ∧ (q.view l).due now t
  ahead : ∀ t ∈ ds, ∀ u ∈ q₁.deadlineHeap.arr, (q.view l).instant t < (q.view l).instant u

theorem firing_refl (h : q.WellFormed l) (now : Time) : Firing q l now q l [] :=
  ⟨h, rfl, Pairwise.nil, by simp, by simp⟩

/-- The facts about `q₁` that the list `ds` determines. -/
theorem Firing.frame (hnd : l.Nodup)
    (h : Firing q l now q₁ l₁ ds) :
    l₁.Perm l ∧ (∀ t, q₁.expedited t = (decide (t ∈ ds) || q.expedited t)) ∧
      q₁.deadline = q.deadline := by
  have hds : ds.Nodup :=
    h.sorted.imp (fun hlt heq => by rw [heq] at hlt; exact lt_irrefl _ hlt)
  obtain ⟨horder, hprom, hdeadline⟩ := foldl_moveToFront (e := q.view l) hnd hds
  rw [← h.view_eq] at horder hprom hdeadline
  refine ⟨?_, congrFun hprom, hdeadline⟩
  refine (perm_ext_iff_of_nodup h.wellFormed.linked.nodup hnd).mpr (fun t => ?_)
  have horder' : l₁ = ds.reverse ++ l.filter (fun t => t ∉ ds) := horder
  rw [horder', mem_append, mem_reverse, mem_filter]
  by_cases ht : t ∈ ds
  · exact ⟨fun _ => (h.due t ht).1, fun _ => .inl ht⟩
  · simp [ht]

/-- One iteration of the loop fires the next timer. -/
theorem Firing.step (hnd : l.Nodup)
    (hd : (q.view l).Distinct) (h : Firing q l now q₁ l₁ ds)
    (hroot : q₁.earliest = some (t, d)) (hdue : d ≤ now) :
    ∃ l₂, Firing q l now ((q₁.deadlineHeapRemoveAtLocked 0).requeueToFrontLocked t).1 l₂
      (ds ++ [t]) := by
  obtain ⟨hperm, hexp, hdeadline⟩ := h.frame hnd
  have hhead := head?_of_earliest hroot
  have hbut := h.wellFormed.removeEarliest hhead
  have htheap := mem_of_mem_head? hhead
  obtain ⟨htl₁, htexp, htsome⟩ := (h.wellFormed.members t).mp htheap
  have htl : t ∈ l := hperm.mem_iff.mp htl₁
  have hkey : ∀ u, q₁.deadlineKey u = (q.view l).instant u := by
    intro u
    rw [deadlineKey, hdeadline]
    rfl
  have hdval : d = q₁.deadlineKey t := by
    obtain ⟨u, hu, heq⟩ := map_eq_some_iff.mp hroot
    cases heq
    rfl
  have hqexp : q.expedited t = false := by
    rw [hexp t] at htexp
    exact (Bool.or_eq_false_iff.mp htexp).2
  have htdue : (q.view l).due now t :=
    ⟨hqexp, by rw [hdeadline] at htsome; exact htsome, by rw [← hkey, ← hdval]; exact hdue⟩
  refine ⟨_, hbut.requeue, ?_, ?_, ?_, ?_⟩
  · rw [hbut.linked.view_requeue t, foldl_append, ← h.view_eq]
    exact if_pos ⟨htl₁, htexp⟩
  · refine pairwise_append.mpr ⟨h.sorted, pairwise_singleton _ _, ?_⟩
    intro a ha b hb
    rw [mem_singleton.mp hb]
    exact h.ahead a ha t htheap
  · exact forall_mem_concat h.due ⟨htl, htdue⟩
  · -- What stays in the heap is another task, so its deadline is not just no earlier.
    intro a ha u hu
    obtain ⟨hul₂, huexp, husome⟩ := (hbut.requeue.members u).mp hu
    have hut : u ≠ t ∧ u ∈ q₁.deadlineHeap.arr := by
      have hcond : ¬ ((q₁.deadlineHeapRemoveAtLocked 0).inQueue t = false ∨
          (q₁.deadlineHeapRemoveAtLocked 0).expedited t) := by
        rintro (hin | hex)
        · simp [(hbut.linked.inQueue_iff t).mpr htl₁] at hin
        · simp [show (q₁.deadlineHeapRemoveAtLocked 0).expedited t = false from htexp] at hex
      have hheap := (requeueToFrontLocked_frame _ t hcond).1
      rw [hheap, mem_remove _ hbut.holds.valid.indexed] at hu
      refine ⟨hu.2, ?_⟩
      have hmem := (hbut.holds.others u hu.2).mp hu.1
      exact (h.wellFormed.members u).mpr hmem
    have hul : u ∈ l := hperm.mem_iff.mp ((h.wellFormed.members u).mp hut.2).1
    have hlt : (q.view l).instant t < (q.view l).instant u := by
      have hle := h.wellFormed.heap.ordered.root_le hhead hut.2
      rw [hkey, hkey] at hle
      refine lt_of_le_of_ne hle (fun heq => hut.1 (hd t htl u hul htdue.2.1 ?_).symm)
      have husome' : (q.deadline u).isSome := by
        have := ((h.wellFormed.members u).mp hut.2).2.2
        rw [hdeadline] at this
        exact this
      obtain ⟨x, hx⟩ := isSome_iff_exists.mp htdue.2.1
      obtain ⟨y, hy⟩ := isSome_iff_exists.mp husome'
      have hx' : q.deadline t = some x := hx
      show q.deadline t = q.deadline u
      simp only [instant, view, hx', hy, getD_some] at heq
      rw [hx', hy, heq]
    exact forall_mem_concat (fun a ha => h.ahead a ha u hut.2) hlt a ha

/-- Every iteration shrinks the deadline heap. -/
theorem promote_length_lt (hroot : q.earliest = some (t, d)) :
    ((q.deadlineHeapRemoveAtLocked 0).requeueToFrontLocked t).1.deadlineHeap.arr.length <
      q.deadlineHeap.arr.length := by
  have hhead := head?_of_earliest hroot
  rw [head?_eq_getElem?] at hhead
  have hlen := removeAt_length q.deadlineEarlier hhead
  have hle : ((q.deadlineHeapRemoveAtLocked 0).requeueToFrontLocked t).1.deadlineHeap.arr.length ≤
      (q.deadlineHeapRemoveAtLocked 0).deadlineHeap.arr.length := by
    by_cases hcond : (q.deadlineHeapRemoveAtLocked 0).inQueue t = false ∨
        (q.deadlineHeapRemoveAtLocked 0).expedited t
    · rw [TaskQueue.requeueToFrontLocked, if_pos hcond]
    · rw [(requeueToFrontLocked_frame _ t hcond).1]
      exact remove_length_le _ _ _
  exact Nat.lt_of_le_of_lt hle (Nat.lt_of_succ_le (Nat.le_of_eq hlen))

/-- **A batch of promotions fires the timers that are due.** -/
theorem WellFormed.view_promote (h : q.WellFormed l) (hd : (q.view l).Distinct) (now : Time) :
    ∃ l', (q.promoteExpiredDeadlinesLocked now).1.WellFormed l' ∧
      (q.promoteExpiredDeadlinesLocked now).1.view l' = (q.view l).fireTimers now := by
  have hnd := h.linked.nodup
  obtain ⟨l', ds, hfire⟩ : ∃ l' ds,
      Firing q l now (q.promoteExpiredDeadlinesLocked now).1 l' ds :=
    promoteLoop_induction (I := fun q₁ => ∃ l₁ ds, Firing q l now q₁ l₁ ds) now
      (fun q₁ t d hroot hdue hq => by
        obtain ⟨l₁, ds, hq⟩ := hq
        obtain ⟨l₂, hq₂⟩ := hq.step hnd hd hroot hdue
        exact ⟨l₂, _, hq₂⟩) _ _ ⟨l, [], firing_refl h now⟩
  refine ⟨l', hfire.wellFormed, ?_⟩
  have hahead : ∀ t d, (q.promoteExpiredDeadlinesLocked now).1.earliest = some (t, d) → now < d :=
    fun t d hroot =>
      promoteLoop_exhausts (I := fun q₁ => ∃ l₁ ds, Firing q l now q₁ l₁ ds)
        (fun q => q.deadlineHeap.arr.length) now
        (fun q hq => by rw [earliest, length_eq_zero_iff.mp hq]; rfl)
        (fun q₁ t d hroot hdue hq => by
          obtain ⟨l₁, ds, hq⟩ := hq
          obtain ⟨l₂, hq₂⟩ := hq.step hnd hd hroot hdue
          exact ⟨⟨l₂, _, hq₂⟩, promote_length_lt hroot⟩)
        _ _ ⟨l, [], firing_refl h now⟩ (Nat.le_refl _) hroot
  obtain ⟨hperm, hexp, hdeadline⟩ := hfire.frame hnd
  -- Nothing due was left behind, so `ds` is the list of all due timers.
  have hds : (q.view l).Due now ds := by
    refine ⟨hfire.sorted, fun t => ⟨hfire.due t, ?_⟩⟩
    rintro ⟨htl, hprom, hsome, hle⟩
    by_contra hnot
    have hmem := (hfire.wellFormed.members t).mpr ⟨hperm.mem_iff.mpr htl, by
      rw [hexp t, decide_eq_false hnot]
      exact hprom, by rw [hdeadline]; exact hsome⟩
    obtain ⟨r, hr⟩ : ∃ r,
      (q.promoteExpiredDeadlinesLocked now).1.deadlineHeap.arr.head? = some r := by
      cases harr : (q.promoteExpiredDeadlinesLocked now).1.deadlineHeap.arr with
      | nil => simp [harr] at hmem
      | cons r rest => exact ⟨r, rfl⟩
    have hlt := hahead r _ (by rw [earliest, hr]; rfl)
    have hroot := hfire.wellFormed.heap.ordered.root_le hr hmem
    have hkey : (q.promoteExpiredDeadlinesLocked now).1.deadlineKey t = (q.view l).instant t := by
      rw [deadlineKey, hdeadline]
      rfl
    rw [hkey] at hroot
    exact absurd (lt_of_lt_of_le hlt hroot) (not_lt.mpr hle)
  rw [hfire.view_eq, fireTimers, (timersDue_due hnd hd now).unique hds]

/-- **Insertion**, seen from outside. -/
theorem view_push (q : TaskQueue) (l : List TaskId) (t : TaskId) (d : Option Time)
    (heapGrows : Bool) :
    (q.push t d heapGrows).1.view (if (q.push t d heapGrows).2 then l ++ [t] else l) =
      (q.view l).add t d (d.isNone || heapGrows) := by
  cases d with
  | none => exact EagerQueue.ext rfl (link_expedited _ t) (link_deadline _ t)
  | some d =>
    cases heapGrows with
    | false => rfl
    | true => exact EagerQueue.ext rfl (link_expedited _ t) (link_deadline _ t)

/-- **Removal**, seen from outside. -/
theorem WellFormed.view_unlinkHead (h : q.WellFormed l) :
    (l = [] ∧ q.unlinkHead = none) ∨
      ∃ t rest, l = t :: rest ∧ q.unlinkHead = some (t, q.removeHead t) ∧
        (q.removeHead t).WellFormed rest ∧
        (q.removeHead t).view rest = { q.view l with order := rest } := by
  cases l with
  | nil =>
    refine .inl ⟨rfl, ?_⟩
    have hhead : q.head = none := h.linked.head_eq
    rw [unlinkHead, hhead]
  | cons t rest =>
    obtain ⟨-, hdeadline, hexp⟩ := removeHead_frame q t
    exact .inr ⟨t, rest, rfl, h.linked.unlinkHead.1, h.removeHead,
      EagerQueue.ext rfl hexp hdeadline⟩

end TaskQueue

/-! ### Runs -/

/-- What happens to a queue: additions, cancellations, dequeues, and the clock. -/
inductive TimerOp
  /-- `addTask`; `heapGrows` is whether the deadline heap can be extended. -/
  | addTask (deadline : Option Time) (heapGrows : Bool)
  | cancel (t : TaskId)
  | dequeue
  | advance (now : Time)
  deriving DecidableEq, Repr

/-- A queue with its clock, the number of tasks made so far, and those dequeued. -/
structure TimedRun (Q : Type) where
  queue : Q
  now : Time
  tasks : Nat
  dequeued : List TaskId

/-- The pool's queue: deadlines are looked at when a task is dequeued or cancelled. -/
def lazyStep (s : TimedRun TaskQueue) : TimerOp → Option (TimedRun TaskQueue)
  | .addTask deadline heapGrows =>
    some { s with
      queue := (s.queue.push s.tasks deadline heapGrows).1
      tasks := s.tasks + 1 }
  | .cancel t => some { s with queue := (s.queue.requeueToFront t s.now).1 }
  | .dequeue => (s.queue.dequeue s.now).map (fun r =>
      { s with queue := r.2, dequeued := s.dequeued ++ [r.1] })
  | .advance now => if s.now ≤ now then some { s with now := now } else none

/-- The queue with timers: the clock moves tasks while it advances. -/
def eagerStep (e : TimedRun EagerQueue) : TimerOp → Option (TimedRun EagerQueue)
  | .addTask deadline heapGrows =>
    some { e with
      queue := e.queue.add e.tasks deadline (deadline.isNone || heapGrows)
      tasks := e.tasks + 1 }
  | .cancel t => some { e with queue := e.queue.cancel t }
  | .dequeue => e.queue.pop.map (fun r =>
      { e with queue := r.2, dequeued := e.dequeued ++ [r.1] })
  | .advance now =>
    if e.now ≤ now then some { e with now := now, queue := e.queue.fireTimers now } else none

/-- The queue of a pool that is constructed at `start`. -/
def lazySystem (start : Time) : System (TimedRun TaskQueue) TimerOp where
  init := ⟨TaskQueue.empty, start, 0, []⟩
  step := lazyStep

/-- The queue with timers, from `start` on. -/
def eagerSystem (start : Time) : System (TimedRun EagerQueue) TimerOp where
  init := ⟨empty, start, 0, []⟩
  step := eagerStep

/-- Every deadline is new and lies ahead of the instant at which its task is added; `used` are
    the deadlines so far. -/
def admissible : Time → List Time → List TimerOp → Bool
  | _, _, [] => true
  | now, used, .addTask (some d) _ :: ops =>
    decide (now < d) && !used.contains d && admissible now (d :: used) ops
  | _, used, .advance now :: ops => admissible now used ops
  | now, used, _ :: ops => admissible now used ops

/-- The queue with timers is what the pool's queue would be after a promotion at this
    instant. -/
structure Simulates (used : List Time) (l : List TaskId) (s : TimedRun TaskQueue)
    (e : TimedRun EagerQueue) : Prop where
  now_eq : e.now = s.now
  tasks_eq : e.tasks = s.tasks
  dequeued_eq : e.dequeued = s.dequeued
  wellFormed : s.queue.WellFormed l
  queue_eq : e.queue = (s.queue.view l).fireTimers s.now
  distinct : (s.queue.view l).Distinct
  made : ∀ t ∈ l, t < s.tasks
  used : ∀ t ∈ l, ∀ d, s.queue.deadline t = some d → d ∈ used

namespace Simulates

variable {used : List Time} {l : List TaskId} {s : TimedRun TaskQueue} {e : TimedRun EagerQueue}

section

variable (h : Simulates used l s e)
include h

/-- A state of the pool's queue in which nothing is overdue is simulated by its own view. -/
theorem of_settled {l' : List TaskId} {f : EagerQueue} (hwf : q.WellFormed l')
    (hview : q.view l' = f) (hsub : ∀ t ∈ l', t ∈ l) (hdeadline : q.deadline = s.queue.deadline)
    (hsettled : ∀ t ∈ l', ¬ f.due s.now t) (dequeued : List TaskId) :
    Simulates used l' { s with queue := q, dequeued := dequeued }
      { e with queue := f, dequeued := dequeued } where
  now_eq := h.now_eq
  tasks_eq := h.tasks_eq
  dequeued_eq := rfl
  wellFormed := hwf
  queue_eq := by
    subst hview
    exact (fireTimers_of_not_due hsettled).symm
  distinct := by
    intro t ht u hu
    show (q.deadline t).isSome → q.deadline t = q.deadline u → t = u
    rw [hdeadline]
    exact h.distinct t (hsub t ht) u (hsub u hu)
  made := fun t ht => h.made t (hsub t ht)
  used := by
    intro t ht
    show ∀ d, q.deadline t = some d → d ∈ used
    rw [hdeadline]
    exact h.used t (hsub t ht)

/-- An added deadline that was not used before keeps deadlines distinct. -/
theorem distinct_add {d : Option Time} (linked : Bool) (hnew : ∀ x, d = some x → x ∉ used) :
    ((s.queue.view l).add s.tasks d linked).Distinct := by
  have hold : ∀ t ∈ l, t ≠ s.tasks := fun t ht heq =>
    Nat.lt_irrefl _ (heq ▸ h.made t ht)
  have hmem : ∀ t ∈ ((s.queue.view l).add s.tasks d linked).order, t ∈ l ∨ t = s.tasks := by
    intro t ht
    cases linked with
    | false => exact .inl ht
    | true => simpa [add, TaskQueue.view] using ht
  -- A task that waited before has a used deadline, the new task has none of those.
  have hcross : ∀ t ∈ l, (s.queue.deadline t).isSome → s.queue.deadline t ≠ d := by
    intro t ht hsome heq
    obtain ⟨x, hx⟩ := isSome_iff_exists.mp hsome
    exact hnew x (heq ▸ hx) (h.used t ht x hx)
  intro t ht u hu
  show (update s.queue.deadline s.tasks d t).isSome →
    update s.queue.deadline s.tasks d t =
      update s.queue.deadline s.tasks d u → t = u
  rcases hmem t ht with ht | rfl <;> rcases hmem u hu with hu | rfl
  · rw [update_of_ne (hold t ht), update_of_ne (hold u hu)]
    exact h.distinct t ht u hu
  · rw [update_of_ne (hold t ht), update_self]
    exact fun hsome heq => absurd heq (hcross t ht hsome)
  · rw [update_self, update_of_ne (hold u hu)]
    intro hsome heq
    exact absurd heq.symm (hcross u hu (heq ▸ hsome))
  · exact fun _ _ => rfl

/-- Both queues take a new task. -/
theorem addTask (d : Option Time) (g : Bool) (used' : List Time)
    (hahead : ∀ x, d = some x → s.now < x) (hnew : ∀ x, d = some x → x ∉ used)
    (hused : ∀ x ∈ used, x ∈ used') (hused' : ∀ x, d = some x → x ∈ used') :
    ∃ l', Simulates used' l'
      { s with queue := (s.queue.push s.tasks d g).1, tasks := s.tasks + 1 }
      { e with queue := e.queue.add e.tasks d (d.isNone || g), tasks := e.tasks + 1 } := by
  have hfresh : s.tasks ∉ l := fun hmem => Nat.lt_irrefl _ (h.made _ hmem)
  have hwf := h.wellFormed.push hfresh d g
  have hview := s.queue.view_push l s.tasks d g
  have hdist := h.distinct_add (d.isNone || g) hnew
  generalize (if (s.queue.push s.tasks d g).2 then l ++ [s.tasks] else l) = l' at hwf hview
  -- Whether or not the insertion failed, no other task has come in.
  have hmem : ∀ t ∈ l', t ∈ l ∨ t = s.tasks := by
    intro t ht
    have horder : l' = ((s.queue.view l).add s.tasks d (d.isNone || g)).order :=
      congrArg order hview
    rw [horder] at ht
    cases hlinked : d.isNone || g with
    | false => rw [hlinked] at ht; exact .inl ht
    | true => rw [hlinked] at ht; simpa [add, TaskQueue.view] using ht
  refine ⟨l', h.now_eq, congrArg (· + 1) h.tasks_eq, h.dequeued_eq, hwf, ?_, ?_, ?_, ?_⟩
  · show e.queue.add e.tasks d _ = fireTimers _ s.now
    rw [h.queue_eq, h.tasks_eq, hview]
    refine fireTimers_add h.wellFormed.linked.nodup h.distinct hfresh hahead ?_ hdist
    rw [← hview]
    exact hwf.linked.nodup
  · rw [hview]
    exact hdist
  · intro t ht
    rcases hmem t ht with ht | rfl
    · exact Nat.lt_succ_of_lt (h.made t ht)
    · exact Nat.lt_succ_self _
  · have hdeadline : (s.queue.push s.tasks d g).1.deadline =
        update s.queue.deadline s.tasks d := congrArg deadline hview
    intro t ht x hx
    replace hx : update s.queue.deadline s.tasks d t = some x := by
      rw [← hdeadline]
      exact hx
    rcases hmem t ht with ht | rfl
    · have hold : t ≠ s.tasks := by
        rintro rfl
        exact hfresh ht
      rw [update_of_ne hold] at hx
      exact hused x (h.used t ht x hx)
    · rw [update_self] at hx
      exact hused' x hx

/-- The queue right after a promotion. -/
theorem promote :
    ∃ l', (s.queue.promoteExpiredDeadlinesLocked s.now).1.WellFormed l' ∧
      (s.queue.promoteExpiredDeadlinesLocked s.now).1.view l' = e.queue ∧
      (∀ t ∈ l', t ∈ l) ∧
      (s.queue.promoteExpiredDeadlinesLocked s.now).1.deadline = s.queue.deadline ∧
      ∀ t ∈ l', ¬ e.queue.due s.now t := by
  have hnd := h.wellFormed.linked.nodup
  obtain ⟨l', hwf, hview⟩ := h.wellFormed.view_promote h.distinct s.now
  rw [← h.queue_eq] at hview
  have horder : l' = e.queue.order := congrArg order hview
  refine ⟨l', hwf, hview, fun t ht => ?_, ?_, fun t ht => ?_⟩
  · rw [horder, h.queue_eq] at ht
    exact (fireTimers_perm (e := s.queue.view l) hnd h.distinct s.now).mem_iff.mp ht
  · have hfired := fireTimers_deadline (e := s.queue.view l) hnd h.distinct s.now
    rw [← h.queue_eq, ← hview] at hfired
    exact hfired
  · rw [horder, h.queue_eq] at ht
    rw [h.queue_eq]
    exact not_due_fireTimers hnd h.distinct ht

theorem cancel (t : TaskId) :
    ∃ l', Simulates used l' { s with queue := (s.queue.requeueToFront t s.now).1 }
      { e with queue := e.queue.cancel t } := by
  obtain ⟨l₁, hwf, hview, hsub, hdeadline, hsettled⟩ := h.promote
  have hcancel := hwf.linked.view_requeue t
  rw [hview] at hcancel
  have horder : l₁ = e.queue.order := congrArg order hview
  have hwf' := hwf.requeueToFrontLocked t
  generalize TaskQueue.requeued _ l₁ t = l' at hwf' hcancel
  have horder' : l' = (e.queue.cancel t).order := congrArg order hcancel
  have hsim := h.of_settled (e := e) hwf' hcancel (fun u hu => ?_) ?_ ?_ e.dequeued
  · refine ⟨l', ?_⟩
    have hdeq := h.dequeued_eq
    exact ⟨hsim.now_eq, hsim.tasks_eq, hdeq, hsim.wellFormed, hsim.queue_eq, hsim.distinct,
      hsim.made, hsim.used⟩
  · rw [horder'] at hu
    refine hsub u ?_
    rw [horder]
    exact (cancel_perm t).mem_iff.mp hu
  · have hd : ((s.queue.promoteExpiredDeadlinesLocked s.now).1.requeueToFrontLocked t).1.deadline =
        (e.queue.cancel t).deadline := congrArg deadline hcancel
    rw [hd, cancel_deadline, ← hdeadline, ← hview]
    rfl
  · intro u hu
    rw [horder'] at hu
    exact not_due_cancel (fun v hv => hsettled v (horder ▸ hv)) t u hu

/-- Both queues answer the same task, or both are empty. -/
theorem dequeue :
    (s.queue.dequeue s.now = none ∧ e.queue.pop = none) ∨
    ∃ t q f l', s.queue.dequeue s.now = some (t, q) ∧ e.queue.pop = some (t, f) ∧
      Simulates used l' { s with queue := q, dequeued := s.dequeued ++ [t] }
        { e with queue := f, dequeued := e.dequeued ++ [t] } := by
  obtain ⟨l₁, hwf, hview, hsub, hdeadline, hsettled⟩ := h.promote
  have horder : l₁ = e.queue.order := congrArg order hview
  rcases hwf.view_unlinkHead with ⟨hnil, hnone⟩ | ⟨t, rest, hcons, hsome, hwf', hview'⟩
  · refine .inl ⟨hnone, ?_⟩
    rw [pop, ← horder, hnil]
  · rw [hview] at hview'
    refine .inr ⟨t, _, { e.queue with order := rest }, rest, hsome, ?_, ?_⟩
    · rw [pop, ← horder, hcons]
    · have hrest : ∀ u ∈ rest, u ∈ l₁ := fun u hu => hcons ▸ mem_cons_of_mem t hu
      rw [h.dequeued_eq]
      refine h.of_settled hwf' hview' (fun u hu => hsub u (hrest u hu)) ?_ ?_ _
      · rw [← hdeadline]
        exact (TaskQueue.removeHead_frame _ t).2.1
      · exact fun u hu => hsettled u (hrest u hu)

theorem advance (hle : s.now ≤ now) :
    Simulates used l { s with now := now }
      { e with now := now, queue := e.queue.fireTimers now } where
  now_eq := rfl
  tasks_eq := h.tasks_eq
  dequeued_eq := h.dequeued_eq
  wellFormed := h.wellFormed
  queue_eq := by
    show e.queue.fireTimers now = _
    rw [h.queue_eq]
    exact fireTimers_fireTimers h.wellFormed.linked.nodup h.distinct hle
  distinct := h.distinct
  made := h.made
  used := h.used

end

end Simulates

/-- Two runs that are in step stay in step, and get stuck together. -/
theorem simulates_runFrom {start : Time} {ops : List TimerOp} {used : List Time}
    {l : List TaskId} {s : TimedRun TaskQueue} {e : TimedRun EagerQueue}
    (h : Simulates used l s e) (hops : admissible s.now used ops) :
    ((lazySystem start).runFrom s ops).map (·.dequeued) =
      ((eagerSystem start).runFrom e ops).map (·.dequeued) := by
  induction ops generalizing used l s e with
  | nil => exact congrArg some h.dequeued_eq.symm
  | cons op ops ih =>
    cases op with
    | addTask d g =>
      cases d with
      | none =>
        obtain ⟨l', h'⟩ := h.addTask none g used (by simp) (by simp)
          (fun _ hx => hx) (by simp)
        exact ih h' hops
      | some d =>
        simp only [admissible, Bool.and_eq_true, Bool.not_eq_true', decide_eq_true_eq] at hops
        obtain ⟨⟨hahead, hnew⟩, hops⟩ := hops
        have hnew : d ∉ used := by simpa using hnew
        obtain ⟨l', h'⟩ := h.addTask (some d) g (d :: used)
          (by rintro x ⟨⟩; exact hahead) (by rintro x ⟨⟩; exact hnew)
          (fun _ hx => mem_cons_of_mem _ hx) (by rintro x ⟨⟩; exact mem_cons_self)
        exact ih h' hops
    | cancel t =>
      obtain ⟨l', h'⟩ := h.cancel t
      exact ih h' hops
    | dequeue =>
      rcases h.dequeue with ⟨hlazy, heager⟩ | ⟨t, q, f, l', hlazy, heager, h'⟩
      · simp only [System.runFrom, lazySystem, eagerSystem, lazyStep, eagerStep, hlazy, heager]
        rfl
      · have hnext := ih h' hops
        simp only [System.runFrom, lazySystem, eagerSystem, lazyStep, eagerStep, hlazy, heager]
        exact hnext
    | advance now =>
      by_cases hle : s.now ≤ now
      · have hnext := ih (h.advance hle) hops
        have hle' : e.now ≤ now := h.now_eq ▸ hle
        simp only [System.runFrom, lazySystem, eagerSystem, lazyStep, eagerStep, if_pos hle,
          if_pos hle']
        exact hnext
      · have hle' : ¬ e.now ≤ now := h.now_eq ▸ hle
        simp only [System.runFrom, lazySystem, eagerSystem, lazyStep, eagerStep, if_neg hle,
          if_neg hle']
        rfl

/-- **Lazy promotion refines eager timers.**  Over any sequence of additions, cancellations,
    dequeues and clock advances whose deadlines are pairwise distinct and lie ahead of the
    insertion, the pool dequeues the same tasks, in the same order, as a queue in which timers
    move tasks to the front at their deadlines. -/
theorem taskQueue_refines_eager (start : Time) (ops : List TimerOp)
    (h : admissible start [] ops = true) :
    ((lazySystem start).run ops).map (·.dequeued) =
      ((eagerSystem start).run ops).map (·.dequeued) := by
  have hinit : Simulates [] [] (lazySystem start).init (eagerSystem start).init := by
    refine ⟨rfl, rfl, rfl, TaskQueue.wellFormed_empty, ?_, ?_, by simp, by simp⟩
    · have hidle : ∀ t ∈ empty.order, ¬ empty.due start t := by
        intro t ht
        cases ht
      exact (fireTimers_of_not_due hidle).symm
    · intro t ht
      cases ht
  exact simulates_runFrom hinit h

/-- Two deadlines pass unnoticed, then a cancellation, then four dequeues. -/
def overdueOps : List TimerOp :=
  [.addTask none true, .addTask (some 30) true, .addTask none true, .addTask (some 20) true,
    .advance 25, .addTask (some 50) true, .advance 40, .cancel 2, .dequeue, .dequeue,
    .advance 60, .dequeue, .dequeue]

theorem taskQueue_refines_eager_overdue :
    ((lazySystem 0).run overdueOps).map (·.dequeued) = some [2, 1, 4, 3] ∧
      ((eagerSystem 0).run overdueOps).map (·.dequeued) = some [2, 1, 4, 3] := by
  have hlazy : ((lazySystem 0).run overdueOps).map (·.dequeued) = some [2, 1, 4, 3] := by decide
  exact ⟨hlazy, taskQueue_refines_eager 0 overdueOps (by decide) ▸ hlazy⟩

end ServiceLib.Pool
