import Mathlib.Data.List.Sort
import ServiceLib.Pool.WaitQueue

namespace ServiceLib.Pool

/-!
# Task pool — a queue with one timer for each task

The specification of deadline promotion: the queue one would write with a timer for each
task.  It is a plain list; the clock fires the timers it passes in the order of their
deadlines (`fireTimers`), and a cancellation moves its task to the front at once.
-/

open List Option Function

/-! ### The queue with timers -/

/-- A queue whose tasks are moved to the front by timers. -/
@[ext] structure EagerQueue where
  order : List TaskId
  promoted : TaskId → Bool
  deadline : TaskId → Option Time

namespace EagerQueue

def empty : EagerQueue := ⟨[], fun _ => false, fun _ => none⟩

/-- A fresh task, at the back of the queue when `linked`. -/
def add (e : EagerQueue) (t : TaskId) (deadline : Option Time) (linked : Bool) : EagerQueue where
  order := if linked then e.order ++ [t] else e.order
  promoted := update e.promoted t false
  deadline := update e.deadline t deadline

/-- Move a task to the front, once and for all. -/
def moveToFront (e : EagerQueue) (t : TaskId) : EagerQueue :=
  { e with order := t :: e.order.erase t, promoted := update e.promoted t true }

/-- A cancellation promotes its task if it still waits and was not promoted before. -/
def cancel (e : EagerQueue) (t : TaskId) : EagerQueue :=
  if t ∈ e.order ∧ e.promoted t = false then e.moveToFront t else e

/-- The instant a timer fires. -/
def instant (e : EagerQueue) (t : TaskId) : Time := (e.deadline t).getD 0

/-- A waiting task whose timer fires at `now` or before. -/
def due (e : EagerQueue) (now : Time) (t : TaskId) : Prop :=
  e.promoted t = false ∧ (e.deadline t).isSome ∧ e.instant t ≤ now

instance (e : EagerQueue) (now : Time) (t : TaskId) : Decidable (e.due now t) :=
  inferInstanceAs (Decidable (_ ∧ _ ∧ _))

/-- The tasks whose timers fire until `now`, in the order of their instants. -/
def timersDue (e : EagerQueue) (now : Time) : List TaskId :=
  (e.order.filter (fun t => e.due now t)).insertionSort (fun a b => e.instant a ≤ e.instant b)

/-- The clock reaches `now`: each timer it passes moves its task to the front. -/
def fireTimers (e : EagerQueue) (now : Time) : EagerQueue :=
  (e.timersDue now).foldl moveToFront e

/-- The removal of the first task. -/
def pop (e : EagerQueue) : Option (TaskId × EagerQueue) :=
  match e.order with
  | [] => none
  | t :: rest => some (t, { e with order := rest })

/-! ### Which timers fire -/

/-- No two waiting tasks have the same deadline. -/
def Distinct (e : EagerQueue) : Prop :=
  ∀ t ∈ e.order, ∀ u ∈ e.order, (e.deadline t).isSome → e.deadline t = e.deadline u → t = u

/-- `ds` lists the timers that are due at `now`, earliest first. -/
structure Due (e : EagerQueue) (now : Time) (ds : List TaskId) : Prop where
  sorted : ds.Pairwise (fun a b => e.instant a < e.instant b)
  mem_iff : ∀ t, t ∈ ds ↔ t ∈ e.order ∧ e.due now t

variable {e : EagerQueue} {ds : List TaskId} {now : Time} {t : TaskId}

theorem Due.nodup (h : e.Due now ds) : ds.Nodup :=
  h.sorted.imp (fun hlt heq => by rw [heq] at hlt; exact lt_irrefl _ hlt)

/-- With distinct deadlines there is only one order in which timers can fire. -/
theorem Due.unique {ds' : List TaskId} (h : e.Due now ds) (h' : e.Due now ds') : ds = ds' := by
  have hanti : Std.Antisymm (fun a b => e.instant a < e.instant b) :=
    ⟨fun a b hab hba => absurd hba (lt_asymm hab)⟩
  have hirrefl : Std.Irrefl (fun a b => e.instant a < e.instant b) := ⟨fun a => lt_irrefl _⟩
  exact Pairwise.eq_of_mem_iff h.sorted h'.sorted
    (fun t => (h.mem_iff t).trans (h'.mem_iff t).symm)

/-- The list of the timers that fire is the one that is due. -/
theorem timersDue_due (hnd : e.order.Nodup) (hd : e.Distinct) (now : Time) :
    e.Due now (e.timersDue now) := by
  have hmem : ∀ t, t ∈ e.timersDue now ↔ t ∈ e.order ∧ e.due now t := by
    intro t
    unfold timersDue
    rw [mem_insertionSort, mem_filter, decide_eq_true_iff]
  refine ⟨?_, hmem⟩
  have htotal : Std.Total (fun a b => e.instant a ≤ e.instant b) := ⟨fun a b => le_total _ _⟩
  have htrans : IsTrans TaskId (fun a b => e.instant a ≤ e.instant b) :=
    ⟨fun a b c => le_trans⟩
  have hle : (e.timersDue now).Pairwise (fun a b => e.instant a ≤ e.instant b) :=
    pairwise_insertionSort _ _
  have hne : (e.timersDue now).Nodup :=
    (perm_insertionSort _ _).nodup_iff.mpr (hnd.filter _)
  refine (hle.and hne).imp_of_mem ?_
  rintro a b ha hb ⟨hab, hneq⟩
  obtain ⟨hao, -, hasome, -⟩ := (hmem a).mp ha
  obtain ⟨hbo, -, hbsome, -⟩ := (hmem b).mp hb
  refine lt_of_le_of_ne hab (fun heq => hneq (hd a hao b hbo hasome ?_))
  -- Equal instants are equal deadlines, because both tasks have one.
  obtain ⟨x, hx⟩ := isSome_iff_exists.mp hasome
  obtain ⟨y, hy⟩ := isSome_iff_exists.mp hbsome
  rw [instant, instant, hx, hy] at heq
  rw [hx, hy]
  exact congrArg some heq

/-! ### What firing does -/

/-- Moving the tasks of `ds` to the front, one after the other, reverses them in front of the
    rest. -/
theorem foldl_moveToFront (hnd : e.order.Nodup) (hds : ds.Nodup) :
    (ds.foldl moveToFront e).order = ds.reverse ++ e.order.filter (fun t => t ∉ ds) ∧
      (ds.foldl moveToFront e).promoted = (fun t => decide (t ∈ ds) || e.promoted t) ∧
      (ds.foldl moveToFront e).deadline = e.deadline := by
  induction ds generalizing e with
  | nil => simp
  | cons d ds ih =>
    obtain ⟨hd, hds⟩ := nodup_cons.mp hds
    have hmoved : (e.moveToFront d).order = d :: e.order.filter (fun t => t ≠ d) := by
      show d :: e.order.erase d = _
      rw [hnd.erase_eq_filter]
      congr 1
      exact filter_congr (fun t _ => by by_cases ht : t = d <;> simp [ht])
    have hnd' : (e.moveToFront d).order.Nodup := by
      rw [hmoved, nodup_cons]
      exact ⟨by simp, hnd.filter _⟩
    obtain ⟨horder, hpromoted, hdeadline⟩ := ih hnd' hds
    rw [foldl_cons]
    refine ⟨?_, ?_, hdeadline⟩
    · rw [horder, hmoved, filter_cons_of_pos (by simpa using hd), List.filter_filter,
        reverse_cons, append_assoc, singleton_append]
      congr 2
      refine filter_congr (fun t _ => ?_)
      simp [mem_cons, Bool.and_comm]
    · rw [hpromoted]
      funext t
      by_cases ht : t = d
      · subst ht
        simp [moveToFront]
      · simp [moveToFront, ht]

section

variable (hnd : e.order.Nodup) (hd : e.Distinct)
include hnd hd

/-- The state after firing, for the list `ds` of due timers. -/
theorem fireTimers_eq (hds : e.Due now ds) :
    e.fireTimers now =
      ⟨ds.reverse ++ e.order.filter (fun t => t ∉ ds), fun t => decide (t ∈ ds) || e.promoted t,
        e.deadline⟩ := by
  have heq := (timersDue_due hnd hd now).unique hds
  obtain ⟨horder, hpromoted, hdeadline⟩ := foldl_moveToFront hnd hds.nodup
  rw [fireTimers, heq]
  exact EagerQueue.ext horder hpromoted hdeadline

theorem fireTimers_perm (now : Time) : (e.fireTimers now).order.Perm e.order := by
  have hds := timersDue_due hnd hd now
  rw [fireTimers_eq hnd hd hds]
  refine (perm_ext_iff_of_nodup ?_ hnd).mpr (fun t => ?_)
  · refine nodup_append.mpr ⟨nodup_reverse.mpr hds.nodup, hnd.filter _, ?_⟩
    rintro a ha b hb rfl
    exact (by simpa using (mem_filter.mp hb).2 : a ∉ _) (mem_reverse.mp ha)
  · simp only [mem_append, mem_reverse, mem_filter, decide_eq_true_eq]
    by_cases ht : t ∈ e.timersDue now
    · exact ⟨fun _ => ((hds.mem_iff t).mp ht).1, fun _ => .inl ht⟩
    · simp [ht]

theorem fireTimers_nodup (now : Time) : (e.fireTimers now).order.Nodup :=
  (fireTimers_perm hnd hd now).nodup_iff.mpr hnd

theorem fireTimers_deadline (now : Time) : (e.fireTimers now).deadline = e.deadline := by
  rw [fireTimers_eq hnd hd (timersDue_due hnd hd now)]

theorem fireTimers_distinct (now : Time) : (e.fireTimers now).Distinct := by
  intro t ht u hu
  rw [fireTimers_deadline hnd hd now]
  exact hd t ((fireTimers_perm hnd hd now).mem_iff.mp ht) u
    ((fireTimers_perm hnd hd now).mem_iff.mp hu)

/-- Nothing is due any more. -/
theorem not_due_fireTimers (ht : t ∈ (e.fireTimers now).order) :
    ¬ (e.fireTimers now).due now t := by
  have hds := timersDue_due hnd hd now
  have hto := (fireTimers_perm hnd hd now).mem_iff.mp ht
  rw [fireTimers_eq hnd hd hds]
  rintro ⟨hprom, hsome, hle⟩
  have hnot : t ∉ e.timersDue now ∧ e.promoted t = false := by simpa using hprom
  exact hnot.1 ((hds.mem_iff t).mpr ⟨hto, hnot.2, hsome, hle⟩)

end

/-- With nothing due, the clock changes nothing. -/
theorem fireTimers_of_not_due (h : ∀ t ∈ e.order, ¬ e.due now t) : e.fireTimers now = e := by
  have hnil : e.order.filter (fun t => e.due now t) = [] :=
    filter_eq_nil_iff.mpr (fun t ht => by simpa using h t ht)
  rw [fireTimers, timersDue, hnil]
  rfl

/-- **Batches compose.**  Firing up to `now` and then up to `later` is firing up to `later`. -/
theorem fireTimers_fireTimers (hnd : e.order.Nodup) (hd : e.Distinct) {later : Time}
    (hle : now ≤ later) : (e.fireTimers now).fireTimers later = e.fireTimers later := by
  have hds := timersDue_due hnd hd now
  have hnd' := fireTimers_nodup hnd hd now
  have hd' := fireTimers_distinct hnd hd now
  have hds' := timersDue_due hnd' hd' later
  generalize hnew : (e.fireTimers now).timersDue later = new at hds'
  have hperm := fireTimers_perm hnd hd now
  have heq := fireTimers_eq hnd hd hds
  -- The second batch holds what became due after `now`.
  have hmem : ∀ t, t ∈ new ↔ t ∈ e.order ∧ t ∉ e.timersDue now ∧ e.due later t := by
    intro t
    rw [hds'.mem_iff, hperm.mem_iff, heq]
    simp only [due, instant, Bool.or_eq_false_iff, decide_eq_false_iff_not, and_assoc]
  have hinstant : ∀ t, (e.fireTimers now).instant t = e.instant t := by
    intro t
    rw [heq]
    rfl
  have hboth : e.Due later (e.timersDue now ++ new) := by
    refine ⟨pairwise_append.mpr ⟨hds.sorted, ?_, ?_⟩, fun t => ?_⟩
    · simpa only [hinstant] using hds'.sorted
    · intro a ha b hb
      obtain ⟨hbo, hbnot, hbprom, hbsome, -⟩ := (hmem b).mp hb
      have hale := ((hds.mem_iff a).mp ha).2.2.2
      refine lt_of_le_of_lt hale (not_le.mp (fun hble => ?_))
      exact hbnot ((hds.mem_iff b).mpr ⟨hbo, hbprom, hbsome, hble⟩)
    · rw [mem_append, hmem, hds.mem_iff]
      constructor
      · rintro (⟨ho, hprom, hsome, hdue⟩ | ⟨ho, -, hdue⟩)
        · exact ⟨ho, hprom, hsome, le_trans hdue hle⟩
        · exact ⟨ho, hdue⟩
      · rintro ⟨ho, hdue⟩
        by_cases ht : e.due now t
        · exact .inl ⟨ho, ht⟩
        · exact .inr ⟨ho, fun hin => ht hin.2, hdue⟩
  have hdisj : ∀ t ∈ e.timersDue now, t ∉ new := fun t ht hin => ((hmem t).mp hin).2.1 ht
  rw [fireTimers_eq hnd' hd' hds', fireTimers_eq hnd hd hboth, heq]
  refine EagerQueue.ext ?_ ?_ rfl
  · show new.reverse ++ filter _ (_ ++ _) = (_ ++ new).reverse ++ _
    rw [filter_append, reverse_append, append_assoc, List.filter_filter]
    congr 2
    · exact filter_eq_self.mpr (fun t ht => by
        simpa using hdisj t (mem_reverse.mp ht))
    · refine filter_congr (fun t _ => ?_)
      simp [Bool.and_comm]
  · funext t
    by_cases h₁ : t ∈ e.timersDue now <;> by_cases h₂ : t ∈ new <;> simp [h₁, h₂]

/-- **Additions commute with firing**, when the new deadline lies ahead. -/
theorem fireTimers_add (hnd : e.order.Nodup) (hd : e.Distinct) {d : Option Time}
    {linked : Bool} (ht : t ∉ e.order) (hahead : ∀ x, d = some x → now < x)
    (hnd' : (e.add t d linked).order.Nodup) (hd' : (e.add t d linked).Distinct) :
    (e.fireTimers now).add t d linked = (e.add t d linked).fireTimers now := by
  have hds := timersDue_due hnd hd now
  have hself : ∀ u, u ∈ e.order → u ≠ t := by
    rintro u hu rfl
    exact ht hu
  have hnot : ¬ (e.add t d linked).due now t := by
    rintro ⟨-, hsome, hle⟩
    simp only [add, instant, update_self] at hsome hle
    obtain ⟨x, rfl⟩ := isSome_iff_exists.mp hsome
    exact absurd hle (not_le.mpr (hahead x rfl))
  have hsame : ∀ u, u ≠ t → ((e.add t d linked).due now u ↔ e.due now u) := by
    intro u hu
    simp [due, add, instant, hu]
  have hdue : (e.add t d linked).Due now (e.timersDue now) := by
    refine ⟨?_, fun u => ?_⟩
    · refine hds.sorted.imp_of_mem (fun ha hb hlt => ?_)
      have ha := hself _ ((hds.mem_iff _).mp ha).1
      have hb := hself _ ((hds.mem_iff _).mp hb).1
      simpa [instant, add, ha, hb] using hlt
    · rw [hds.mem_iff]
      by_cases hu : u = t
      · subst hu
        exact ⟨fun h => absurd h.1 ht, fun h => absurd h.2 hnot⟩
      · rw [hsame u hu]
        cases linked <;> simp [add, hu]
  have htds : t ∉ e.timersDue now := fun hin => ht ((hds.mem_iff t).mp hin).1
  rw [fireTimers_eq hnd' hd' hdue, fireTimers_eq hnd hd hds]
  refine EagerQueue.ext ?_ ?_ rfl
  · cases linked <;> simp [add, htds]
  · funext u
    by_cases hu : u = t
    · subst hu
      simp [add, htds]
    · simp [add, hu]

/-- A cancellation leaves nothing due that was not due before. -/
theorem not_due_cancel (h : ∀ t ∈ e.order, ¬ e.due now t) (u : TaskId) :
    ∀ t ∈ (e.cancel u).order, ¬ (e.cancel u).due now t := by
  intro t ht
  unfold cancel at ht ⊢
  split
  next hu =>
    rw [if_pos hu] at ht
    rintro ⟨hprom, hsome, hle⟩
    have htu : t ≠ u := by
      rintro rfl
      simp [moveToFront] at hprom
    have hto : t ∈ e.order := by simpa [moveToFront, htu] using ht
    exact h t hto ⟨by simpa [moveToFront, htu] using hprom, hsome, hle⟩
  next hu =>
    rw [if_neg hu] at ht
    exact h t ht

theorem cancel_perm (u : TaskId) : (e.cancel u).order.Perm e.order := by
  unfold cancel
  split
  next hu =>
    exact (perm_cons_erase hu.1).symm
  · exact Perm.refl _

theorem cancel_deadline (u : TaskId) : (e.cancel u).deadline = e.deadline := by
  unfold cancel
  split <;> rfl

end EagerQueue

end ServiceLib.Pool
