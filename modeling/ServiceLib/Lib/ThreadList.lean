import Mathlib.Data.List.Perm.Basic

namespace ServiceLib

/-!
# Lists of threads

The threads of a concurrent component are kept in a list, and a step of thread `i` replaces
the `i`-th entry.  The lemmas here say what such a step does to anything summed or collected
over all threads: only the contribution of thread `i` changes.
-/

open List Option

universe u v

variable {α : Type u} {β : Type v} {l : List α} {i : Nat} {a : α}

/-- A thread that is there is in range. -/
theorem lt_of_getElem? (h : l[i]? = some a) : i < l.length := (List.getElem?_eq_some_iff.mp h).1

/-- Up to order, replacing an entry replaces it in front of the same rest. -/
theorem exists_perm_set (h : l[i]? = some a) :
    ∃ r : List α, l.Perm (a :: r) ∧ ∀ b, (l.set i b).Perm (b :: r) := by
  obtain ⟨hi, rfl⟩ := List.getElem?_eq_some_iff.mp h
  exact ⟨l.eraseIdx i, (getElem_cons_eraseIdx_perm hi).symm, fun b => set_perm_cons_eraseIdx hi b⟩

/-- A count over all threads changes by the moving thread's contribution. -/
theorem countP_set (p : α → Bool) (h : l[i]? = some a) (b : α) :
    (l.set i b).countP p + (if p a then 1 else 0) = l.countP p + (if p b then 1 else 0) := by
  obtain ⟨r, hl, hset⟩ := exists_perm_set h
  rw [(hset b).countP_eq, hl.countP_eq, countP_cons, countP_cons]
  omega

variable {p : α → Bool} {b x : α} {j : Nat} {P : Nat → α → Prop} {f : α → β}

/-- A thread that counts neither more nor less than before. -/
theorem countP_set_same (h : l[i]? = some a) (hab : p b = p a) :
    (l.set i b).countP p = l.countP p := by
  have hcount := countP_set p h b
  rw [hab] at hcount
  omega

/-- A thread that begins to count. -/
theorem countP_set_enter (h : l[i]? = some a) (ha : p a = false) (hb : p b) :
    (l.set i b).countP p = l.countP p + 1 := by
  have hcount := countP_set p h b
  rw [ha, hb, if_pos rfl, if_neg Bool.false_ne_true] at hcount
  exact hcount

/-- A thread that no longer counts. -/
theorem countP_set_leave (h : l[i]? = some a) (ha : p a) (hb : p b = false) :
    (l.set i b).countP p + 1 = l.countP p := by
  have hcount := countP_set p h b
  rw [ha, hb, if_pos rfl, if_neg Bool.false_ne_true] at hcount
  exact hcount

/-- Where at most one thread counts, two that do are the same. -/
theorem eq_of_countP_le_one (hle : l.countP p ≤ 1) (h : l[i]? = some a) (ha : p a)
    (hj : l[j]? = some b) (hb : p b) : j = i := by
  by_contra hne
  obtain ⟨hi, rfl⟩ := List.getElem?_eq_some_iff.mp h
  have hcount := (getElem_cons_eraseIdx_perm hi).countP_eq p
  rw [countP_cons_of_pos ha] at hcount
  have hpos : 0 < (l.eraseIdx i).countP p :=
    countP_pos_iff.mpr ⟨b, mem_eraseIdx_iff_getElem?.mpr ⟨j, hne, hj⟩, hb⟩
  omega

/-- What all threads hold changes by what the moving thread holds. -/
theorem filterMap_set_perm (f : α → Option β) (h : l[i]? = some a) (b : α) :
    ((f a).toList ++ (l.set i b).filterMap f).Perm ((f b).toList ++ l.filterMap f) := by
  obtain ⟨r, hl, hset⟩ := exists_perm_set h
  have hcons : ∀ x, (x :: r).filterMap f = (f x).toList ++ r.filterMap f := by
    intro x
    cases hx : f x <;> simp [hx]
  have hb := (hset b).filterMap f
  have ha := hl.filterMap f
  rw [hcons] at ha hb
  have hswap : ((f a).toList ++ ((f b).toList ++ filterMap f r)).Perm
      ((f b).toList ++ ((f a).toList ++ filterMap f r)) := by
    rw [← append_assoc, ← append_assoc]
    exact perm_append_comm.append_right _
  exact (hb.append_left _).trans (hswap.trans (ha.symm.append_left _))

/-- How often all threads hold `y`, before and after a step. -/
theorem count_filterMap_set [BEq β] [LawfulBEq β] (f : α → Option β) (h : l[i]? = some a)
    (b : α) (y : β) :
    (f a).toList.count y + ((l.set i b).filterMap f).count y =
      (f b).toList.count y + (l.filterMap f).count y := by
  have hcount := (filterMap_set_perm f h b).count_eq y
  rw [count_append, count_append] at hcount
  exact hcount

/-- A new thread brings in what it holds. -/
theorem count_filterMap_append [BEq β] (f : α → Option β) (l : List α) (b : α) (y : β) :
    ((l ++ [b]).filterMap f).count y = (l.filterMap f).count y + (f b).toList.count y := by
  rw [filterMap_append, count_append]
  cases hb : f b <;> simp [hb]

/-- If each thread that counts for `f` counts for `g` with the same value, so do all. -/
theorem count_filterMap_le [BEq β] [LawfulBEq β] {f g : α → Option β}
    (h : ∀ x y, f x = some y → g x = some y) (l : List α) (y : β) :
    (l.filterMap f).count y ≤ (l.filterMap g).count y := by
  induction l with
  | nil => exact Nat.le_refl _
  | cons x xs ih =>
    cases hf : f x with
    | none =>
      rw [filterMap_cons_none hf]
      cases hg : g x with
      | none => rw [filterMap_cons_none hg]; exact ih
      | some z =>
        rw [filterMap_cons_some hg]
        exact Nat.le_trans ih count_le_count_cons
    | some z =>
      rw [filterMap_cons_some hf, filterMap_cons_some (h x z hf), count_cons, count_cons]
      omega

/-- A property of all threads survives a step whose new entry has it. -/
theorem forall_mem_set {p : α → Prop} (hl : ∀ x ∈ l, p x) (hb : p b) : ∀ x ∈ l.set i b, p x := by
  intro x hx
  rcases mem_or_eq_of_mem_set hx with hmem | rfl
  · exact hl x hmem
  · exact hb

/-- It survives a new thread that has it. -/
theorem forall_mem_concat {p : α → Prop} (hl : ∀ x ∈ l, p x) (hb : p b) : ∀ x ∈ l ++ [b], p x := by
  intro x hx
  rcases mem_append.mp hx with hmem | hmem
  · exact hl x hmem
  · rwa [mem_singleton.mp hmem]

/-- A thread that is written back as it was. -/
theorem set_eq_self (h : l[i]? = some a) : l.set i a = l := by
  obtain ⟨hi, rfl⟩ := List.getElem?_eq_some_iff.mp h
  exact set_getElem_self hi

/-- Nothing is appended. -/
theorem exists_append_of_eq {l' : List α} (h : l' = l) : ∃ new, l' = l ++ new :=
  ⟨[], by rw [h, append_nil]⟩

/-- Looking up the thread that took the step. -/
theorem getElem?_set_some (h : l[i]? = some a) (b : α) : (l.set i b)[i]? = some b :=
  getElem?_set_self (List.getElem?_eq_some_iff.mp h).1

/-- What `f` says about a thread, after a step of another one or one that `f` does not see. -/
theorem map_getElem?_set (h : l[i]? = some a) (hf : j ≠ i ∨ f b = f a) :
    (l.set i b)[j]?.map f = l[j]?.map f := by
  by_cases hij : j = i
  · subst hij
    rw [getElem?_set_some h, h, map_some, map_some, hf.resolve_left (absurd rfl)]
  · rw [getElem?_set_ne (Ne.symm hij)]

/-- The same for all threads. -/
theorem map_set_same (h : l[i]? = some a) (hab : f b = f a) :
    (l.set i b).map f = l.map f := by
  apply ext_getElem?
  intro j
  rw [getElem?_map, getElem?_map]
  exact map_getElem?_set h (.inr hab)

/-- What `f` says about a thread, after a modification that `f` does not see. -/
theorem map_getElem?_modify {g : α → α} (hf : ∀ a, f (g a) = f a) (i j : Nat) :
    (l.modify i g)[j]?.map f = l[j]?.map f := by
  rw [getElem?_modify]
  split
  · cases l[j]? with
    | none => rfl
    | some a => exact congrArg some (hf a)
  · cases l[j]? <;> rfl

/-- A step of one thread does not make another one go away. -/
theorem exists_getElem?_set (i : Nat) (b : α) (h : l[j]? = some x) :
    ∃ y, (l.set i b)[j]? = some y := by
  refine ⟨_, getElem?_eq_getElem ?_⟩
  rw [length_set]
  exact (List.getElem?_eq_some_iff.mp h).1

/-- A thread with a property is still there, if the moving one keeps the property. -/
theorem exists_getElem?_set_of {P : α → Prop} (h : l[i]? = some a) (hab : P a → P b)
    (hj : l[j]? = some x) (hx : P x) : ∃ y, (l.set i b)[j]? = some y ∧ P y := by
  by_cases hij : i = j
  · subst hij
    cases h.symm.trans hj
    exact ⟨b, getElem?_set_some h b, hab hx⟩
  · exact ⟨x, (getElem?_set_ne hij).trans hj, hx⟩

/-- And so is some thread with it. -/
theorem exists_mem_set {P : α → Prop} (h : l[i]? = some a) (hab : P a → P b) (hl : ∃ x ∈ l, P x) :
    ∃ x ∈ l.set i b, P x := by
  obtain ⟨x, hx, hp⟩ := hl
  obtain ⟨j, hj⟩ := getElem?_of_mem hx
  obtain ⟨y, hy, hp⟩ := exists_getElem?_set_of h hab hj hp
  exact ⟨y, mem_of_getElem? hy, hp⟩

/-- Another thread than the moving one is still there. -/
theorem mem_set_of_ne (h : l[i]? = some a) (hx : x ∈ l) (hne : x ≠ a) : x ∈ l.set i b := by
  have hkeep : x = a → x = b := fun ha => absurd ha hne
  obtain ⟨_, hy, rfl⟩ := exists_mem_set h hkeep ⟨x, hx, rfl⟩
  exact hy

/-- Looking up a thread after a step of thread `i`. -/
theorem getElem?_set_cases (h : (l.set i b)[j]? = some x) :
    (j = i ∧ x = b) ∨ (j ≠ i ∧ l[j]? = some x) := by
  by_cases hij : i = j
  · subst hij
    left
    rw [getElem?_set_self'] at h
    obtain ⟨y, -, rfl⟩ := map_eq_some_iff.mp h
    exact ⟨rfl, rfl⟩
  · right
    rw [getElem?_set_ne hij] at h
    exact ⟨Ne.symm hij, h⟩

/-- `forall_mem_set`, where the property depends on which thread it is. -/
theorem forall_getElem?_set (hl : ∀ j x, l[j]? = some x → P j x) (hb : P i b) :
    ∀ j x, (l.set i b)[j]? = some x → P j x := by
  intro j x hx
  rcases getElem?_set_cases hx with ⟨rfl, rfl⟩ | ⟨-, hx⟩
  · exact hb
  · exact hl j x hx

/-- Looking up an entry after entry `i` was modified. -/
theorem getElem?_modify_cases {f : α → α} (h : (l.modify i f)[j]? = some x) :
    (j = i ∧ ∃ a, l[i]? = some a ∧ f a = x) ∨ (j ≠ i ∧ l[j]? = some x) := by
  by_cases hij : i = j
  · subst hij
    left
    rw [getElem?_modify_eq] at h
    exact ⟨rfl, map_eq_some_iff.mp h⟩
  · right
    rw [getElem?_modify_ne _ _ hij] at h
    exact ⟨Ne.symm hij, h⟩

/-- Looking up a thread after a new one was appended. -/
theorem getElem?_append_singleton_cases (h : (l ++ [b])[j]? = some x) :
    l[j]? = some x ∨ (j = l.length ∧ x = b) := by
  rcases Nat.lt_or_ge j l.length with hlt | hge
  · left
    rwa [getElem?_append_left hlt] at h
  · right
    rw [getElem?_append_right hge] at h
    obtain ⟨hj, hx⟩ := List.getElem?_eq_some_iff.mp h
    have hlen : j - l.length < 1 := hj
    exact ⟨by omega, by simpa using hx.symm⟩

/-- The places behind a new thread are empty as before. -/
theorem getElem?_concat_of_ne (hne : i ≠ l.length) (b : α) : (l ++ [b])[i]? = l[i]? := by
  rcases Nat.lt_or_gt_of_ne hne with hlt | hgt
  · exact getElem?_append_left hlt
  · rw [getElem?_eq_none (Nat.le_of_lt hgt), getElem?_eq_none]
    rw [length_append]
    exact hgt

/-- A new thread leaves the others in their places. -/
theorem getElem?_concat (h : l[i]? = some a) (b : α) : (l ++ [b])[i]? = some a := by
  rw [getElem?_append_left (lt_of_getElem? h), h]

/-- `forall_mem_concat`, where the property depends on which thread it is. -/
theorem forall_getElem?_concat (hl : ∀ j x, l[j]? = some x → P j x)
    (hb : P l.length b) : ∀ j x, (l ++ [b])[j]? = some x → P j x := by
  intro j x hx
  rcases getElem?_append_singleton_cases hx with hx | ⟨rfl, rfl⟩
  · exact hl j x hx
  · exact hb

section

variable {l' : List α} {P : α → Prop} (h : l' = l ∨ ∃ b, l' = l ++ [b] ∧ P b)
include h

/-- Where at most a thread with `P` was appended, the others are still there. -/
theorem getElem?_grown (hj : l[j]? = some x) : l'[j]? = some x := by
  rcases h with rfl | ⟨b, rfl, -⟩
  · exact hj
  · exact getElem?_concat hj b

/-- And every thread was there or has `P`. -/
theorem getElem?_of_grown (hj : l'[j]? = some x) : l[j]? = some x ∨ P x := by
  rcases h with rfl | ⟨b, rfl, hb⟩
  · exact .inl hj
  · rcases getElem?_append_singleton_cases hj with hj | ⟨-, rfl⟩
    · exact .inl hj
    · exact .inr hb

end

/-- A new thread that does not have a property is like none. -/
theorem any_append_singleton (hb : p b = false) (i : Nat) : (l ++ [b])[i]?.any p = l[i]?.any p := by
  by_cases hi : i = l.length
  · subst hi
    rw [getElem?_concat_length, getElem?_eq_none (Nat.le_refl _)]
    exact hb
  · rw [getElem?_concat_of_ne hi]

end ServiceLib
