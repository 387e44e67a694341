import Mathlib.Data.List.Basic
import Mathlib.Logic.Function.Basic

namespace ServiceLib

/-!
# Doubly linked segments

A doubly linked list is given by two pointer fields `next prev : ι → Option ι`.
`Seg next prev p l n` says that the nodes `l` are linked in order, that the first one's
`prev` is `p` and that the last one's `next` is `n`.
-/

open List Function

universe u

variable {ι : Type u} {next prev : ι → Option ι} {p n : Option ι} {l₁ l₂ : List ι} {l : List ι}

/-- The nodes `l` are linked in order, entered from `p` and left towards `n`. -/
def Seg (next prev : ι → Option ι) : Option ι → List ι → Option ι → Prop
  | _, [], _ => True
  | p, t :: l, n => prev t = p ∧ next t = l.head?.or n ∧ Seg next prev (some t) l n

@[simp] theorem seg_nil (next prev : ι → Option ι) (p n : Option ι) :
    Seg next prev p [] n := trivial

theorem seg_cons {t : ι} :
    Seg next prev p (t :: l) n ↔
      prev t = p ∧ next t = l.head?.or n ∧ Seg next prev (some t) l n := Iff.rfl

/-- **Frame rule.**  Writes to nodes outside the segment do not disturb it. -/
theorem Seg.congr {next prev next' prev' : ι → Option ι}
    (hnext : ∀ t ∈ l, next' t = next t) (hprev : ∀ t ∈ l, prev' t = prev t)
    (h : Seg next prev p l n) : Seg next' prev' p l n := by
  induction l generalizing p with
  | nil => trivial
  | cons t l ih =>
    obtain ⟨hp, hn, hl⟩ := h
    refine ⟨(hprev t (by simp)).trans hp, (hnext t (by simp)).trans hn, ?_⟩
    exact ih (fun u hu => hnext u (by simp [hu])) (fun u hu => hprev u (by simp [hu])) hl

/-- A segment of a concatenation is a segment of each part, each part's outer link being
    the neighbouring node of the other. -/
theorem seg_append :
    Seg next prev p (l₁ ++ l₂) n ↔
      Seg next prev p l₁ (l₂.head?.or n) ∧ Seg next prev (l₁.getLast?.or p) l₂ n := by
  induction l₁ generalizing p with
  | nil => simp
  | cons t l ih =>
    have hhead : (l ++ l₂).head?.or n = l.head?.or (l₂.head?.or n) := by
      cases l <;> simp
    have hlast : (t :: l).getLast?.or p = l.getLast?.or (some t) := by
      cases l with
      | nil => simp
      | cons u l => simp [getLast?_cons]
    rw [cons_append, seg_cons, seg_cons, ih, hhead, hlast]
    exact ⟨fun ⟨a, b, c, d⟩ => ⟨⟨a, b, c⟩, d⟩, fun ⟨⟨a, b, c⟩, d⟩ => ⟨a, b, c, d⟩⟩

section Update

variable [DecidableEq ι] {next prev : ι → Option ι} {p n : Option ι} {l : List ι} {t : ι}
  {β : Type*} {f : ι → β} {v : β} {u : ι}

/-- A write to a node outside `l` is not seen by the nodes of `l`. -/
theorem update_of_mem_of_not_mem (ht : t ∉ l)
    (hu : u ∈ l) : update f t v u = f u := by
  have hne : u ≠ t := by
    rintro rfl
    exact ht hu
  exact update_of_ne hne v f

/-- Rewriting the `prev` field of the first node changes where the segment is entered. -/
theorem Seg.set_prev_head (q : Option ι) (ht : t ∉ l) (h : Seg next prev p (t :: l) n) :
    Seg next (update prev t q) q (t :: l) n := by
  obtain ⟨-, hn, hl⟩ := h
  exact ⟨by simp, hn, hl.congr (fun _ _ => rfl) (fun _ hu => update_of_mem_of_not_mem ht hu)⟩

/-- Rewriting the `next` field of the last node changes where the segment leads. -/
theorem Seg.set_next_last (m : Option ι) (ht : t ∉ l) (h : Seg next prev p (l ++ [t]) n) :
    Seg (update next t m) prev p (l ++ [t]) m := by
  obtain ⟨hl, hp, -, -⟩ := seg_append.mp h
  refine seg_append.mpr ⟨?_, hp, by simp, trivial⟩
  exact hl.congr (fun _ hu => update_of_mem_of_not_mem ht hu) (fun _ _ => rfl)

theorem Seg.set_prev_of_not_mem (q : Option ι) (ht : t ∉ l) (h : Seg next prev p l n) :
    Seg next (update prev t q) p l n :=
  h.congr (fun _ _ => rfl) (fun _ hu => update_of_mem_of_not_mem ht hu)

theorem Seg.set_next_of_not_mem (m : Option ι) (ht : t ∉ l) (h : Seg next prev p l n) :
    Seg (update next t m) prev p l n :=
  h.congr (fun _ hu => update_of_mem_of_not_mem ht hu) (fun _ _ => rfl)

/-- A write through a pointer; nothing happens when it is null. -/
def updateAt {β : Type*} (f : ι → β) : Option ι → β → ι → β
  | none, _ => f
  | some t, v => update f t v

theorem updateAt_of_mem_of_not_mem {o : Option ι}
    (ho : ∀ t, o = some t → t ∉ l) (hu : u ∈ l) : updateAt f o v u = f u := by
  cases o with
  | none => rfl
  | some t => exact update_of_mem_of_not_mem (ho t rfl) hu

/-- **Unlinking.**  Joining the two neighbours of `t` removes `t` from the segment. -/
theorem Seg.unlink (h : Seg next prev p (l₁ ++ t :: l₂) n)
    (hnd : (l₁ ++ t :: l₂).Nodup) :
    Seg (updateAt next l₁.getLast? (l₂.head?.or n)) (updateAt prev l₂.head? (l₁.getLast?.or p))
      p (l₁ ++ l₂) n := by
  obtain ⟨h₁, -, -, h₂⟩ := seg_append.mp h
  obtain ⟨nd₁, nd₂, hdisj⟩ := nodup_append.mp hnd
  have hlast : ∀ u, l₁.getLast? = some u → u ∉ l₂ := fun u hu hmem =>
    hdisj u (mem_of_getLast? hu) u (mem_cons_of_mem _ hmem) rfl
  have hhead : ∀ u, l₂.head? = some u → u ∉ l₁ := fun u hu hmem =>
    hdisj u hmem u (mem_cons_of_mem _ (mem_of_mem_head? hu)) rfl
  refine seg_append.mpr ⟨?_, ?_⟩
  · -- The left part: its last node now leads to `l₂`, and no node of it is entered anew.
    refine Seg.congr (fun _ _ => rfl) (fun u hu => updateAt_of_mem_of_not_mem hhead hu) ?_
    rcases eq_nil_or_concat l₁ with rfl | ⟨l, u, rfl⟩
    · trivial
    · have hul : u ∉ l := fun hmem => by
        rw [concat_eq_append, nodup_append] at nd₁
        exact nd₁.2.2 u hmem u (by simp) rfl
      simpa [updateAt] using
        Seg.set_next_last (l₂.head?.or n) hul (by simpa using h₁)
  · -- The right part: only its first node's `prev` is rewritten.
    refine Seg.congr (fun u hu => updateAt_of_mem_of_not_mem hlast hu) (fun _ _ => rfl) ?_
    cases l₂ with
    | nil => trivial
    | cons v l =>
      exact h₂.set_prev_head _ (nodup_cons.mp (nodup_cons.mp nd₂).2).1

/-- **Linking in front.**  Pointing `t` at the first node, and that node back at `t`, puts
    `t` in front of the segment. -/
theorem Seg.link_front (q : Option ι) (ht : t ∉ l) (hnd : l.Nodup) (h : Seg next prev p l n) :
    Seg (update next t (l.head?.or n))
      (updateAt (update prev t q) l.head? (some t)) q (t :: l) n := by
  have hne : ∀ u, l.head? = some u → t ≠ u := fun u hu htu =>
    ht (htu ▸ mem_of_mem_head? hu)
  refine ⟨?_, by simp, ?_⟩
  · cases hl : l.head? with
    | none => simp [updateAt]
    | some u => simp [updateAt, update_of_ne (hne u hl)]
  · cases l with
    | nil => trivial
    | cons u l =>
      have h' := (h.set_next_of_not_mem (((u :: l).head?).or n) ht).set_prev_of_not_mem q ht
      exact h'.set_prev_head _ (nodup_cons.mp hnd).1

end Update

end ServiceLib
