import Mathlib.Data.List.Perm.Basic
import Mathlib.Logic.Function.Basic

namespace ServiceLib

/-!
# Binary heaps with back-indices

A binary heap kept in an array whose members also store their own position, so that a
member can be removed or moved when only the member is known.  The order is a parameter:
the same operations serve a deadline heap and a priority heap.

The operations follow the usual array code literally (`swap` writes two cells and the two
back-indices; the sifts are loops, here with the number of iterations as fuel).  This
module proves what does not depend on the order: every operation permutes the array.
-/

open List Function

universe u

/-- An array heap over `ι` together with the position each member believes it has. -/
structure IndexedHeap (ι : Type u) where
  arr : List ι
  idx : ι → Option Nat

namespace IndexedHeap

variable {ι : Type u}

/-- The empty heap. -/
def empty : IndexedHeap ι := ⟨[], fun _ => none⟩

/-- Whether the member at position `i` comes before the one at position `j`. -/
def less (before : ι → ι → Bool) (h : IndexedHeap ι) (i j : Nat) : Bool :=
  match h.arr[i]?, h.arr[j]? with
  | some a, some b => before a b
  | _, _ => false

variable [DecidableEq ι] {I : IndexedHeap ι → Prop}

/-- Exchange two members and update both back-indices. -/
def swap (h : IndexedHeap ι) (i j : Nat) : IndexedHeap ι :=
  match h.arr[i]?, h.arr[j]? with
  | some a, some b =>
    { arr := (h.arr.set i b).set j a
      idx := update (update h.idx b (some i)) a (some j) }
  | _, _ => h

/-- The loop of `siftUp`; the index strictly decreases, so `fuel = i` iterations suffice. -/
def siftUpLoop (before : ι → ι → Bool) : Nat → IndexedHeap ι → Nat → IndexedHeap ι
  | 0, h, _ => h
  | fuel + 1, h, i =>
    if i = 0 then h
    else if h.less before i ((i - 1) / 2) then
      siftUpLoop before fuel (h.swap i ((i - 1) / 2)) ((i - 1) / 2)
    else h

/-- Move the member at position `i` towards the root until its parent is not after it. -/
def siftUp (before : ι → ι → Bool) (h : IndexedHeap ι) (i : Nat) : IndexedHeap ι :=
  siftUpLoop before i h i

/-- Whether every cell that `siftUp` reads is in the array. -/
def siftUpInBounds (before : ι → ι → Bool) : Nat → IndexedHeap ι → Nat → Bool
  | 0, _, _ => true
  | fuel + 1, h, i =>
    if i = 0 then true
    else if h.arr.length ≤ i then false
    else if h.less before i ((i - 1) / 2) then
      siftUpInBounds before fuel (h.swap i ((i - 1) / 2)) ((i - 1) / 2)
    else true

/-- The child of `i` that comes first; only meaningful when `2 * i + 1` is in range. -/
def firstChild (before : ι → ι → Bool) (h : IndexedHeap ι) (i : Nat) : Nat :=
  if 2 * i + 2 < h.arr.length ∧ h.less before (2 * i + 2) (2 * i + 1) then 2 * i + 2
  else 2 * i + 1

/-- The loop of `siftDown`; the index at least doubles, so `fuel = size` suffices. -/
def siftDownLoop (before : ι → ι → Bool) : Nat → IndexedHeap ι → Nat → IndexedHeap ι
  | 0, h, _ => h
  | fuel + 1, h, i =>
    if h.arr.length ≤ 2 * i + 1 then h
    else if h.less before (h.firstChild before i) i then
      siftDownLoop before fuel (h.swap i (h.firstChild before i)) (h.firstChild before i)
    else h

/-- Move the member at position `i` towards the leaves until no child is before it. -/
def siftDown (before : ι → ι → Bool) (h : IndexedHeap ι) (i : Nat) : IndexedHeap ι :=
  siftDownLoop before h.arr.length h i

/-- Append a member and sift it up. -/
def push (before : ι → ι → Bool) (h : IndexedHeap ι) (a : ι) : IndexedHeap ι :=
  siftUp before
    { arr := h.arr ++ [a], idx := update h.idx a (some h.arr.length) }
    h.arr.length

/-- Drop the last member, forgetting the position of `a`. -/
def popBack (h : IndexedHeap ι) (a : ι) : IndexedHeap ι :=
  { arr := h.arr.dropLast, idx := update h.idx a none }

/-- Remove the member at position `i`: exchange it with the last one, drop the last cell,
    and restore the order around `i`. -/
def removeAt (before : ι → ι → Bool) (h : IndexedHeap ι) (i : Nat) : IndexedHeap ι :=
  match h.arr[i]? with
  | none => h
  | some removed =>
    let last := h.arr.length - 1
    let h' := (if i ≠ last then h.swap i last else h).popBack removed
    if h'.arr.length ≤ i then h'
    else if i ≠ 0 ∧ h'.less before i ((i - 1) / 2) then h'.siftUp before i
    else h'.siftDown before i

/-- Remove a member through its back-index; nothing happens if it is not in the heap. -/
def remove (before : ι → ι → Bool) (h : IndexedHeap ι) (a : ι) : IndexedHeap ι :=
  match h.idx a with
  | none => h
  | some i => h.removeAt before i

/-- Remove the root `top`: drop the last cell, put its member `last` in the root, and sift
    it down. -/
def popTop (before : ι → ι → Bool) (h : IndexedHeap ι) (top last : ι) : IndexedHeap ι :=
  match (h.popBack top).arr with
  | [] => h.popBack top
  | _ :: rest =>
    siftDown before
      { arr := last :: rest, idx := update (h.popBack top).idx last (some 0) } 0

/-! ### Every operation permutes the array -/

omit [DecidableEq ι] in
/-- Exchanging two cells of a list permutes it. -/
theorem set_set_perm {l : List ι} {i j : Nat} {a b : ι} (hi : l[i]? = some a)
    (hj : l[j]? = some b) : Perm ((l.set i b).set j a) l := by
  obtain ⟨hil, hia⟩ := List.getElem?_eq_some_iff.mp hi
  obtain ⟨hjl, hjb⟩ := List.getElem?_eq_some_iff.mp hj
  by_cases hij : i = j
  · subst hij
    obtain rfl : a = b := hia.symm.trans hjb
    rw [set_set, ← hia, set_getElem_self]
  · have hjl' : j < (l.set i b).length := by simpa using hjl
    have hget : (l.set i b)[j] = b := by rw [getElem_set_ne hij]; exact hjb
    -- Both `l.set i b` and its own `j`-decomposition expose a head `b`; cancel it.
    have h₁ : Perm (b :: (l.set i b).eraseIdx j) (b :: l.eraseIdx i) := by
      have hd := getElem_cons_eraseIdx_perm hjl'
      rw [hget] at hd
      exact hd.trans (set_perm_cons_eraseIdx hil b)
    have h₂ : Perm (a :: l.eraseIdx i) l := by
      have hd := getElem_cons_eraseIdx_perm hil
      rwa [hia] at hd
    exact (set_perm_cons_eraseIdx hjl' a).trans (((h₁.cons_inv).cons a).trans h₂)

theorem swap_perm (h : IndexedHeap ι) (i j : Nat) : Perm (h.swap i j).arr h.arr := by
  unfold swap
  split
  next a b hi hj =>
    exact set_set_perm hi hj
  · exact Perm.refl _

/-- Sifting up only exchanges members. -/
theorem siftUpLoop_invariant
    (hswap : ∀ h i j, I h → I (h.swap i j)) (before : ι → ι → Bool) (fuel : Nat)
    {h : IndexedHeap ι} (hI : I h) (i : Nat) : I (siftUpLoop before fuel h i) := by
  induction fuel generalizing h i with
  | zero => exact hI
  | succ fuel ih =>
    unfold siftUpLoop
    split
    · exact hI
    · split
      · exact ih (hswap h _ _ hI) _
      · exact hI

/-- And so does sifting down. -/
theorem siftDownLoop_invariant
    (hswap : ∀ h i j, I h → I (h.swap i j)) (before : ι → ι → Bool) (fuel : Nat)
    {h : IndexedHeap ι} (hI : I h) (i : Nat) : I (siftDownLoop before fuel h i) := by
  induction fuel generalizing h i with
  | zero => exact hI
  | succ fuel ih =>
    unfold siftDownLoop
    split
    · exact hI
    · split
      · exact ih (hswap h _ _ hI) _
      · exact hI

section

variable (before : ι → ι → Bool) (h : IndexedHeap ι)
include before h

theorem siftUp_perm (i : Nat) : Perm (h.siftUp before i).arr h.arr :=
  siftUpLoop_invariant (I := fun h' => Perm h'.arr h.arr)
    (fun h' i j hp => (swap_perm h' i j).trans hp) before i (Perm.refl _) i

theorem siftDown_perm (i : Nat) : Perm (h.siftDown before i).arr h.arr :=
  siftDownLoop_invariant (I := fun h' => Perm h'.arr h.arr)
    (fun h' i j hp => (swap_perm h' i j).trans hp) before _ (Perm.refl _) i

/-- Pushing adds exactly the new member. -/
theorem push_perm (a : ι) : Perm (h.push before a).arr (a :: h.arr) := by
  exact (siftUp_perm before _ _).trans (perm_append_singleton a h.arr)

/-- Removing the root removes exactly that member. -/
theorem popTop_perm {top last : ι} (htop : h.arr.head? = some top)
    (hlast : h.arr.getLast? = some last) : Perm (top :: (h.popTop before top last).arr) h.arr := by
  obtain ⟨rest, harr⟩ := head?_eq_some_iff.mp htop
  rcases eq_nil_or_concat rest with rfl | ⟨mid, last', rfl⟩
  · have hpop : (h.popBack top).arr = [] := by simp [popBack, harr]
    have hres : (h.popTop before top last).arr = [] := by simp only [popTop, hpop]
    rw [hres, harr]
  · -- The array is `top, mid…, last`; its last member moves to the root.
    obtain rfl : last' = last := by simpa [harr, getLast?_cons] using hlast
    have hpop : (h.popBack top).arr = top :: mid := by
      simp [popBack, harr, dropLast_cons_of_ne_nil]
    simp only [popTop, hpop]
    rw [harr, concat_eq_append]
    exact ((siftDown_perm before _ 0).trans (perm_append_singleton last' mid).symm).cons top

end

end IndexedHeap

end ServiceLib
