import Mathlib.Order.Lattice
import ServiceLib.Lib.IndexedHeap

namespace ServiceLib.IndexedHeap

/-!
# Binary heaps with back-indices — order

What a heap is for: its root is the least member.  The order is given by a key into a linear
order (`Keyed`).
-/

universe u v

variable {ι : Type u} {κ : Type v} [LinearOrder κ]

/-- The comparison `before` compares keys. -/
def Keyed (before : ι → ι → Bool) (key : ι → κ) : Prop :=
  ∀ a b, before a b ↔ key a < key b

/-! ### Edges -/

/-- The edge between position `j` and its parent is in order. -/
def Edge (key : ι → κ) (l : List ι) (j : Nat) : Prop :=
  ∀ a b, l[(j - 1) / 2]? = some a → l[j]? = some b → key a ≤ key b

/-- Every edge is in order. -/
def Ordered (key : ι → κ) (l : List ι) : Prop := ∀ j, 0 < j → Edge key l j

/-- Every edge away from position `i` is in order, and what stands above `i` is not after
    what stands below it. -/
structure Around (key : ι → κ) (l : List ι) (i : Nat) : Prop where
  away : ∀ j, 0 < j → j ≠ i → (j - 1) / 2 ≠ i → Edge key l j
  across : ∀ j a b, 0 < i → 0 < j → (j - 1) / 2 = i → l[(i - 1) / 2]? = some a →
    l[j]? = some b → key a ≤ key b

/-- The only edge that may be out of order is the one above `i`. -/
structure AroundUp (key : ι → κ) (l : List ι) (i : Nat) : Prop extends Around key l i where
  below : ∀ j, 0 < j → (j - 1) / 2 = i → Edge key l j

/-- The only edges that may be out of order are those below `i`. -/
structure AroundDown (key : ι → κ) (l : List ι) (i : Nat) : Prop extends Around key l i where
  above : 0 < i → Edge key l i

variable {j i : Nat} {b a : ι} {l : List ι} {h : IndexedHeap ι} {key : ι → κ}

theorem exists_parent (h : l[j]? = some b) : ∃ a, l[(j - 1) / 2]? = some a := by
  obtain ⟨hj, -⟩ := List.getElem?_eq_some_iff.mp h
  exact ⟨_, List.getElem?_eq_getElem (by omega)⟩

/-- **Root minimality.**  No member of an ordered heap is below the root. -/
theorem Ordered.root_le (h : Ordered key l) {r : ι} (hr : l.head? = some r)
    (ha : a ∈ l) : key r ≤ key a := by
  obtain ⟨j, hj⟩ := List.mem_iff_getElem?.mp ha
  clear ha
  induction j using Nat.strongRecOn generalizing a with
  | ind j ih =>
    rcases Nat.eq_zero_or_pos j with rfl | hpos
    · rw [← List.head?_eq_getElem?, hr] at hj
      obtain rfl := Option.some.inj hj
      exact le_refl _
    · have hlt : (j - 1) / 2 < j := by omega
      obtain ⟨p, hp⟩ := exists_parent hj
      exact le_trans (ih _ hlt hp) (h j hpos _ _ hp hj)

/-! ### Exchanging two members -/

/-- The array after an exchange, cell by cell. -/
theorem getElem?_set_set (hi : l[i]? = some a) (hj : l[j]? = some b) (k : Nat) :
    ((l.set i b).set j a)[k]? = if k = j then some a else if k = i then some b else l[k]? := by
  obtain ⟨hil, -⟩ := List.getElem?_eq_some_iff.mp hi
  obtain ⟨hjl, -⟩ := List.getElem?_eq_some_iff.mp hj
  by_cases hkj : k = j
  · subst hkj
    rw [if_pos rfl, List.getElem?_set_self (by simpa using hjl)]
  · rw [if_neg hkj, List.getElem?_set_ne (Ne.symm hkj)]
    by_cases hki : k = i
    · subst hki
      rw [if_pos rfl, List.getElem?_set_self hil]
    · rw [if_neg hki, List.getElem?_set_ne (Ne.symm hki)]

/-- Exchanging a member with its parent, which is after it, moves the bad edge up. -/
theorem AroundUp.swap_parent {p : ι} (h : AroundUp key l i) (hpos : 0 < i)
    (ha : l[i]? = some a) (hp : l[(i - 1) / 2]? = some p) (hlt : key a < key p) :
    AroundUp key ((l.set i p).set ((i - 1) / 2) a) ((i - 1) / 2) := by
  have hget := getElem?_set_set ha hp
  have hne : i ≠ (i - 1) / 2 := by omega
  refine ⟨⟨?_, ?_⟩, ?_⟩
  · intro j hj hjp hjq x y hx hy
    rw [hget] at hx hy
    rw [if_neg hjq] at hx
    rw [if_neg hjp] at hy
    split at hx
    · -- A child of `i`: the old parent of `i` is not after it.
      rename_i hji
      cases hx
      rw [if_neg (by omega)] at hy
      exact h.across j p y hpos hj hji hp hy
    next hji =>
      rw [if_neg (by rintro rfl; exact hjq rfl)] at hy
      exact h.away j hj (by rintro rfl; exact hjq rfl) hji x y hx hy
  · intro j x y hppos hj hjp hx hy
    rw [hget] at hx hy
    rw [if_neg (by omega), if_neg (by omega)] at hx
    have hxp : key x ≤ key p :=
      h.away _ hppos (Ne.symm hne) (by omega) x p hx hp
    rw [if_neg (by omega)] at hy
    split at hy
    · cases hy
      exact hxp
    next hji =>
      exact le_trans hxp (h.away j hj hji (by omega) p y (by rw [hjp]; exact hp) hy)
  · intro j hj hjp x y hx hy
    rw [hget] at hx hy
    rw [if_pos hjp] at hx
    cases hx
    rw [if_neg (by omega)] at hy
    split at hy
    · cases hy
      exact hlt.le
    next hji =>
      exact le_trans hlt.le (h.away j hj hji (by omega) p y (by rw [hjp]; exact hp) hy)

/-- Exchanging a member with its first child, which is before it, moves the bad edges down. -/
theorem AroundDown.swap_child {c : Nat} (h : AroundDown key l i) (hc : 0 < c)
    (hci : (c - 1) / 2 = i) (ha : l[i]? = some a) (hb : l[c]? = some b) (hlt : key b < key a)
    (hfirst : ∀ j x, 0 < j → (j - 1) / 2 = i → l[j]? = some x → key b ≤ key x) :
    AroundDown key ((l.set i b).set c a) c := by
  have hget := getElem?_set_set ha hb
  refine ⟨⟨?_, ?_⟩, ?_⟩
  · intro j hj hjc hjq x y hx hy
    rw [hget] at hx hy
    rw [if_neg hjq] at hx
    rw [if_neg hjc] at hy
    split at hx
    · -- The other child of `i`.
      rename_i hji
      cases hx
      rw [if_neg (by omega)] at hy
      exact hfirst j y hj hji hy
    next hji =>
      split at hy
      · -- The edge above `i`: the child was not before the parent of `i`.
        rename_i hij
        subst hij
        cases hy
        exact h.across c x b hj hc hci hx hb
      next hij =>
        exact h.away j hj hij hji x y hx hy
  · intro j x y _ hj hjc hx hy
    rw [hget] at hx hy
    rw [if_neg (by omega), if_pos hci] at hx
    cases hx
    rw [if_neg (by omega), if_neg (by omega)] at hy
    exact h.away j hj (by omega) (by omega) b y (by rw [hjc]; exact hb) hy
  · intro _ x y hx hy
    rw [hget] at hx hy
    rw [if_neg (by omega), if_pos hci] at hx
    rw [if_pos rfl] at hy
    cases hx
    cases hy
    exact hlt.le

/-! ### The sift loops -/

/-- Without a bad edge above, the array is ordered. -/
theorem AroundUp.ordered (h : AroundUp key l i) (hi : 0 < i → Edge key l i) : Ordered key l := by
  intro j hj
  by_cases hji : j = i
  · subst hji
    exact hi hj
  · by_cases hjp : (j - 1) / 2 = i
    · exact h.below j hj hjp
    · exact h.away j hj hji hjp

/-- Without a bad edge below, the array is ordered. -/
theorem AroundDown.ordered (h : AroundDown key l i)
    (hi : ∀ j, 0 < j → (j - 1) / 2 = i → Edge key l j) : Ordered key l :=
  AroundUp.ordered ⟨h.toAround, hi⟩ h.above

/-- Nothing is below a leaf. -/
theorem AroundDown.ordered_of_leaf (h : AroundDown key l i)
    (hleaf : l.length ≤ 2 * i + 1) : Ordered key l := by
  refine h.ordered (fun j hj hji x y _ hy => ?_)
  obtain ⟨hjl, -⟩ := List.getElem?_eq_some_iff.mp hy
  omega

section Sift

variable [DecidableEq ι] {before : ι → ι → Bool}

omit [DecidableEq ι] in
theorem less_eq_true (hk : Keyed before key) (ha : h.arr[i]? = some a) (hb : h.arr[j]? = some b) :
    h.less before i j ↔ key a < key b := by
  simp only [less, ha, hb]
  exact hk a b

theorem swap_arr (ha : h.arr[i]? = some a) (hb : h.arr[j]? = some b) :
    (h.swap i j).arr = (h.arr.set i b).set j a := by
  simp only [swap, ha, hb]

/-- **Sifting up** repairs the edge above `i`. -/
theorem AroundUp.siftUpLoop (hk : Keyed before key) (fuel : Nat) (hup : AroundUp key h.arr i)
    (hfuel : i ≤ fuel) (hi : i < h.arr.length) : Ordered key (siftUpLoop before fuel h i).arr := by
  induction fuel generalizing h i with
  | zero => exact hup.ordered (fun hpos => absurd hfuel (by omega))
  | succ fuel ih =>
    unfold IndexedHeap.siftUpLoop
    by_cases h0 : i = 0
    · rw [if_pos h0]
      exact hup.ordered (fun hpos => absurd h0 (by omega))
    · rw [if_neg h0]
      have ha := List.getElem?_eq_getElem hi
      obtain ⟨p, hp⟩ := exists_parent ha
      split
      next hless =>
        rw [less_eq_true hk ha hp] at hless
        have hstep := hup.swap_parent (by omega) ha hp hless
        rw [← swap_arr ha hp] at hstep
        refine ih hstep (by omega) ?_
        rw [(swap_perm h _ _).length_eq]
        omega
      next hless =>
        refine hup.ordered (fun _ x y hx hy => ?_)
        rw [less_eq_true hk hy hx] at hless
        exact not_lt.mp hless

omit [DecidableEq ι] in
/-- The first child is a child, and no child is before it. -/
theorem firstChild_spec
    (hk : Keyed before key) (h : IndexedHeap ι) (hi : 2 * i + 1 < h.arr.length) :
    ∃ b, h.arr[h.firstChild before i]? = some b ∧ 0 < h.firstChild before i ∧
      (h.firstChild before i - 1) / 2 = i ∧
      ∀ j x, 0 < j → (j - 1) / 2 = i → h.arr[j]? = some x → key b ≤ key x := by
  have hl := List.getElem?_eq_getElem hi
  have hchild : ∀ j, 0 < j → (j - 1) / 2 = i → j = 2 * i + 1 ∨ j = 2 * i + 2 := by
    intro j hj hji
    omega
  unfold firstChild
  split
  next hright =>
    have hr := List.getElem?_eq_getElem hright.1
    have hlt := (less_eq_true hk hr hl).mp hright.2
    refine ⟨_, hr, by omega, by omega, ?_⟩
    intro j x hj hji hx
    rcases hchild j hj hji with rfl | rfl
    · rw [hl] at hx
      cases hx
      exact hlt.le
    · rw [hr] at hx
      cases hx
      exact le_refl _
  next hright =>
    refine ⟨_, hl, by omega, by omega, ?_⟩
    intro j x hj hji hx
    rcases hchild j hj hji with rfl | rfl
    · rw [hl] at hx
      cases hx
      exact le_refl _
    · obtain ⟨hlen, -⟩ := List.getElem?_eq_some_iff.mp hx
      refine not_lt.mp (fun hlt => hright ⟨hlen, ?_⟩)
      exact (less_eq_true hk hx hl).mpr hlt

/-- **Sifting down** repairs the edges below `i`. -/
theorem AroundDown.siftDownLoop (hk : Keyed before key) (fuel : Nat)
    (hdown : AroundDown key h.arr i) (hfuel : h.arr.length ≤ i + fuel) :
    Ordered key (siftDownLoop before fuel h i).arr := by
  induction fuel generalizing h i with
  | zero => exact hdown.ordered_of_leaf (by omega)
  | succ fuel ih =>
    unfold IndexedHeap.siftDownLoop
    split
    · exact hdown.ordered_of_leaf ‹_›
    next hlen =>
      obtain ⟨b, hb, hc, hci, hfirst⟩ := firstChild_spec hk h (Nat.lt_of_not_le hlen)
      have ha : h.arr[i]? = some _ := List.getElem?_eq_getElem (by omega)
      split
      next hless =>
        rw [less_eq_true hk hb ha] at hless
        have hstep := hdown.swap_child hc hci ha hb hless hfirst
        rw [← swap_arr ha hb] at hstep
        have hlen' := (swap_perm h i (h.firstChild before i)).length_eq
        exact ih hstep (by omega)
      next hless =>
        rw [less_eq_true hk hb ha] at hless
        refine hdown.ordered (fun j hj hji x y hx hy => ?_)
        rw [hji, ha] at hx
        cases hx
        exact le_trans (not_lt.mp hless) (hfirst j y hj hji hy)

end Sift

end ServiceLib.IndexedHeap
