import Mathlib.Data.List.Nodup
import ServiceLib.Lib.HeapOrder

namespace ServiceLib.IndexedHeap

/-!
# Binary heaps with back-indices — validity

An indexed heap is valid when its array is ordered and every member knows its own position.
-/

open List Option Function

universe u v

variable {ι : Type u} {κ : Type v} [LinearOrder κ] [DecidableEq ι]
  {before : ι → ι → Bool} {key : ι → κ}

/-! ### Back-indices -/

/-- Every member knows its position, and nothing else claims one but the strays. -/
structure IndexedBut (stray : ι → Prop) (h : IndexedHeap ι) : Prop where
  knows : ∀ {a i}, h.arr[i]? = some a → h.idx a = some i
  claims : ∀ {a i}, h.idx a = some i → h.arr[i]? = some a ∨ stray a

/-- Every member knows its position, and nothing else claims one. -/
abbrev Indexed (h : IndexedHeap ι) : Prop := h.IndexedBut fun _ => False

variable {a top last : ι} {i : Nat} {h : IndexedHeap ι} {key' : ι → κ} {stray stray' : ι → Prop}

omit [DecidableEq ι] in
theorem Indexed.get (hx : h.Indexed) (hi : h.idx a = some i) : h.arr[i]? = some a :=
  (hx.claims hi).resolve_right id

omit [DecidableEq ι] in
theorem IndexedBut.inj (hx : h.IndexedBut stray) {j : Nat} (hi : h.arr[i]? = some a)
    (hj : h.arr[j]? = some a) : i = j :=
  some.inj ((hx.knows hi).symm.trans (hx.knows hj))

/-- A swap moves the back-indices along. -/
theorem IndexedBut.swap (hx : h.IndexedBut stray) (i j : Nat) : (h.swap i j).IndexedBut stray := by
  cases ha : h.arr[i]? with
  | none => simpa only [IndexedHeap.swap, ha] using hx
  | some a =>
    cases hb : h.arr[j]? with
    | none => simpa only [IndexedHeap.swap, ha, hb] using hx
    | some b =>
      have hia : ∀ k, h.arr[k]? = some a → k = i := fun k hk => hx.inj hk ha
      have hjb : ∀ k, h.arr[k]? = some b → k = j := fun k hk => hx.inj hk hb
      have hidx : (h.swap i j).idx = update (update h.idx b (some i)) a (some j) := by
        simp only [IndexedHeap.swap, ha, hb]
      constructor <;> intro c k hk
      · rw [swap_arr ha hb, getElem?_set_set ha hb] at hk
        have hc := hx.knows (a := c) (i := k)
        rw [hidx]
        grind [update_self, update_of_ne]
      · rw [hidx] at hk
        have hc := hx.claims (a := c) (i := k)
        rw [swap_arr ha hb, getElem?_set_set ha hb]
        grind [update_self, update_of_ne]

theorem IndexedBut.siftUp (hx : h.IndexedBut stray) (before : ι → ι → Bool) (i : Nat) :
    (h.siftUp before i).IndexedBut stray :=
  siftUpLoop_invariant (I := IndexedBut stray) (fun _ i j hx => hx.swap i j) before i hx i

theorem IndexedBut.siftDown (hx : h.IndexedBut stray) (before : ι → ι → Bool) (i : Nat) :
    (h.siftDown before i).IndexedBut stray :=
  siftDownLoop_invariant (I := IndexedBut stray) (fun _ i j hx => hx.swap i j) before _ hx i

/-- What is not a member keeps the position that it claims. -/
theorem siftUp_idx (ha : a ∉ h.arr) (before : ι → ι → Bool) (i : Nat) :
    (h.siftUp before i).idx a = h.idx a := by
  refine (siftUpLoop_invariant (I := fun h' => h'.arr.Perm h.arr ∧ h'.idx a = h.idx a)
    (fun h' i j hI => ⟨(swap_perm h' i j).trans hI.1, ?_⟩) before i ⟨Perm.refl _, rfl⟩ i).2
  have hne : ∀ {k : Nat} {b : ι}, h'.arr[k]? = some b → a ≠ b := by
    rintro k b hb rfl
    exact ha (hI.1.mem_iff.mp (mem_of_getElem? hb))
  unfold IndexedHeap.swap
  split
  next hi hj => exact (update_of_ne (hne hi) _ _).trans ((update_of_ne (hne hj) _ _).trans hI.2)
  next => exact hI.2

omit [DecidableEq ι] in
/-- Back-indices rule out duplicates. -/
theorem IndexedBut.nodup (hx : h.IndexedBut stray) : h.arr.Nodup := by
  rw [nodup_iff_getElem?_ne_getElem?]
  intro i j hij hj heq
  have hb := getElem?_eq_getElem hj
  exact absurd (hx.inj (heq.trans hb) hb) (by omega)

omit [DecidableEq ι] in
theorem Indexed.idx_eq_none (hx : h.Indexed) : h.idx a = none ↔ a ∉ h.arr := by
  rw [mem_iff_getElem?, eq_none_iff_forall_ne_some]
  exact ⟨fun hn ⟨i, hi⟩ => hn i (hx.knows hi), fun hn i hi => hn ⟨i, hx.get hi⟩⟩

/-- What is written about a stray that is no member does not matter. -/
theorem IndexedBut.write_stray (hx : h.IndexedBut stray) (ha : stray a) (hout : a ∉ h.arr)
    (v : Option Nat) : IndexedBut stray ⟨h.arr, update h.idx a v⟩ := by
  constructor <;> intro c k hk
  · have hca : c ≠ a := by
      rintro rfl
      exact hout (mem_of_getElem? hk)
    exact (update_of_ne hca _ _).trans (hx.knows hk)
  · by_cases hca : c = a
    · exact .inr (hca ▸ ha)
    · exact hx.claims ((update_of_ne hca v h.idx).symm.trans hk)

/-! ### Taking a member out -/

/-- `removeAt` before it sifts: the last member has taken the place of the removed one. -/
def cut (h : IndexedHeap ι) (i : Nat) (removed : ι) : IndexedHeap ι :=
  (if i ≠ h.arr.length - 1 then h.swap i (h.arr.length - 1) else h).popBack removed

theorem removeAt_eq (ha : h.arr[i]? = some a) :
    h.removeAt before i =
      if (h.cut i a).arr.length ≤ i then h.cut i a
      else if i ≠ 0 ∧ (h.cut i a).less before i ((i - 1) / 2) then (h.cut i a).siftUp before i
      else (h.cut i a).siftDown before i := by
  simp only [removeAt, ha]
  rfl

/-- The heap that `cut` shortens: the removed member is its last one. -/
theorem cut_spec (ha : h.arr[i]? = some a) :
    ∃ h' : IndexedHeap ι, h.cut i a = h'.popBack a ∧ h'.arr.Perm h.arr ∧
      h'.arr.getLast? = some a ∧ (∀ p, h.IndexedBut p → h'.IndexedBut p) ∧
      ∀ k x, k ≠ i → k < h.arr.length - 1 → h'.arr[k]? = some x → h.arr[k]? = some x := by
  obtain ⟨hil, -⟩ := List.getElem?_eq_some_iff.mp ha
  unfold cut
  split
  next hlast =>
    have hb := getElem?_eq_getElem (show h.arr.length - 1 < h.arr.length by omega)
    refine ⟨_, rfl, swap_perm h _ _, ?_, fun _ hx => hx.swap _ _, ?_⟩
    · rw [getLast?_eq_getElem?, (swap_perm h _ _).length_eq, swap_arr ha hb,
        getElem?_set_set ha hb, if_pos rfl]
    · intro k x hki hkl hk
      rwa [swap_arr ha hb, getElem?_set_set ha hb, if_neg (by omega), if_neg hki] at hk
  next hlast =>
    refine ⟨h, rfl, Perm.refl _, ?_, fun _ => id, fun _ _ _ _ hk => hk⟩
    rw [getLast?_eq_getElem?, ← not_not.mp hlast]
    exact ha

theorem cut_perm (ha : h.arr[i]? = some a) : (a :: (h.cut i a).arr).Perm h.arr := by
  obtain ⟨h', hcut, hperm, hlast, -, -⟩ := cut_spec ha
  obtain ⟨l, hl⟩ := getLast?_eq_some_iff.mp hlast
  have harr : (h'.popBack a).arr = l := by simp [popBack, hl]
  rw [hcut, harr]
  exact (perm_append_singleton a l).symm.trans (hl ▸ hperm)

/-- The member that was removed claims no position. -/
theorem IndexedBut.cut (hx : h.IndexedBut stray) (ha : h.arr[i]? = some a) :
    (h.cut i a).IndexedBut stray := by
  obtain ⟨h', hcut, -, hlast, hx', -⟩ := cut_spec ha
  have hx' := hx' stray hx
  rw [getLast?_eq_getElem?] at hlast
  have hend : ∀ {k}, h'.arr[k]? = some a → k = h'.arr.length - 1 := fun hk => hx'.inj hk hlast
  rw [hcut]
  constructor <;> intro c k hk
  · simp only [popBack, getElem?_dropLast] at hk ⊢
    have hc := hx'.knows (a := c) (i := k)
    grind [update_of_ne]
  · simp only [popBack, getElem?_dropLast] at hk ⊢
    have hc := hx'.claims (a := c) (i := k)
    grind [update_self, update_of_ne]

/-- Away from position `i` nothing has changed. -/
theorem cut_getElem? {k : Nat} {x : ι} (ha : h.arr[i]? = some a) (hki : k ≠ i)
    (hk : (h.cut i a).arr[k]? = some x) : h.arr[k]? = some x := by
  obtain ⟨h', hcut, hperm, -, -, hget⟩ := cut_spec ha
  rw [hcut] at hk
  simp only [popBack, getElem?_dropLast] at hk
  split at hk
  next hkl =>
    rw [hperm.length_eq] at hkl
    exact hget k x hki hkl hk
  · cases hk

/-- The order is only in doubt around the place of the removed member. -/
theorem Ordered.cut (ho : Ordered key h.arr) (ha : h.arr[i]? = some a) :
    Around key (h.cut i a).arr i where
  away := by
    intro j hj hji hjp x y hx hy
    exact ho j hj x y (cut_getElem? ha hjp hx) (cut_getElem? ha hji hy)
  across := by
    intro j x y hi hj hji hx hy
    have hx' := cut_getElem? ha (by omega) hx
    have hy' := cut_getElem? ha (by omega) hy
    exact le_trans (ho i hi x a hx' ha) (ho j hj a y (by rw [hji]; exact ha) hy')

/-- Removing the root by moving the last member there is `removeAt 0`. -/
theorem popTop_eq_removeAt (hx : h.IndexedBut stray) (htop : h.arr.head? = some top)
    (hlast : h.arr.getLast? = some last) : h.popTop before top last = h.removeAt before 0 := by
  have ha : h.arr[0]? = some top := by rw [← head?_eq_getElem?]; exact htop
  obtain ⟨rest, harr⟩ := head?_eq_some_iff.mp htop
  rw [removeAt_eq ha]
  rcases eq_nil_or_concat rest with rfl | ⟨mid, last', rfl⟩
  · have hcut : h.cut 0 top = h.popBack top := by simp [cut, harr]
    have hpop : (h.popBack top).arr = [] := by simp [popBack, harr]
    simp [popTop, hcut, hpop]
  · obtain rfl : last' = last := by simpa [harr, getLast?_cons] using hlast
    rw [concat_eq_append] at harr
    have hb : h.arr[h.arr.length - 1]? = some last' := by
      rw [← getLast?_eq_getElem?]; exact hlast
    have hlen : h.arr.length = mid.length + 2 := by simp [harr]
    have hne : last' ≠ top := by
      rintro rfl
      have := hx.inj ha hb
      omega
    have hpop : (h.popBack top).arr = top :: mid := by
      simp [popBack, harr, dropLast_cons_of_ne_nil]
    -- The two writes to the back-indices commute, since the members differ.
    have hcut : h.cut 0 top =
      ⟨last' :: mid, update (h.popBack top).idx last' (some 0)⟩ := by
      have hswap : h.swap 0 (h.arr.length - 1) = ⟨(h.arr.set 0 last').set (h.arr.length - 1) top,
          update (update h.idx last' (some 0)) top
            (some (h.arr.length - 1))⟩ := by
        simp only [swap, ha, hb]
      rw [cut, if_pos (by omega), hswap]
      simp only [popBack, update_idem, IndexedHeap.mk.injEq]
      refine ⟨?_, update_comm hne _ _ _⟩
      simp [harr, dropLast_cons_of_ne_nil]
    simp only [popTop, hpop]
    rw [hcut, if_neg (by simp), if_neg (by simp)]

variable (before) in
/-- A new member knows its position, and is no stray any more. -/
theorem IndexedBut.push (hx : h.IndexedBut stray) (ha : a ∉ h.arr)
    (hs : ∀ c, stray c → c ≠ a → stray' c) : (h.push before a).IndexedBut stray' := by
  refine IndexedBut.siftUp ?_ before _
  have hnot : ∀ {k}, h.arr[k]? ≠ some a := fun hk => ha (mem_of_getElem? hk)
  constructor <;> intro c k hk
  · simp only [getElem?_append] at hk ⊢
    have hc := hx.knows (a := c) (i := k)
    grind [update_self, update_of_ne]
  · simp only [getElem?_append] at hk ⊢
    have hc := hx.claims (a := c) (i := k)
    grind [update_self, update_of_ne]

variable (before) in
theorem IndexedBut.removeAt (hx : h.IndexedBut stray) (i : Nat) :
    (h.removeAt before i).IndexedBut stray := by
  cases ha : h.arr[i]? with
  | none => simpa only [IndexedHeap.removeAt, ha] using hx
  | some a =>
    have hidx := hx.cut ha
    rw [removeAt_eq ha]
    split
    · exact hidx
    · split
      · exact hidx.siftUp _ _
      · exact hidx.siftDown _ _

variable (before) in
theorem IndexedBut.popTop (hx : h.IndexedBut stray) (htop : h.arr.head? = some top)
    (hlast : h.arr.getLast? = some last) : (h.popTop before top last).IndexedBut stray := by
  rw [popTop_eq_removeAt hx htop hlast]
  exact hx.removeAt before 0

/-! ### Validity -/

/-- A heap whose array is ordered and whose members know their positions. -/
structure Valid (key : ι → κ) (h : IndexedHeap ι) : Prop where
  ordered : Ordered key h.arr
  indexed : h.Indexed

omit [DecidableEq ι] in
theorem valid_empty (key : ι → κ) : Valid key (empty : IndexedHeap ι) where
  ordered := by
    intro j _ a b ha
    simp [empty] at ha
  indexed := ⟨by simp [empty], by simp [empty]⟩

omit [DecidableEq ι] in
/-- The order only depends on the keys of the members. -/
theorem Ordered.congr {l : List ι} (h : Ordered key l) (hkey : ∀ a ∈ l, key' a = key a) :
    Ordered key' l := by
  intro j hj a b ha hb
  rw [hkey a (mem_of_getElem? ha), hkey b (mem_of_getElem? hb)]
  exact h j hj a b ha hb

omit [DecidableEq ι] in
theorem Valid.congr (hv : Valid key h) (hkey : ∀ a ∈ h.arr, key' a = key a) : Valid key' h :=
  ⟨hv.ordered.congr hkey, hv.indexed⟩

/-- **Insertion** keeps the heap valid. -/
theorem Valid.push (hk : Keyed before key) (hv : Valid key h) (ha : a ∉ h.arr) :
    Valid key (h.push before a) := by
  have hget : ∀ k x, k ≠ h.arr.length → (h.arr ++ [a])[k]? = some x → h.arr[k]? = some x := by
    intro k x hk hx
    rw [getElem?_append] at hx
    split at hx
    · exact hx
    · rw [getElem?_singleton, if_neg (by omega)] at hx
      cases hx
  have hleaf : ∀ j y, 0 < j → (h.arr ++ [a])[j]? = some y → (j - 1) / 2 ≠ h.arr.length := by
    intro j y hj hy
    obtain ⟨hjl, -⟩ := List.getElem?_eq_some_iff.mp hy
    have hlen : (h.arr ++ [a]).length = h.arr.length + 1 := by simp
    omega
  have hup : AroundUp key (h.arr ++ [a]) h.arr.length := by
    refine ⟨⟨?_, ?_⟩, ?_⟩
    · intro j hj hjn hjp x y hx hy
      exact hv.ordered j hj x y (hget _ x hjp hx) (hget _ y hjn hy)
    · intro j x y _ hj hjn _ hy
      exact absurd hjn (hleaf j y hj hy)
    · intro j hj hjn x y _ hy
      exact absurd hjn (hleaf j y hj hy)
  refine ⟨?_, hv.indexed.push before ha fun _ hs _ => hs⟩
  exact AroundUp.siftUpLoop hk _ (h := ⟨h.arr ++ [a], update h.idx a (some h.arr.length)⟩)
    hup (Nat.le_refl _) (by simp)

/-- **Removal** by position keeps the heap valid. -/
theorem Valid.removeAt (hk : Keyed before key) (hv : Valid key h) (i : Nat) :
    Valid key (h.removeAt before i) := by
  cases ha : h.arr[i]? with
  | none => simpa only [IndexedHeap.removeAt, ha] using hv
  | some a =>
    have haround := hv.ordered.cut ha
    refine ⟨?_, hv.indexed.removeAt before i⟩
    rw [removeAt_eq ha]
    split
    next hlen =>
      have hno : ∀ j y, i ≤ j → (h.cut i a).arr[j]? ≠ some y := by
        intro j y hij hy
        obtain ⟨hjl, -⟩ := List.getElem?_eq_some_iff.mp hy
        omega
      refine AroundUp.ordered ⟨haround, ?_⟩ ?_
      · intro j _ hji x y _ hy
        exact absurd hy (hno j y (by omega))
      · intro _ x y _ hy
        exact absurd hy (hno i y (Nat.le_refl _))
    next hlen =>
      have hb := getElem?_eq_getElem (Nat.lt_of_not_le hlen)
      split
      next hless =>
        refine AroundUp.siftUpLoop hk _ ⟨haround, ?_⟩ (Nat.le_refl _) (by omega)
        -- What is below `i` is not before its parent, hence not before the smaller member in `i`.
        intro j hj hji x y hx hy
        obtain ⟨p, hp⟩ := exists_parent hb
        rw [less_eq_true hk hb hp] at hless
        rw [hji, hb] at hx
        cases hx
        exact le_trans hless.2.le (haround.across j p y (by omega) hj hji hp hy)
      next hless =>
        refine AroundDown.siftDownLoop hk _ ⟨haround, ?_⟩ (by omega)
        intro hi x y hx hy
        refine not_lt.mp (fun hlt => hless ⟨by omega, ?_⟩)
        exact (less_eq_true hk hy hx).mpr hlt

variable (before) in
theorem removeAt_perm (ha : h.arr[i]? = some a) : (a :: (h.removeAt before i).arr).Perm h.arr := by
  rw [removeAt_eq ha]
  refine Perm.trans (Perm.cons a ?_) (cut_perm ha)
  split
  · exact Perm.refl _
  · split
    · exact siftUp_perm _ _ _
    · exact siftDown_perm _ _ _

variable (before) in
theorem removeAt_length (ha : h.arr[i]? = some a) :
    (h.removeAt before i).arr.length + 1 = h.arr.length := by
  rw [← (removeAt_perm before ha).length_eq, length_cons]

variable (before) in
theorem remove_length_le (h : IndexedHeap ι) (a : ι) :
    (h.remove before a).arr.length ≤ h.arr.length := by
  unfold IndexedHeap.remove
  split
  · exact Nat.le_refl _
  next i _ =>
    cases ha : h.arr[i]? with
    | none => simp only [IndexedHeap.removeAt, ha]; exact Nat.le_refl _
    | some a =>
      have := removeAt_length before ha
      omega

theorem Valid.remove (hk : Keyed before key) (hv : Valid key h) (a : ι) :
    Valid key (h.remove before a) := by
  unfold IndexedHeap.remove
  split
  · exact hv
  · exact hv.removeAt hk _

variable (before) in
/-- Removal by member removes that member and no other. -/
theorem mem_remove (hx : h.Indexed) {b : ι} : b ∈ (h.remove before a).arr ↔ b ∈ h.arr ∧ b ≠ a := by
  unfold IndexedHeap.remove
  split
  next hn =>
    have hna := hx.idx_eq_none.mp hn
    exact ⟨fun hb => ⟨hb, fun hba => hna (hba ▸ hb)⟩, And.left⟩
  next i hi =>
    have hp := removeAt_perm before (hx.get hi)
    have hnd := hp.nodup_iff.mpr hx.nodup
    rw [← hp.mem_iff, mem_cons]
    constructor
    · intro hb
      exact ⟨.inr hb, fun hba => (nodup_cons.mp hnd).1 (hba ▸ hb)⟩
    · rintro ⟨rfl | hb, hne⟩
      · exact absurd rfl hne
      · exact hb

variable (before) in
theorem remove_of_not_mem (hx : h.Indexed) (ha : a ∉ h.arr) : h.remove before a = h := by
  simp only [IndexedHeap.remove, hx.idx_eq_none.mpr ha]

variable (before) in
/-- Taking a new member out again leaves the others, if not all of them in their places. -/
theorem push_remove_perm (hx : h.Indexed) (ha : a ∉ h.arr) :
    ((h.push before a).remove before a).arr.Perm h.arr := by
  have hperm := push_perm before h a
  obtain ⟨i, hi⟩ := mem_iff_getElem?.mp (hperm.mem_iff.mpr mem_cons_self)
  have hidx := (hx.push before ha fun _ hs _ => hs).knows hi
  simp only [IndexedHeap.remove, hidx]
  exact ((removeAt_perm before hi).trans hperm).cons_inv

theorem Valid.popTop (hk : Keyed before key) (hv : Valid key h) (htop : h.arr.head? = some top)
    (hlast : h.arr.getLast? = some last) : Valid key (h.popTop before top last) := by
  rw [popTop_eq_removeAt hv.indexed htop hlast]
  exact hv.removeAt hk 0

/-- **Lowering a key**, followed by sifting up, keeps the heap valid. -/
theorem Valid.lower (hk : Keyed before key') (hv : Valid key h) (hi : h.idx a = some i)
    (hsame : ∀ b, b ≠ a → key' b = key b) (hle : key' a ≤ key a) :
    Valid key' (h.siftUp before i) := by
  have ha := hv.indexed.get hi
  have hother : ∀ j x, j ≠ i → h.arr[j]? = some x → key' x = key x := by
    intro j x hji hx
    refine hsame x ?_
    rintro rfl
    exact hji (hv.indexed.inj hx ha)
  have hup : AroundUp key' h.arr i := by
    refine ⟨⟨?_, ?_⟩, ?_⟩
    · intro j hj hji hjp x y hx hy
      rw [hother _ x hjp hx, hother _ y hji hy]
      exact hv.ordered j hj x y hx hy
    · intro j x y hpos hj hji hx hy
      rw [hother _ x (by omega) hx, hother j y (by omega) hy]
      exact le_trans (hv.ordered i hpos x a hx ha)
        (hv.ordered j hj a y (by rw [hji]; exact ha) hy)
    · intro j hj hji x y hx hy
      rw [hji, ha] at hx
      cases hx
      rw [hother j y (by omega) hy]
      exact le_trans hle (hv.ordered j hj a y (by rw [hji]; exact ha) hy)
  obtain ⟨hil, -⟩ := List.getElem?_eq_some_iff.mp ha
  exact ⟨hup.siftUpLoop hk _ (Nat.le_refl _) hil, hv.indexed.siftUp before i⟩

/-! ### What a heap holds -/

/-- The heap is valid and holds what belongs in it. -/
structure Holds (key : ι → κ) (belongs : ι → Prop) (h : IndexedHeap ι) : Prop where
  valid : Valid key h
  members : ∀ b, b ∈ h.arr ↔ belongs b

/-- The same while `a` may be missing. -/
structure HoldsBut (a : ι) (key : ι → κ) (belongs : ι → Prop) (h : IndexedHeap ι) : Prop where
  valid : Valid key h
  others : ∀ b, b ≠ a → (b ∈ h.arr ↔ belongs b)
  self : a ∈ h.arr → belongs a

variable {belongs P : ι → Prop}

omit [DecidableEq ι] in
theorem Holds.but (hh : h.Holds key belongs) (a : ι) : h.HoldsBut a key belongs :=
  ⟨hh.valid, fun b _ => hh.members b, (hh.members a).mp⟩

/-- `a` is there if it belongs there. -/
theorem HoldsBut.complete (hh : h.HoldsBut a key belongs) (ha : belongs a → a ∈ h.arr) :
    h.Holds key belongs := by
  refine ⟨hh.valid, fun b => ?_⟩
  by_cases hb : b = a
  · subst hb
    exact ⟨hh.self, ha⟩
  · exact hh.others b hb

omit [DecidableEq ι] in
/-- What is decided about `a` does not matter as long as it is not in the heap. -/
theorem Holds.fresh (hh : h.Holds key belongs) (ha : a ∉ h.arr)
    (hkey : ∀ b, b ≠ a → key' b = key b) (hsame : ∀ b, b ≠ a → (P b ↔ belongs b)) :
    h.HoldsBut a key' P where
  valid := hh.valid.congr (fun b hb => hkey b (fun hba => ha (hba ▸ hb)))
  others b hb := (hh.members b).trans (hsame b hb).symm
  self hmem := absurd hmem ha

/-- Pushing `a` completes the heap. -/
theorem HoldsBut.push (hh : h.HoldsBut a key belongs) (hk : Keyed before key) (ha : a ∉ h.arr)
    (hself : belongs a) : (h.push before a).Holds key belongs := by
  refine ⟨hh.valid.push hk ha, fun b => ?_⟩
  rw [(push_perm before h a).mem_iff, mem_cons]
  by_cases hb : b = a
  · exact ⟨fun _ => hb ▸ hself, fun _ => .inl hb⟩
  · rw [or_iff_right hb, hh.others b hb]

/-- Taking the root out leaves only that member in transit. -/
theorem Holds.removeRoot (hh : h.Holds key belongs) (hk : Keyed before key)
    (ha : h.arr.head? = some a) : (h.removeAt before 0).HoldsBut a key belongs := by
  rw [head?_eq_getElem?] at ha
  have hperm := removeAt_perm before ha
  have hnd := hperm.nodup_iff.mpr hh.valid.indexed.nodup
  refine ⟨hh.valid.removeAt hk 0, fun b hb => ?_, fun hmem => absurd hmem (nodup_cons.mp hnd).1⟩
  rw [← hh.members b, ← hperm.mem_iff, mem_cons, or_iff_right hb]

/-- Taking `a` out, once it does not belong there any more. -/
theorem HoldsBut.remove (hh : h.HoldsBut a key belongs) (hk : Keyed before key)
    (hself : ¬ P a) (hsame : ∀ b, b ≠ a → (P b ↔ belongs b)) :
    (h.remove before a).Holds key P := by
  refine ⟨hh.valid.remove hk a, fun b => ?_⟩
  rw [mem_remove before hh.valid.indexed]
  by_cases hb : b = a
  · exact ⟨fun hmem => absurd hb hmem.2, fun hmem => absurd (hb ▸ hmem) hself⟩
  · rw [hh.others b hb, hsame b hb]
    exact and_iff_left hb

end ServiceLib.IndexedHeap
