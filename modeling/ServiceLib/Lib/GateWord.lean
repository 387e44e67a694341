import Mathlib.Data.Nat.Bitwise

namespace ServiceLib.GateWord

/-!
# A counter and a closed bit in one machine word

The top bit of the word says that the gate is closed, the bits below count who is inside.
One atomic operation then decides both: whether somebody may enter, and how many are in.
-/

open Nat BitVec

variable {w : Nat}

/-- The closed bit: `1 << w`. -/
def closedBit (w : Nat) : BitVec (w + 1) := BitVec.ofNat (w + 1) (2 ^ w)

/-- The mask of the counter: every other bit. -/
def countMask (w : Nat) : BitVec (w + 1) := ~~~ closedBit w

/-- Whether the closed bit is set. -/
def isClosed (x : BitVec (w + 1)) : Bool := (x &&& closedBit w) != 0#(w + 1)

/-- The counter. -/
def count (x : BitVec (w + 1)) : Nat := (x &&& countMask w).toNat

/-! ### The halves as numbers -/

theorem toNat_closedBit : (closedBit w).toNat = 2 ^ w := by
  rw [closedBit, toNat_ofNat, mod_eq_of_lt]
  exact Nat.pow_lt_pow_right (by decide) (lt_succ_self w)

theorem toNat_countMask : (countMask w).toNat = 2 ^ w - 1 := by
  rw [countMask, toNat_not, toNat_closedBit, pow_succ]
  omega

section

variable (x : BitVec (w + 1))
include x

theorem toNat_lt : x.toNat < 2 ^ w + 2 ^ w := by
  have h := x.isLt
  rw [pow_succ] at h
  omega

theorem count_eq_mod : count x = x.toNat % 2 ^ w := by
  rw [count, toNat_and, toNat_countMask, and_two_pow_sub_one_eq_mod]

/-- The closed bit is the top bit. -/
theorem isClosed_iff : isClosed x ↔ 2 ^ w ≤ x.toNat := by
  have hlt := toNat_lt x
  have hpos : 0 < 2 ^ w := Nat.two_pow_pos w
  have hand : (x &&& closedBit w).toNat = (x.toNat.testBit w).toNat * 2 ^ w := by
    rw [toNat_and, toNat_closedBit, and_two_pow]
  have hbit : x.toNat.testBit w ↔ 2 ^ w ≤ x.toNat := by
    rw [testBit_eq_decide_div_mod_eq, decide_eq_true_iff]
    constructor
    · intro hodd
      by_contra hsmall
      simp [div_eq_of_lt (not_le.mp hsmall)] at hodd
    · intro hle
      have hdiv : x.toNat / 2 ^ w = 1 := Nat.div_eq_of_lt_le (by omega) (by omega)
      rw [hdiv]
  have hne : isClosed x ↔ (x &&& closedBit w).toNat ≠ 0 := by
    rw [isClosed, bne_iff_ne, ne_eq, ← toNat_inj, toNat_ofNat, zero_mod]
  rw [hne, hand, ← hbit]
  cases x.toNat.testBit w with
  | false => simp
  | true => simp

/-- The word is its counter, plus the closed bit. -/
theorem toNat_eq : x.toNat = count x + if isClosed x then 2 ^ w else 0 := by
  have hlt := toNat_lt x
  rw [count_eq_mod]
  by_cases hle : 2 ^ w ≤ x.toNat
  · rw [if_pos ((isClosed_iff x).mpr hle), mod_eq_sub_mod hle, mod_eq_of_lt (by omega)]
    omega
  · rw [if_neg (fun h => hle ((isClosed_iff x).mp h)), mod_eq_of_lt (not_le.mp hle)]
    rfl

theorem count_lt : count x < 2 ^ w := by
  rw [count_eq_mod]
  exact mod_lt _ (Nat.two_pow_pos w)

end

variable {x : BitVec (w + 1)}

/-- A word is determined by its halves. -/
theorem halves_of_toNat {n : Nat} {c : Bool} (h : x.toNat = n + if c then 2 ^ w else 0)
    (hn : n < 2 ^ w) : count x = n ∧ isClosed x = c := by
  have hx := toNat_eq x
  have hlt := count_lt x
  cases hc : isClosed x <;> cases c <;> rw [hc] at hx <;> simp only [Bool.false_eq_true,
    if_false, if_true] at h hx <;> first | exact ⟨by omega, rfl⟩ | omega

/-! ### The three operations -/

@[simp] theorem count_zero : count (0#(w + 1)) = 0 := by
  rw [count_eq_mod]
  simp

@[simp] theorem isClosed_zero : isClosed (0#(w + 1)) = false := by
  simp [isClosed]

theorem toNat_one : (1#(w + 1)).toNat = 1 := by
  rw [toNat_ofNat, mod_eq_of_lt]
  exact Nat.one_lt_two_pow (succ_ne_zero w)

/-- Entering adds one to the counter, and cannot carry while the counter is not full. -/
theorem enter (h : count x ≠ 2 ^ w - 1) :
    count (x + 1) = count x + 1 ∧ isClosed (x + 1) = isClosed x := by
  have hlt := count_lt x
  have hx := toNat_eq x
  have hpow : 2 ^ (w + 1) = 2 ^ w + 2 ^ w := by rw [pow_succ]; omega
  have hbound : x.toNat + 1 < 2 ^ (w + 1) := by
    rw [hpow, hx]
    split <;> omega
  refine halves_of_toNat ?_ (by omega)
  show (x + 1#(w + 1)).toNat = _
  rw [toNat_add, toNat_one, mod_eq_of_lt hbound, hx]
  omega

/-- Leaving takes one off the counter, and cannot borrow while somebody is inside. -/
theorem leave (h : count x ≠ 0) : count (x - 1) = count x - 1 ∧ isClosed (x - 1) = isClosed x := by
  have hlt := count_lt x
  have hx := toNat_eq x
  refine halves_of_toNat ?_ (by omega)
  show (x - 1#(w + 1)).toNat = _
  have hle : (1#(w + 1)).toNat ≤ x.toNat := by rw [toNat_one]; omega
  rw [toNat_sub_of_le (le_def.mpr hle), toNat_one, hx]
  omega

/-- Closing sets the bit and leaves the counter alone. -/
theorem close (x : BitVec (w + 1)) :
    count (x ||| closedBit w) = count x ∧ isClosed (x ||| closedBit w) := by
  have hlt := count_lt x
  refine halves_of_toNat ?_ hlt
  rw [toNat_or, toNat_closedBit, if_pos rfl]
  have hx := toNat_eq x
  have hor : count x ||| 2 ^ w = count x + 2 ^ w := by
    have h := two_pow_add_eq_or_of_lt hlt 1
    rw [mul_one] at h
    rw [Nat.or_comm, ← h, add_comm]
  cases hc : isClosed x with
  | false =>
    rw [hc] at hx
    simp only [Bool.false_eq_true, if_false, add_zero] at hx
    rw [hx, hor]
  | true =>
    rw [hc, if_pos rfl] at hx
    rw [hx, ← hor, Nat.or_assoc, Nat.or_self]

end ServiceLib.GateWord
