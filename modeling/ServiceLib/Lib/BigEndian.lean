import Mathlib.Data.List.Basic
import Mathlib.Tactic.Ring

namespace ServiceLib.BigEndian

/-!
# Big-endian numerals

A natural number as a fixed number of base-256 digits, most significant first.

* `and_255`, `shiftLeft_or` — how masking and shifting a machine word produces and consumes
  digits; `xor_sign_bit` — flipping the sign bit of a signed word.
-/

open Nat List

/-- The last `n` base-256 digits of `v`, most significant first. -/
def encode : Nat → Nat → List UInt8
  | 0, _ => []
  | n + 1, v => UInt8.ofNat (v / 256 ^ n) :: encode n v

/-- The value of a digit string. -/
def decode (bs : List UInt8) : Nat := bs.foldl (fun acc b => acc * 256 + b.toNat) 0

@[simp] theorem encode_length (n v : Nat) : (encode n v).length = n := by
  induction n with
  | zero => rfl
  | succ n ih => simp [encode, ih]

theorem decode_foldl (bs : List UInt8) (acc : Nat) :
    bs.foldl (fun acc b => acc * 256 + b.toNat) acc = acc * 256 ^ bs.length + decode bs := by
  induction bs generalizing acc with
  | nil => simp [decode]
  | cons b bs ih =>
    unfold decode
    rw [foldl_cons, foldl_cons, ih, ih, length_cons]
    ring

theorem decode_cons (b : UInt8) (bs : List UInt8) :
    decode (b :: bs) = b.toNat * 256 ^ bs.length + decode bs := by
  rw [decode, foldl_cons, decode_foldl]
  ring

/-- **Decoding inverts encoding**, up to the digits that do not fit. -/
theorem decode_encode (n v : Nat) : decode (encode n v) = v % 256 ^ n := by
  induction n with
  | zero => simp [encode, decode, mod_one]
  | succ n ih =>
    rw [encode, decode_cons, encode_length, ih]
    have hdigit : (UInt8.ofNat (v / 256 ^ n)).toNat = v / 256 ^ n % 256 := by simp
    rw [hdigit, pow_succ, mod_mul, add_comm, mul_comm]

theorem decode_encode_of_lt {n v : Nat} (h : v < 256 ^ n) : decode (encode n v) = v := by
  rw [decode_encode, mod_eq_of_lt h]

/-! ### Order -/

/-- A more significant digit decides, and among equal ones the rest. -/
theorem add_mul_lt_iff {N p q a b : Nat} (ha : a < N) (hb : b < N) :
    a + N * p < b + N * q ↔ p < q ∨ p = q ∧ a < b := by
  rcases lt_trichotomy p q with h | rfl | h
  · have hmul : N * (p + 1) ≤ N * q := mul_le_mul_left N h
    rw [mul_succ] at hmul
    exact iff_of_true (by omega) (.inl h)
  · simp
  · have hmul : N * (q + 1) ≤ N * p := mul_le_mul_left N h
    rw [mul_succ] at hmul
    exact iff_of_false (by omega) (by omega)

/-- **The lexicographic order of digit strings is the order of the values.** -/
theorem encode_lt_encode_iff (n v w : Nat) :
    encode n v < encode n w ↔ v % 256 ^ n < w % 256 ^ n := by
  induction n with
  | zero => simp [encode, mod_one]
  | succ n ih =>
    have hpos : 0 < 256 ^ n := Nat.pow_pos (by decide)
    have hdigit : ∀ u : Nat, (UInt8.ofNat (u / 256 ^ n)).toNat = u / 256 ^ n % 256 := by simp
    rw [encode, encode, cons_lt_cons_iff, ih, UInt8.lt_iff_toNat_lt, ← UInt8.toNat_inj,
      hdigit, hdigit, pow_succ, mod_mul, mod_mul,
      add_mul_lt_iff (mod_lt _ hpos) (mod_lt _ hpos)]

/-! ### Digits of machine words -/

theorem and_255 (x : Nat) : x &&& 255 = x % 256 :=
  and_two_pow_sub_one_eq_mod x 8

theorem shiftLeft_or (x : Nat) (b : UInt8) : x <<< 8 ||| b.toNat = x * 256 + b.toNat := by
  have hb : b.toNat < 2 ^ 8 := b.toNat_lt
  rw [← shiftLeft_add_eq_or_of_lt hb, shiftLeft_eq]

/-- Setting the bit above all the others adds it. -/
theorem xor_two_pow_of_lt {k x : Nat} (h : x < 2 ^ k) : x ^^^ 2 ^ k = 2 ^ k + x := by
  apply eq_of_testBit_eq
  intro i
  rw [testBit_xor, testBit_two_pow]
  rcases lt_trichotomy i k with hi | rfl | hi
  · rw [testBit_two_pow_add_gt hi]
    simp [hi.ne']
  · rw [testBit_two_pow_add_eq]
    simp
  · have hx : x < 2 ^ i := h.trans (Nat.pow_lt_pow_right (by decide) hi)
    have hsum : 2 ^ k + x < 2 ^ i := by
      calc 2 ^ k + x < 2 ^ k + 2 ^ k := by omega
        _ = 2 ^ (k + 1) := by ring
        _ ≤ 2 ^ i := Nat.pow_le_pow_right (by decide) hi
    rw [testBit_lt_two_pow hx, testBit_lt_two_pow hsum]
    simp [hi.ne]

/-- **Flipping the sign bit** shifts the two's-complement values up to start at zero. -/
theorem xor_sign_bit {k : Nat} (x : BitVec (k + 1)) :
    ((x.toNat ^^^ 2 ^ k : Nat) : Int) = x.toInt + 2 ^ k := by
  rw [BitVec.toInt_eq_toNat_cond]
  have hx : x.toNat < 2 ^ (k + 1) := x.isLt
  rw [pow_succ] at hx ⊢
  split
  next h =>
    rw [xor_two_pow_of_lt (by omega)]
    push_cast
    ring
  next h =>
    obtain ⟨y, hy⟩ : ∃ y, x.toNat = 2 ^ k + y := ⟨x.toNat - 2 ^ k, by omega⟩
    rw [hy, ← xor_two_pow_of_lt (by omega), Nat.xor_assoc, Nat.xor_self, xor_zero,
      xor_two_pow_of_lt (by omega)]
    push_cast
    ring

end ServiceLib.BigEndian
