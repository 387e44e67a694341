import ServiceLib.Serde.Layout

namespace ServiceLib.Serdes

open BigEndian

/-!
# Serde — the order of encoded integers

`Int16Serde`, `Int32Serde` and `Int64Serde` flip the sign bit before they write a value
big-endian, so that the encodings compare, byte by byte, as the values do.  `Int8Serde` writes
the two's-complement byte as it is: a negative value is written as a byte of at least `0x80`
and compares above every other.  `signed_order_iff` is the result for every width.
-/

/-- The widths of the signed integer serdes. -/
inductive SignedWidth
  | w8
  | w16
  | w32
  | w64
  deriving DecidableEq, Repr

namespace SignedWidth

/-- The signed type of a width. -/
abbrev Value : SignedWidth → Type
  | w8 => Int8
  | w16 => Int16
  | w32 => Int32
  | w64 => Int64

/-- The serde of that type. -/
def serde : (w : SignedWidth) → Serde w.Value w.Value
  | w8 => int8Serde
  | w16 => int16Serde
  | w32 => int32Serde
  | w64 => int64Serde

/-- The number a value stands for. -/
def toInt : (w : SignedWidth) → w.Value → Int
  | w8, v => Int8.toInt v
  | w16, v => Int16.toInt v
  | w32, v => Int32.toInt v
  | w64, v => Int64.toInt v

/-- The bytes written for a value. -/
def encoding : (w : SignedWidth) → w.Value → Bytes
  | w8, v => [Int8.toUInt8 v]
  | w16, v => encode 2 (Int16.toUInt16 v ^^^ 0x8000).toNat
  | w32, v => encode 4 (Int32.toUInt32 v ^^^ 0x80000000).toNat
  | w64, v => encode 8 (Int64.toUInt64 v ^^^ 0x8000000000000000).toNat

end SignedWidth

/-- A scalar serde that pushes up to eight bytes onto an empty output succeeds. -/
theorem scalarSerde_serialize {T : Type} {n : Nat} {put : Bytes → T → Encoded Bytes}
    {get : Reader → Decoding (T × Reader)} {v : T} {bs : Bytes} (hn : n ≤ 8)
    (hput : put [] v = pushBytes [] bs) (hlen : bs.length ≤ 8) :
    (scalarSerde n put get).serialize v = .ok bs := by
  have hmax : 8 ≤ maxSize := by decide
  have hreserve : ¬ n > maxSize := by omega
  have hfits : ([] : Bytes).length + bs.length ≤ maxSize := by
    rw [List.length_nil]
    omega
  show serializeFresh put v n = .ok bs
  rw [serializeFresh, if_neg hreserve, hput, pushBytes, if_pos hfits, List.nil_append]

/-- Every value is serialized, to its encoding. -/
theorem serialize_signed (w : SignedWidth) (v : w.Value) :
    w.serde.serialize v = .ok (w.encoding v) := by
  cases w with
  | w8 => exact scalarSerde_serialize (by decide) rfl (by simp [SignedWidth.encoding])
  | w16 =>
    refine scalarSerde_serialize (by decide) ?_ (by simp [SignedWidth.encoding])
    rw [putU16BE, u16_bytes, SignedWidth.encoding]
  | w32 =>
    refine scalarSerde_serialize (by decide) ?_ (by simp [SignedWidth.encoding])
    rw [putU32BE, u32_bytes, SignedWidth.encoding]
  | w64 =>
    refine scalarSerde_serialize (by decide) ?_ (by simp [SignedWidth.encoding])
    rw [putU64BE, u64_bytes, SignedWidth.encoding]

/-- **Flipped words.**  Big-endian words whose sign bit was flipped compare as the signed
    values: the flip shifts all of them by the same amount, to start at zero. -/
theorem flipped_lt_iff {k n : Nat} (x y : BitVec (k + 1)) (hwidth : 2 ^ (k + 1) = 256 ^ n) :
    encode n (x.toNat ^^^ 2 ^ k) < encode n (y.toNat ^^^ 2 ^ k) ↔ x.toInt < y.toInt := by
  have hfits : ∀ z : BitVec (k + 1), z.toNat ^^^ 2 ^ k < 256 ^ n := by
    intro z
    rw [← hwidth]
    exact Nat.xor_lt_two_pow z.isLt (Nat.pow_lt_pow_right (by decide) (Nat.lt_succ_self k))
  rw [encode_lt_encode_iff, Nat.mod_eq_of_lt (hfits x), Nat.mod_eq_of_lt (hfits y), ← Int.ofNat_lt,
    xor_sign_bit, xor_sign_bit]
  omega

/-- Unflipped bytes compare as the values when the signs agree, and the wrong way round
    otherwise. -/
theorem unflipped_lt_iff (a b : Int8) :
    ((a.toInt < b.toInt ↔ [a.toUInt8] < [b.toUInt8]) ↔ (a.toInt < 0 ↔ b.toInt < 0)) := by
  have hvalue : ∀ v : Int8, v.toInt =
      if 2 * v.toUInt8.toNat < 2 ^ 8 then (v.toUInt8.toNat : Int)
        else v.toUInt8.toNat - (2 ^ 8 : Nat) :=
    fun v => BitVec.toInt_eq_toNat_cond v.toBitVec
  have hbyte : ∀ v : Int8, v.toUInt8.toNat < 256 := fun v => v.toUInt8.toNat_lt
  have ha := hvalue a
  have hb := hvalue b
  have hlt : [a.toUInt8] < [b.toUInt8] ↔ a.toUInt8.toNat < b.toUInt8.toNat := by
    rw [List.cons_lt_cons_iff, UInt8.lt_iff_toNat_lt]
    simp
  have ha' := hbyte a
  have hb' := hbyte b
  rw [hlt]
  split at ha <;> split at hb <;> omega

/-- **Order of the encodings.**  For every width and all values, both are serialized, and their
    encodings compare as the values do exactly if the width is not 8 or the signs agree. -/
theorem signed_order_iff (w : SignedWidth) (a b : w.Value) :
    ∃ x y, w.serde.serialize a = .ok x ∧ w.serde.serialize b = .ok y ∧
      ((w.toInt a < w.toInt b ↔ x < y) ↔ (w = .w8 → (w.toInt a < 0 ↔ w.toInt b < 0))) := by
  refine ⟨_, _, serialize_signed w a, serialize_signed w b, ?_⟩
  cases w with
  | w8 =>
    refine (unflipped_lt_iff a b).trans ?_
    simp [SignedWidth.toInt]
  | w16 =>
    refine iff_of_true ?_ (by simp)
    exact (flipped_lt_iff (k := 15) (n := 2) _ _ (by decide)).symm
  | w32 =>
    refine iff_of_true ?_ (by simp)
    exact (flipped_lt_iff (k := 31) (n := 4) _ _ (by decide)).symm
  | w64 =>
    refine iff_of_true ?_ (by simp)
    exact (flipped_lt_iff (k := 63) (n := 8) _ _ (by decide)).symm

/-- `-1` is written as `0xff` and `0` as `0x00`. -/
theorem int8_order_broken : int8Serde.serialize (-1) = .ok [0xff] ∧
    int8Serde.serialize 0 = .ok [0x00] ∧ (-1 : Int8) < 0 ∧ ¬ ([0xff] : Bytes) < [0x00] := by
  decide +kernel

end ServiceLib.Serdes
