import ServiceLib.Lib.CheckedLoop
import ServiceLib.Serde.Serdes

namespace ServiceLib.Serdes

open BigEndian

/-!
# Serde — what is written and what is read back

Two predicates, one for each direction, and how the helpers of `serde::detail` meet them.
-/

open List Nat Decoded

variable {α β C A : Type}

/-- Every input that was handed to a deserializer was within its limit. -/
def Event.WithinLimit : Event → Prop
  | .input size maxTotalBytes => size ≤ maxTotalBytes
  | _ => True

instance : DecidablePred Event.WithinLimit
  | .input size maxTotalBytes => inferInstanceAs (Decidable (size ≤ maxTotalBytes))
  | .read _ _ _ | .count _ _ | .reserve _ _ _ | .reserveEntries _ _ =>
    inferInstanceAs (Decidable True)

/-- `d` returns `a`, provided every nested input is within its limit. -/
abbrev Yields (d : Decoding α) (a : α) : Prop := Decoded.Returns Event.WithinLimit d a

/-! ### Machine words as bytes -/

theorem u16_bytes (v : UInt16) :
    [((v >>> 8) &&& 0xff).toUInt8, (v &&& 0xff).toUInt8] = encode 2 v.toNat := by
  simp only [encode, cons.injEq, and_true, ← UInt8.toNat_inj]
  constructor <;> simp [shiftRight_eq_div_pow, and_255]

theorem u32_bytes (v : UInt32) :
    [((v >>> 24) &&& 0xff).toUInt8, ((v >>> 16) &&& 0xff).toUInt8,
      ((v >>> 8) &&& 0xff).toUInt8, (v &&& 0xff).toUInt8] = encode 4 v.toNat := by
  simp only [encode, cons.injEq, and_true, ← UInt8.toNat_inj]
  refine ⟨?_, ?_, ?_, ?_⟩ <;> simp [shiftRight_eq_div_pow, and_255]

theorem u64_bytes (v : UInt64) : byteIndices.map (byteAt v) = encode 8 v.toNat := by
  simp only [byteIndices, map, encode, cons.injEq, and_true, ← UInt8.toNat_inj, byteAt]
  refine ⟨?_, ?_, ?_, ?_, ?_, ?_, ?_, ?_⟩ <;> simp [shiftRight_eq_div_pow, and_255]

theorem u16_value (a b : UInt8) : ((a.toUInt16 <<< 8) ||| b.toUInt16).toNat = decode [a, b] := by
  have ha : a.toNat < 256 := a.toNat_lt
  have hshift : (a.toUInt16 <<< 8).toNat = a.toNat <<< 8 := by
    rw [UInt16.toNat_shiftLeft, UInt8.toNat_toUInt16]
    exact mod_eq_of_lt (by rw [shiftLeft_eq]; show a.toNat * 256 < 65536; omega)
  rw [UInt16.toNat_or, hshift, UInt8.toNat_toUInt16, shiftLeft_or]
  simp [decode]

/-- Two neighbouring digits, still shifted, are one number. -/
theorem or_shift (a b : UInt8) (n : Nat) :
    a.toNat <<< (n + 8) ||| b.toNat <<< n = (a.toNat * 256 + b.toNat) <<< n := by
  rw [add_comm, shiftLeft_add, ← shiftLeft_or_distrib, shiftLeft_or]

theorem u32_value (a b c d : UInt8) :
    ((a.toUInt32 <<< 24) ||| (b.toUInt32 <<< 16) ||| (c.toUInt32 <<< 8) ||| d.toUInt32).toNat =
      decode [a, b, c, d] := by
  have ha : a.toNat < 256 := a.toNat_lt
  have hb : b.toNat < 256 := b.toNat_lt
  have hc : c.toNat < 256 := c.toNat_lt
  -- No shift loses a bit, so the words are the shifted numbers.
  have ha' : (a.toUInt32 <<< 24).toNat = a.toNat <<< 24 := by
    rw [UInt32.toNat_shiftLeft, UInt8.toNat_toUInt32]
    exact mod_eq_of_lt (by rw [shiftLeft_eq]; show a.toNat * 16777216 < 4294967296; omega)
  have hb' : (b.toUInt32 <<< 16).toNat = b.toNat <<< 16 := by
    rw [UInt32.toNat_shiftLeft, UInt8.toNat_toUInt32]
    exact mod_eq_of_lt (by rw [shiftLeft_eq]; show b.toNat * 65536 < 4294967296; omega)
  have hc' : (c.toUInt32 <<< 8).toNat = c.toNat <<< 8 := by
    rw [UInt32.toNat_shiftLeft, UInt8.toNat_toUInt32]
    exact mod_eq_of_lt (by rw [shiftLeft_eq]; show c.toNat * 256 < 4294967296; omega)
  simp only [UInt32.toNat_or, ha', hb', hc', UInt8.toNat_toUInt32]
  rw [or_shift a b 16, show 16 = 8 + 8 from rfl, shiftLeft_add, ← shiftLeft_or_distrib,
    shiftLeft_or, shiftLeft_or]
  simp [decode]

theorem shift_toNat {acc : UInt64} (h : acc.toNat * 256 < 2 ^ 64) :
    (acc <<< 8).toNat = acc.toNat <<< 8 := by
  rw [UInt64.toNat_shiftLeft]
  exact mod_eq_of_lt (by rw [shiftLeft_eq]; exact h)

/-- The loop of `read_u64_be` computes the value of the bytes as long as it fits. -/
theorem u64_value (bs : Bytes) (acc : UInt64)
    (h : acc.toNat * 256 ^ bs.length + decode bs < 2 ^ 64) :
    (bs.foldl (fun (value : UInt64) byte => (value <<< 8) ||| byte.toUInt64) acc).toNat =
      acc.toNat * 256 ^ bs.length + decode bs := by
  induction bs generalizing acc with
  | nil => simp [decode]
  | cons b bs ih =>
    rw [decode_cons, length_cons, pow_succ] at h
    have hsum : (acc.toNat * 256 + b.toNat) * 256 ^ bs.length + decode bs < 2 ^ 64 := by
      calc _ = acc.toNat * (256 ^ bs.length * 256) + (b.toNat * 256 ^ bs.length + decode bs) := by
            ring
        _ < 2 ^ 64 := h
    have hacc : acc.toNat * 256 + b.toNat < 2 ^ 64 := by
      have hpos : 1 ≤ 256 ^ bs.length := one_le_pow _ _ (by decide)
      have hmul := Nat.le_mul_of_pos_right (acc.toNat * 256 + b.toNat) hpos
      omega
    have hstep : ((acc <<< 8) ||| b.toUInt64).toNat = acc.toNat * 256 + b.toNat := by
      have hlt : acc.toNat * 256 < 2 ^ 64 := lt_of_le_of_lt (le_add_right _ _) hacc
      rw [UInt64.toNat_or, shift_toNat hlt, UInt8.toNat_toUInt64, shiftLeft_or]
    rw [foldl_cons, ih _ (by rw [hstep]; exact hsum), hstep, decode_cons, length_cons]
    ring

/-! ### Writers -/

/-- Whenever `put` succeeds it appends a payload that satisfies `P`, and the output stays
    within `max_size()`. -/
def Writes (put : Bytes → Encoded Bytes) (P : Bytes → Prop) : Prop :=
  ∀ out out', out.length ≤ maxSize → put out = .ok out' →
    ∃ payload, out' = out ++ payload ∧ out'.length ≤ maxSize ∧ P payload

variable {put put₁ put₂ : Bytes → Encoded Bytes} {P Q R : Bytes → Prop}

theorem Writes.mono (h : Writes put P) (himp : ∀ bs, bs.length ≤ maxSize → P bs → Q bs) :
    Writes put Q := by
  intro out out' hout hput
  obtain ⟨payload, rfl, hlen, hP⟩ := h out out' hout hput
  refine ⟨payload, rfl, hlen, himp payload ?_ hP⟩
  rw [length_append] at hlen
  omega

theorem Writes.and (h₁ : Writes put P) (h₂ : Writes put Q) :
    Writes put (fun bs => P bs ∧ Q bs) := by
  intro out out' hout hput
  obtain ⟨bs, rfl, hlen, hP⟩ := h₁ out out' hout hput
  obtain ⟨cs, happ, -, hQ⟩ := h₂ out _ hout hput
  obtain rfl : bs = cs := append_cancel_left happ
  exact ⟨bs, rfl, hlen, hP, hQ⟩

/-- One writer after the other. -/
theorem Writes.bind (h₁ : Writes put₁ P) (h₂ : Writes put₂ Q)
    (happ : ∀ a b, P a → Q b → R (a ++ b)) : Writes (fun out => put₁ out >>= put₂) R := by
  intro out out' hout hput
  obtain ⟨mid, hmid, hput⟩ := bind_eq_ok.mp hput
  obtain ⟨a, rfl, hlen, ha⟩ := h₁ out mid hout hmid
  obtain ⟨b, rfl, hlen', hb⟩ := h₂ _ _ hlen hput
  exact ⟨a ++ b, append_assoc _ _ _, hlen', happ a b ha hb⟩

/-- A check in front of a writer may be assumed by what the payload satisfies. -/
theorem Writes.check {c : Prop} [Decidable c] {e : SerdeException} (h : ¬ c → Writes put P) :
    Writes (fun out => do
      if c then throw e
      put out) P := by
  intro out out' hout hput
  by_cases hc : c
  · simp only [if_pos hc] at hput
    obtain ⟨_, hthrow, _⟩ := bind_eq_ok.mp hput
    cases hthrow
  · simp only [if_neg hc] at hput
    exact h hc out out' hout hput

theorem writes_pushBytes (bs : Bytes) : Writes (pushBytes · bs) (· = bs) := by
  intro out out' _ hput
  replace hput : pushBytes out bs = .ok out' := hput
  unfold pushBytes at hput
  split at hput
  next hlen =>
    cases hput
    exact ⟨bs, rfl, by rw [length_append]; exact hlen, rfl⟩
  next => cases hput

theorem writes_putU16BE (v : UInt16) : Writes (putU16BE · v) (· = encode 2 v.toNat) := by
  rw [← u16_bytes]
  exact writes_pushBytes _

theorem writes_putU32BE (v : UInt32) : Writes (putU32BE · v) (· = encode 4 v.toNat) := by
  rw [← u32_bytes]
  exact writes_pushBytes _

theorem writes_putU64BE (v : UInt64) : Writes (putU64BE · v) (· = encode 8 v.toNat) := by
  rw [← u64_bytes]
  exact writes_pushBytes _

/-- Eight writes at consecutive positions replace eight bytes. -/
theorem setU64BE_append (out header payload : Bytes) (v : UInt64) (hlen : header.length = 8) :
    setU64BE (out ++ (header ++ payload)) out.length v =
      .ok (out ++ (encode 8 v.toNat ++ payload)) := by
  match header, hlen with
  | [a, b, c, d, e, f, g, h], _ =>
    have hset : ∀ (l : Bytes) (k : Nat) (x : UInt8),
        (out ++ l).set (out.length + k) x = out ++ l.set k x := by
      intro l k x
      rw [set_append_right _ _ (le_add_right _ _), Nat.add_sub_cancel_left]
    rw [← u64_bytes, setU64BE, if_neg (by simp)]
    simp only [byteIndices, foldl, map, hset, cons_append, nil_append,
      Nat.sub_self, List.set]

/-- **Frames.**  The patched header is the length of what was written behind it. -/
theorem writes_putFramed (h : Writes put P) :
    Writes (putFramed · put) (fun bs => ∃ payload, P payload ∧ payload.length ≤ maxSize ∧
      bs = encode 8 payload.length ++ payload) := by
  intro out out' hout hput
  obtain ⟨mid, hhead, hput⟩ := bind_eq_ok.mp hput
  obtain ⟨header, rfl, hlen, rfl⟩ := writes_putU64BE 0 out mid hout hhead
  obtain ⟨full, hbody, hput⟩ := bind_eq_ok.mp hput
  obtain ⟨payload, rfl, hlen', hP⟩ := h _ _ hlen hbody
  have hdiff : (out ++ encode 8 (UInt64.toNat 0) ++ payload).length -
      (out ++ encode 8 (UInt64.toNat 0)).length = payload.length := by
    rw [length_append, Nat.add_sub_cancel_left]
  simp only [length_append, encode_length] at hlen'
  have hsize : (UInt64.ofNat payload.length).toNat = payload.length :=
    UInt64.toNat_ofNat_of_lt' (by
      have : payload.length ≤ maxSize := by omega
      exact lt_of_le_of_lt this (by decide))
  rw [hdiff, append_assoc, setU64BE_append _ _ _ _ (encode_length _ _), hsize] at hput
  cases hput
  refine ⟨_, rfl, ?_, payload, hP, by omega, rfl⟩
  simp only [length_append, encode_length]
  omega

/-! ### Readers -/

/-- The reader is in front of `rest`, and its whole input is within `limit`. -/
structure Reader.At (limit : Nat) (r : Reader) (rest : Bytes) : Prop where
  offset_le : r.offset ≤ r.data.length
  drop_eq : r.data.drop r.offset = rest
  length_le : r.data.length ≤ limit

/-- In front of `bs`, `m` returns `a` and moves past `bs`. -/
def Reads (limit : Nat) (m : Reader → Decoding (α × Reader)) (bs : Bytes) (a : α) : Prop :=
  ∀ r rest, r.At limit (bs ++ rest) → ∃ r', Reader.At limit r' rest ∧ Yields (m r) (a, r')

variable {limit : Nat} {m : Reader → Decoding (α × Reader)} {bs : Bytes} {a : α} {payload : Bytes}

theorem Reader.At.remaining_eq {r : Reader} {rest : Bytes} (h : r.At limit rest) :
    r.remaining = rest.length := by
  rw [← h.drop_eq, length_drop]
  rfl

theorem reads_read (limit : Nat) (bs : Bytes) (what : String) :
    Reads limit (fun r => r.read bs.length what) bs bs := by
  intro r rest h
  have hrem := h.remaining_eq
  rw [length_append] at hrem
  refine ⟨{ r with offset := r.offset + bs.length }, ⟨?_, ?_, h.length_le⟩, ?_⟩
  · have : r.remaining = r.data.length - r.offset := rfl
    have := h.offset_le
    show r.offset + bs.length ≤ r.data.length
    omega
  · show r.data.drop (r.offset + bs.length) = rest
    rw [← drop_drop, h.drop_eq, drop_left]
  · show Yields (r.read bs.length what) _
    rw [Reader.read, if_neg (by omega), h.drop_eq, take_left]
    exact Returns.tell (fun _ => Returns.pure _)

/-- Space that a vector can have is reserved. -/
theorem yields_reserveElements {count : Nat} (h : count ≤ maxSize) (remaining elementBytes : Nat) :
    Yields (reserveElements count remaining elementBytes) () := by
  refine Returns.tell (fun _ => ?_)
  rw [if_neg (not_lt.mpr h)]
  exact Returns.pure _

/-- Changing what a reader returns. -/
theorem Reads.map (h : Reads limit m bs a) {f : α → β} {b : β} (hf : f a = b) :
    Reads limit (fun r => do let (x, r) ← m r; return (f x, r)) bs b := by
  subst hf
  intro r rest hr
  obtain ⟨r', hr', hy⟩ := h r rest hr
  exact ⟨r', hr', hy.bind (Returns.pure _)⟩

theorem reads_readU8 (limit : Nat) (v : UInt8) : Reads limit Reader.readU8 [v] v :=
  (reads_read limit [v] "u8").map (f := (·.getD 0 0)) rfl

theorem reads_readU16BE (limit : Nat) (v : UInt16) :
    Reads limit Reader.readU16BE (encode 2 v.toNat) v := by
  have hval : decode (encode 2 v.toNat) = v.toNat := decode_encode_of_lt v.toNat_lt
  exact (reads_read limit (encode 2 v.toNat) "u16").map
    (f := fun bytes => ((bytes.getD 0 0).toUInt16 <<< 8) ||| (bytes.getD 1 0).toUInt16)
    (UInt16.toNat_inj.mp ((u16_value _ _).trans hval))

theorem reads_readU32BE (limit : Nat) (v : UInt32) :
    Reads limit Reader.readU32BE (encode 4 v.toNat) v := by
  have hval : decode (encode 4 v.toNat) = v.toNat := decode_encode_of_lt v.toNat_lt
  exact (reads_read limit (encode 4 v.toNat) "u32").map
    (f := fun bytes => ((bytes.getD 0 0).toUInt32 <<< 24) ||| ((bytes.getD 1 0).toUInt32 <<< 16) |||
      ((bytes.getD 2 0).toUInt32 <<< 8) ||| (bytes.getD 3 0).toUInt32)
    (UInt32.toNat_inj.mp ((u32_value _ _ _ _).trans hval))

theorem reads_readU64BE (limit : Nat) (v : UInt64) :
    Reads limit Reader.readU64BE (encode 8 v.toNat) v := by
  have hzero : (0 : UInt64).toNat * 256 ^ (encode 8 v.toNat).length +
      decode (encode 8 v.toNat) = v.toNat := by
    rw [decode_encode_of_lt v.toNat_lt, UInt64.toNat_zero, zero_mul, zero_add]
  refine (reads_read limit (encode 8 v.toNat) "u64").map ?_
  rw [← UInt64.toNat_inj, u64_value _ _ (hzero.trans_lt v.toNat_lt), hzero]

/-- A size is read back if it is within bounds. -/
theorem reads_readSize {n maximum : Nat} (hn : n ≤ maxSize) (hmax : n ≤ maximum)
    (what : String) : Reads limit (fun r => r.readSize maximum what) (encode 8 n) n := by
  have hlt : n < 2 ^ 64 := lt_of_le_of_lt hn (by decide)
  have hsize : (UInt64.ofNat n).toNat = n := UInt64.toNat_ofNat_of_lt' hlt
  intro r rest hr
  rw [← hsize] at hr
  obtain ⟨r', hr', hy⟩ := reads_readU64BE limit (UInt64.ofNat n) r rest hr
  refine ⟨r', hr', hy.bind ?_⟩
  have hfits : ¬ n > sizeMax := not_lt.mpr (le_trans hn (by decide))
  simp only [hsize, if_neg hfits, if_neg (not_lt.mpr hmax)]
  exact Returns.pure _

/-- A payload is read back behind its length. -/
theorem reads_readFrame {maximum : Nat} (hlen : payload.length ≤ maxSize)
    (hmax : payload.length ≤ maximum) (lengthWhat payloadWhat : String) :
    Reads limit (fun r => r.readFrame maximum lengthWhat payloadWhat)
      (encode 8 payload.length ++ payload) payload := by
  intro r rest hr
  rw [append_assoc] at hr
  obtain ⟨r', hr', hy⟩ := reads_readSize hlen hmax lengthWhat r _ hr
  obtain ⟨r'', hr'', hy'⟩ := reads_read limit payload payloadWhat r' rest hr'
  exact ⟨r'', hr'', hy.bind hy'⟩

/-- A nested value is read back from its frame: its length is within the limit because the
    whole input is. -/
theorem reads_readNested {deserialize : Bytes → Decoding α}
    (hlen : payload.length ≤ maxSize) (hy : Yields (deserialize payload) a)
    (lengthWhat payloadWhat : String) :
    Reads limit (readNested deserialize limit lengthWhat payloadWhat)
      (encode 8 payload.length ++ payload) a := by
  intro r rest hr
  have hmax : payload.length ≤ limit := by
    have hrem := hr.remaining_eq
    have hle : r.remaining ≤ r.data.length := sub_le _ _
    have hlim := hr.length_le
    simp only [length_append] at hrem
    omega
  obtain ⟨r', hr', hy'⟩ := reads_readFrame hlen hmax lengthWhat payloadWhat r rest hr
  exact ⟨r', hr', hy'.bind (hy.bind (Returns.pure _))⟩

/-- Entering a deserializer: the input is within the limit by assumption, and the reader is
    in front of it. -/
theorem yields_makeReader {data : Bytes} {f : Reader → Decoding α}
    (h : ∀ r, r.At limit data → Yields (f r) a) : Yields (makeReader data limit >>= f) a := by
  have hmk : data.length ≤ limit → makeReader data limit =
      ⟨[.input data.length limit], .ok ⟨data, 0⟩⟩ := by
    intro hle
    simp only [makeReader, if_neg (not_lt.mpr hle)]
    rfl
  by_cases hle : data.length ≤ limit
  · rw [hmk hle]
    refine Returns.bind (a := ⟨data, 0⟩) (fun _ => rfl) (h _ ⟨zero_le _, rfl, hle⟩)
  · intro hlog
    exfalso
    apply hle
    refine hlog (.input data.length limit) ?_
    simp only [makeReader, if_pos (Nat.lt_of_not_le hle)]
    exact mem_cons_self

/-! ### Lists of items -/

variable {put : Bytes → C → Encoded Bytes}

/-- **Items in a row.**  When every item is read back from what is written for it, the list
    is; every item takes at least one byte. -/
theorem writes_putAll {read : Reader → Decoding (A × Reader)} {abs : C → A}
    (h : ∀ item, Writes (put · item) (fun bs => 0 < bs.length ∧ Reads limit read bs (abs item)))
    (items : List C) :
    Writes (putAll put · items) (fun bs => items.length ≤ bs.length ∧
      Reads limit (readMany read items.length) bs (items.map abs)) := by
  induction items with
  | nil =>
    intro out out' hout hput
    cases hput
    refine ⟨[], (append_nil _).symm, hout, le_refl _, fun r rest hr => ⟨r, hr, ?_⟩⟩
    exact Returns.pure _
  | cons item items ih =>
    refine Writes.bind (h item) ih ?_
    intro chunk body hchunk hbody
    refine ⟨by rw [length_append, length_cons]; omega, fun r rest hr => ?_⟩
    rw [append_assoc] at hr
    obtain ⟨r₁, hr₁, hy₁⟩ := hchunk.2 r _ hr
    obtain ⟨r₂, hr₂, hy₂⟩ := hbody.2 r₁ rest hr₁
    exact ⟨r₂, hr₂, hy₁.bind (hy₂.bind (Returns.pure _))⟩

/-- Items that take `n` bytes each. -/
theorem writes_putAll_length {n : Nat}
    (h : ∀ item, Writes (put · item) (fun bs => bs.length = n)) (items : List C) :
    Writes (putAll put · items) (fun bs => bs.length = items.length * n) := by
  induction items with
  | nil =>
    intro out out' hout hput
    cases hput
    exact ⟨[], (append_nil _).symm, hout, (zero_mul n).symm⟩
  | cons item items ih =>
    refine Writes.bind (h item) ih ?_
    intro chunk body hchunk hbody
    rw [length_append, hchunk, hbody, length_cons, add_mul, one_mul, add_comm]

/-- A count in front of the items: it fits, because every item takes at least one byte. -/
theorem writes_putCounted {items : List C}
    (h : Writes (putAll put · items) (fun bs => items.length ≤ bs.length ∧ P bs))
    (limits : SerdeLimits) (tooMany : String) :
    Writes (putCounted put limits tooMany · items) (fun bs => ∃ body,
      items.length ≤ limits.maxContainerElements ∧ items.length ≤ maxSize ∧ P body ∧
      bs = encode 8 items.length ++ body) := by
  refine Writes.check (fun hle => ?_)
  have hwrite : Writes (fun out => putSize out items.length >>= (putAll put · items))
      (fun bs => ∃ body, items.length ≤ body.length ∧ P body ∧
        bs = encode 8 (UInt64.ofNat items.length).toNat ++ body) := by
    refine (writes_putU64BE _).bind h ?_
    rintro header body rfl ⟨hbody, hP⟩
    exact ⟨body, hbody, hP, rfl⟩
  refine hwrite.mono ?_
  rintro bs hbs ⟨body, hbody, hP, rfl⟩
  have hcount : items.length ≤ maxSize := by
    rw [length_append] at hbs
    omega
  have hsize : (UInt64.ofNat items.length).toNat = items.length :=
    UInt64.toNat_ofNat_of_lt' (lt_of_le_of_lt hcount (by decide))
  exact ⟨body, not_lt.mp hle, hcount, hP, by rw [hsize]⟩

end ServiceLib.Serdes
