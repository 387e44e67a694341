import ServiceLib.Serde.Layout

namespace ServiceLib.Serdes

open BigEndian

/-!
# Serde — the round trip

Whatever a serde of any nesting depth wrote is read back, with any bytes behind it
(`serde_roundTrip`).
-/

open List Decoded

variable {C A T CK CV AK AV : Type}

/-- What a serde writes, it reads back. -/
structure RoundTrips (σ : Serde C A) (abs : C → A) : Prop where
  /-- `Serialize` is `SerializeTo` an empty output. -/
  fresh : ∀ v bytes, σ.serialize v = .ok bytes → σ.serializeTo [] v = .ok bytes
  writes : ∀ v, Writes (σ.serializeTo · v) (fun bs => 0 < bs.length ∧
    ∀ rest, Yields (σ.deserialize (bs ++ rest)) (abs v))

variable {n : Nat} {σ : Serde C A} {abs : C → A} {bytes : Bytes} {v : C}
  {put : Bytes → C → Encoded Bytes}

theorem serializeFresh_eq_ok
    (h : serializeFresh put v n = .ok bytes) : put [] v = .ok bytes := by
  unfold serializeFresh at h
  split at h
  · cases h
  · exact h

/-- A complete output is what was appended to nothing. -/
theorem RoundTrips.yields (h : RoundTrips σ abs) (hs : σ.serialize v = .ok bytes) (rest : Bytes) :
    Yields (σ.deserialize (bytes ++ rest)) (abs v) := by
  obtain ⟨payload, rfl, -, -, hy⟩ := h.writes v [] bytes (Nat.zero_le _) (h.fresh v bytes hs)
  exact hy rest

/-! ### Scalars -/

/-- A scalar serde writes `n` bytes and reads them back. -/
structure FixedWidth (σ : Serde T T) (n : Nat) : Prop where
  pos : 0 < n
  fresh : ∀ v bytes, σ.serialize v = .ok bytes → σ.serializeTo [] v = .ok bytes
  writes : ∀ v, Writes (σ.serializeTo · v) (fun bs => bs.length = n ∧
    ∀ rest, Yields (σ.deserialize (bs ++ rest)) v)

theorem fixedWidth_scalarSerde {put : Bytes → T → Encoded Bytes} {enc : T → Bytes}
    {get : Reader → Decoding (T × Reader)} (hpos : 0 < n)
    (hwrite : ∀ v, Writes (put · v) (· = enc v)) (hlen : ∀ v, (enc v).length = n)
    (hread : ∀ v, Reads sizeMax get (enc v) v) : FixedWidth (scalarSerde n put get) n where
  pos := hpos
  fresh _ _ hs := serializeFresh_eq_ok hs
  writes v := by
    refine (hwrite v).mono ?_
    rintro bs - rfl
    refine ⟨hlen v, fun rest => yields_makeReader (fun r hr => ?_)⟩
    obtain ⟨r', -, hy⟩ := hread v r rest hr
    exact hy.bind (Returns.pure _)

/-- The signed serdes flip the sign bit on the way out and on the way in. -/
theorem Scalar.fixedWidth {σ : Serde T T} (h : Scalar σ n) : FixedWidth σ n := by
  cases h with
  | bool =>
    refine fixedWidth_scalarSerde (by decide) (fun _ => writes_pushBytes _) (fun _ => rfl) ?_
    intro v
    exact (reads_readU8 sizeMax (if v then 1 else 0)).map (f := (· != 0)) (by cases v <;> rfl)
  | int8 =>
    refine fixedWidth_scalarSerde (by decide) (fun _ => writes_pushBytes _) (fun _ => rfl) ?_
    intro v
    exact (reads_readU8 sizeMax v.toUInt8).map (Int8.toInt8_toUInt8 v)
  | uint8 =>
    exact fixedWidth_scalarSerde (by decide) (fun _ => writes_pushBytes _) (fun _ => rfl)
      (reads_readU8 sizeMax)
  | int16 =>
    refine fixedWidth_scalarSerde (by decide) (fun _ => writes_putU16BE _)
      (fun _ => encode_length _ _) (fun v => ?_)
    refine (reads_readU16BE sizeMax (v.toUInt16 ^^^ 0x8000)).map
      (f := fun u => (u ^^^ 0x8000).toInt16) ?_
    rw [UInt16.xor_assoc, UInt16.xor_self, UInt16.xor_zero, Int16.toInt16_toUInt16]
  | uint16 =>
    exact fixedWidth_scalarSerde (by decide) writes_putU16BE (fun _ => encode_length _ _)
      (reads_readU16BE sizeMax)
  | int32 =>
    refine fixedWidth_scalarSerde (by decide) (fun _ => writes_putU32BE _)
      (fun _ => encode_length _ _) (fun v => ?_)
    refine (reads_readU32BE sizeMax (v.toUInt32 ^^^ 0x80000000)).map
      (f := fun u => (u ^^^ 0x80000000).toInt32) ?_
    rw [UInt32.xor_assoc, UInt32.xor_self, UInt32.xor_zero, Int32.toInt32_toUInt32]
  | uint32 | rune | float32 =>
    exact fixedWidth_scalarSerde (by decide) writes_putU32BE (fun _ => encode_length _ _)
      (reads_readU32BE sizeMax)
  | int64 =>
    refine fixedWidth_scalarSerde (by decide) (fun _ => writes_putU64BE _)
      (fun _ => encode_length _ _) (fun v => ?_)
    refine (reads_readU64BE sizeMax (v.toUInt64 ^^^ 0x8000000000000000)).map
      (f := fun u => (u ^^^ 0x8000000000000000).toInt64) ?_
    rw [UInt64.xor_assoc, UInt64.xor_self, UInt64.xor_zero, Int64.toInt64_toUInt64]
  | uint64 | float64 =>
    exact fixedWidth_scalarSerde (by decide) writes_putU64BE (fun _ => encode_length _ _)
      (reads_readU64BE sizeMax)

theorem FixedWidth.roundTrips {σ : Serde T T} (h : FixedWidth σ n) : RoundTrips σ id where
  fresh := h.fresh
  writes v := by
    refine (h.writes v).mono ?_
    rintro bs - ⟨hlen, hy⟩
    exact ⟨hlen ▸ h.pos, hy⟩

/-! ### Strings, byte sequences and arrays -/

/-- What a blob is written as, and when it is. -/
theorem writes_putBlob (maximum : Nat) (tooLong what : String) (v : Bytes) :
    Writes (putBlob maximum tooLong what · v) (fun bs => v.length ≤ maximum ∧
      v.length ≤ maxSize ∧ bs = encode 8 v.length ++ v) := by
  refine Writes.check (fun hle => ?_)
  intro out out' hout hput
  obtain ⟨size, hsize, hput⟩ := bind_eq_ok.mp hput
  obtain ⟨_, hmore, hput⟩ := bind_eq_ok.mp hput
  -- The payload fits into the output, so its length survives the conversion to 64 bits.
  have hlen : v.length ≤ maxSize := by
    unfold checkedAdd at hsize
    unfold reserveMore at hmore
    split at hsize
    · cases hsize
    · split at hmore
      · cases hmore
      · cases hsize
        omega
  have hcast : (UInt64.ofNat v.length).toNat = v.length :=
    UInt64.toNat_ofNat_of_lt' (Nat.lt_of_le_of_lt hlen (by decide))
  have hwrite : Writes (fun out => putSize out v.length >>= (pushBytes · v))
      (· = encode 8 v.length ++ v) := by
    refine (writes_putU64BE _).bind (writes_pushBytes v) ?_
    rintro header body rfl rfl
    rw [hcast]
  obtain ⟨payload, hout', hmax, hpayload⟩ := hwrite out out' hout hput
  exact ⟨payload, hout', hmax, Nat.not_lt.mp hle, hlen, hpayload⟩

theorem frame_pos (payload : Bytes) : 0 < (encode 8 payload.length ++ payload).length := by
  rw [length_append, encode_length]
  omega

theorem roundTrips_blobSerde (maximum maxTotalBytes : Nat) (tooLong what lengthWhat : String) :
    RoundTrips (blobSerde maximum maxTotalBytes tooLong what lengthWhat) id where
  fresh v bytes hs := by
    obtain ⟨size, -, hs⟩ := bind_eq_ok.mp hs
    exact serializeFresh_eq_ok hs
  writes v := by
    refine (writes_putBlob maximum tooLong what v).mono ?_
    rintro bs - ⟨hmax, hlen, rfl⟩
    refine ⟨frame_pos v, fun rest => yields_makeReader (fun r hr => ?_)⟩
    obtain ⟨r', -, hy⟩ := reads_readFrame hlen hmax lengthWhat what r rest hr
    exact hy.bind (Returns.pure _)

/-- Elements of one width need no lengths. -/
theorem roundTrips_fixedSizeArraySerde {σ : Serde T T} (h : FixedWidth σ n) (limits : SerdeLimits) :
    RoundTrips (fixedSizeArraySerde σ n limits) (map id) where
  fresh v bytes hs := by
    replace hs : (if v.length > (sizeMax - 8) / n then _ else _) = Except.ok bytes := hs
    split at hs
    · cases hs
    · exact serializeFresh_eq_ok hs
  writes v := by
    have hitem : ∀ item, Writes (σ.serializeTo · item) (fun bs => 0 < bs.length ∧
        Reads limits.maxTotalBytes (fun r => do
          let p ← Reader.read r n "fixed-size array element"
          let item ← σ.deserialize p.1
          return (item, p.2)) bs (id item)) := by
      intro item
      refine (h.writes item).mono ?_
      rintro bs - ⟨rfl, hy⟩
      refine ⟨h.pos, fun r rest hr => ?_⟩
      obtain ⟨r', hr', hread⟩ := reads_read _ bs "fixed-size array element" r rest hr
      have hnested := hy []
      rw [append_nil] at hnested
      exact ⟨r', hr', hread.bind (hnested.bind (Returns.pure _))⟩
    have hlength := writes_putAll_length (fun item => (h.writes item).mono (fun _ _ hw => hw.1)) v
    have hall := ((writes_putAll hitem v).and hlength).mono
      (fun bs _ hw => (⟨hw.1.1, hw.1.2, hw.2⟩ :
        v.length ≤ bs.length ∧ _ ∧ bs.length = v.length * n))
    refine (writes_putCounted hall limits _).mono ?_
    rintro bs - ⟨body, hcount, hsize, ⟨hread, hbody⟩, rfl⟩
    refine ⟨by rw [length_append, encode_length]; omega, fun rest => ?_⟩
    refine yields_makeReader (fun r hr => ?_)
    rw [append_assoc] at hr
    obtain ⟨r₁, hr₁, hy₁⟩ := reads_readSize hsize hcount "array count" r _ hr
    obtain ⟨r₂, -, hy₂⟩ := hread r₁ rest hr₁
    refine hy₁.bind ?_
    -- The check against the remaining input passes: all the elements are still ahead.
    have hfits : ¬ v.length > r₁.remaining / n := by
      rw [hr₁.remaining_eq, length_append, hbody, Nat.not_lt, Nat.le_div_iff_mul_le h.pos]
      exact Nat.le_add_right _ _
    simp only [if_neg hfits]
    exact (yields_reserveElements hsize _ _).bind (hy₂.bind (Returns.pure _))

/-- A count, and items that are each read back from what is written for them. -/
theorem writes_counted {read : Reader → Decoding (A × Reader)}
    {limits : SerdeLimits} (hitem : ∀ item, Writes (put · item) (fun bs => 0 < bs.length ∧
      Reads limits.maxTotalBytes read bs (abs item))) (tooMany what : String) (v : List C) :
    Writes (putCounted put limits tooMany · v) (fun bs => 0 < bs.length ∧ ∀ rest, Yields (do
      let r ← makeReader (bs ++ rest) limits.maxTotalBytes
      let (count, r) ← r.readSize limits.maxContainerElements what
      tell (.count count r.remaining)
      reserveElements count r.remaining 8
      let (items, _) ← readMany read count r
      return items) (v.map abs)) := by
  refine (writes_putCounted (writes_putAll hitem v) limits _).mono ?_
  rintro bs - ⟨body, hcount, hsize, hread, rfl⟩
  refine ⟨by rw [length_append, encode_length]; omega, fun rest => ?_⟩
  refine yields_makeReader (fun r hr => ?_)
  rw [append_assoc] at hr
  obtain ⟨r₁, hr₁, hy₁⟩ := reads_readSize hsize hcount what r _ hr
  obtain ⟨r₂, -, hy₂⟩ := hread r₁ rest hr₁
  refine hy₁.bind (Returns.tell (fun _ => ?_))
  exact (yields_reserveElements hsize _ _).bind (hy₂.bind (Returns.pure _))

theorem roundTrips_stringArraySerde (limits : SerdeLimits) :
    RoundTrips (stringArraySerde limits) (map id) where
  fresh v bytes hs := serializeFresh_eq_ok (n := 0) hs
  writes v := by
    refine writes_counted (fun item => (writes_putBlob _ _ _ item).mono ?_) _ _ v
    rintro bs - ⟨hmax, hlen, rfl⟩
    exact ⟨frame_pos item, reads_readFrame hlen hmax _ _⟩

/-- Every element is framed by its length. -/
theorem roundTrips_arraySerde (h : RoundTrips σ abs) (limits : SerdeLimits) :
    RoundTrips (arraySerde σ limits) (map abs) where
  fresh v bytes hs := serializeFresh_eq_ok (n := 0) hs
  writes v := by
    refine writes_counted (fun item => (writes_putFramed (h.writes item)).mono ?_) _ _ v
    rintro bs - ⟨payload, ⟨-, hy⟩, hlen, rfl⟩
    have hnested := hy []
    rw [append_nil] at hnested
    exact ⟨frame_pos payload, reads_readNested hlen hnested _ _⟩

/-! ### Maps and key-value pairs -/

/-- Two framed payloads, read one after the other. -/
theorem writes_putPair (limit : Nat) {α β : Type} {put₁ put₂ : Bytes → Encoded Bytes}
    {des₁ : Bytes → Decoding α} {des₂ : Bytes → Decoding β} {a : α} {b : β}
    (h₁ : Writes put₁ (fun bs => 0 < bs.length ∧ ∀ rest, Yields (des₁ (bs ++ rest)) a))
    (h₂ : Writes put₂ (fun bs => 0 < bs.length ∧ ∀ rest, Yields (des₂ (bs ++ rest)) b)) :
    Writes (putPair put₁ put₂) (fun bs => 0 < bs.length ∧
      ∀ len₁ pay₁ len₂ pay₂ r rest, Reader.At limit r (bs ++ rest) → ∃ r₁ r₂,
        Yields (readNested des₁ limit len₁ pay₁ r) (a, r₁) ∧
        Yields (readNested des₂ limit len₂ pay₂ r₁) (b, r₂)) := by
  refine (writes_putFramed h₁).bind (writes_putFramed h₂) ?_
  rintro _ _ ⟨first, ⟨-, hfirst⟩, hlen₁, rfl⟩ ⟨second, ⟨-, hsecond⟩, hlen₂, rfl⟩
  have hy₁ := hfirst []
  have hy₂ := hsecond []
  rw [append_nil] at hy₁ hy₂
  refine ⟨?_, fun len₁ pay₁ len₂ pay₂ r rest hr => ?_⟩
  · have := frame_pos first
    rw [length_append]
    omega
  · rw [append_assoc] at hr
    obtain ⟨r₁, hr₁, hread₁⟩ := reads_readNested hlen₁ hy₁ len₁ pay₁ r _ hr
    obtain ⟨r₂, -, hread₂⟩ := reads_readNested hlen₂ hy₂ len₂ pay₂ r₁ _ hr₁
    exact ⟨r₁, r₂, hread₁, hread₂⟩

/-- Inserting entries whose keys all differ appends them. -/
theorem foldl_insertOrAssign (eq : AK → AK → Bool) (l m : List (AK × AV))
    (h : (m ++ l).Pairwise (fun a b => eq a.1 b.1 = false)) :
    l.foldl (fun m e => insertOrAssign eq m e.1 e.2) m = m ++ l := by
  induction l generalizing m with
  | nil => exact (append_nil m).symm
  | cons e l ih =>
    have hnew : m.any (fun x => eq x.1 e.1) = false := by
      rw [any_eq_false]
      intro x hx
      have := (pairwise_append.mp h).2.2 x hx e mem_cons_self
      simp [this]
    rw [append_cons] at h
    rw [foldl_cons, insertOrAssign, if_neg (by simp [hnew]), ih _ h, append_assoc]
    rfl

theorem zip_map_fst_snd (f : CK → AK) (g : CV → AV) (l : List (CK × CV)) :
    ((l.map Prod.fst).map f).zip ((l.map Prod.snd).map g) = l.map (Prod.map f g) := by
  induction l with
  | nil => rfl
  | cons e l ih => simp only [map_cons, zip_cons_cons, ih, Prod.map]

/-- A map is read back as the finite map it stands for. -/
theorem roundTrips_mapSerde {κ : Serde (List CK) (List AK)} {ν : Serde (List CV) (List AV)}
    {absK : CK → AK} {absV : CV → AV} (hk : RoundTrips κ (map absK))
    (hv : RoundTrips ν (map absV)) (eq : AK → AK → Bool) (limits : SerdeLimits) :
    RoundTrips (mapSerde κ ν eq limits)
      (fun m : MapValue CK CV absK eq => m.toFiniteMap absV) where
  fresh v bytes hs := serializeFresh_eq_ok (n := 0) hs
  writes v := by
    refine Writes.check (fun hle => ?_)
    refine (writes_putPair limits.maxTotalBytes (hk.writes (v.entries.map Prod.fst))
      (hv.writes (v.entries.map Prod.snd))).mono ?_
    rintro bs - ⟨hpos, hread⟩
    refine ⟨hpos, fun rest => yields_makeReader (fun r hr => ?_)⟩
    obtain ⟨r₁, r₂, hy₁, hy₂⟩ := hread "map keys length" "map keys payload"
      "map values length" "map values payload" r rest hr
    refine hy₁.bind (hy₂.bind ?_)
    have hcount : ¬ (((v.entries.map Prod.fst).map absK).length ≠
        ((v.entries.map Prod.snd).map absV).length) := by simp
    have hmax : ¬ ((v.entries.map Prod.fst).map absK).length > limits.maxContainerElements := by
      simpa using hle
    -- The keys differ, so the entries are inserted one by one in the order they were written.
    have hdistinct : ([] ++ v.entries.map (Prod.map absK absV)).Pairwise
        (fun a b : AK × AV => eq a.1 b.1 = false) := by
      rw [nil_append, pairwise_map]
      exact v.distinct
    simp only [if_neg hcount, if_neg hmax]
    refine Returns.tell (fun _ => ?_)
    rw [zip_map_fst_snd, foldl_insertOrAssign eq _ [] hdistinct]
    exact Returns.pure _

/-- **Every serde that can be built round-trips**, by induction over how it was built. -/
theorem Built.roundTrips (h : Built σ abs) : RoundTrips σ abs := by
  induction h with
  | scalar h => exact h.fixedWidth.roundTrips
  | string limits => exact roundTrips_blobSerde _ _ _ _ _
  | bytes limits =>
    rw [map_id_fun]
    exact roundTrips_blobSerde _ _ _ _ _
  | fixedSizeArray limits h => exact roundTrips_fixedSizeArraySerde h.fixedWidth limits
  | stringArray limits => exact roundTrips_stringArraySerde limits
  | array limits _ ih => exact roundTrips_arraySerde ih limits
  | map eq limits _ _ ihk ihv => exact roundTrips_mapSerde ihk ihv eq limits

/-! ### The round trip -/

/-- What a stream serde wrote is read back. -/
theorem BuiltStream.yields {σ : StreamSerde C A} (hσ : BuiltStream σ abs)
    (hs : σ.serialize v = .ok bytes) (rest : Bytes) :
    Yields (σ.deserialize (bytes ++ rest)) (abs v) := by
  cases hσ with
  | plain hσ => exact hσ.roundTrips.yields hs rest
  | keyValue limits hk hv =>
    obtain ⟨payload, rfl, -, -, hread⟩ := writes_putPair limits.maxTotalBytes
      (hk.roundTrips.writes v.1) (hv.roundTrips.writes v.2) [] bytes (Nat.zero_le _) hs
    refine yields_makeReader (fun r hr => ?_)
    obtain ⟨r₁, r₂, hy₁, hy₂⟩ := hread "key length" "key payload" "value length"
      "value payload" r rest hr
    exact hy₁.bind (hy₂.bind (Returns.pure _))

/-- **Round trip.**  For every stream serde built from the library's serdes, to any depth and
    with any limits, every value it serializes and all bytes `rest` behind the result:
    deserializing gives back the value, provided every input that is handed to a deserializer
    on the way is within its `maxTotalBytes`. -/
theorem serde_roundTrip {C A : Type} {σ : StreamSerde C A} {abs : C → A}
    (hσ : BuiltStream σ abs) (v : C) (bytes rest : Bytes) (hs : σ.serialize v = .ok bytes)
    (hlimits : ∀ e ∈ (σ.deserialize (bytes ++ rest)).log, e.WithinLimit) :
    (σ.deserialize (bytes ++ rest)).outcome = .ok (abs v) :=
  hσ.yields hs rest hlimits

/-- A key-value serde with string keys and maps from 16-bit numbers to arrays of strings as
    values, with limits that differ from level to level. -/
def nestedSerde : StreamSerde (Bytes × MapValue Int16 (List Bytes) id (· == ·))
    (Bytes × Multiset (Int16 × List Bytes)) :=
  streamKeyValueSerde (stringSerde { maxStringBytes := 4 })
    (mapSerde (fixedSizeArraySerde int16Serde 2 { maxContainerElements := 3 })
      (arraySerde (stringArraySerde { maxTotalBytes := 64 }) { maxTotalBytes := 100 })
      (· == ·) { maxTotalBytes := 200 })
    { maxTotalBytes := 300 }

/-- Two entries, one under a negative key. -/
def nestedValue : Bytes × MapValue Int16 (List Bytes) id (· == ·) :=
  ([104, 105], ⟨[(-2, [[97], []]), (7, [])], by decide⟩)

/-- What the serde writes for it. -/
def nestedBytes : Bytes := (nestedSerde.serialize nestedValue).toOption.getD []

theorem serde_roundTrip_nested : nestedSerde.serialize nestedValue = .ok nestedBytes ∧
    nestedBytes.length = 111 ∧
    (nestedSerde.deserialize (nestedBytes ++ [1, 2, 3])).outcome =
      .ok ([104, 105], {(7, []), (-2, [[97], []])}) := by
  have hs : nestedSerde.serialize nestedValue = .ok nestedBytes := by decide +kernel
  have hbuilt : BuiltStream nestedSerde (Prod.map id (fun m => m.toFiniteMap (map id))) := by
    refine .keyValue _ (.string _) (.map _ _ (.fixedSizeArray _ .int16) ?_)
    exact .array _ (.stringArray _)
  have h := serde_roundTrip hbuilt nestedValue nestedBytes [1, 2, 3] hs (by decide +kernel)
  have hmap : nestedValue.2.toFiniteMap (map id) =
      ({(7, []), (-2, [[97], []])} : Multiset (Int16 × List Bytes)) := by decide +kernel
  exact ⟨hs, by decide +kernel, h.trans (congrArg (fun m => Except.ok ([104, 105], m)) hmap)⟩

end ServiceLib.Serdes
