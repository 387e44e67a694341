import Mathlib.Data.Multiset.Basic
import ServiceLib.Serde.Wire

namespace ServiceLib.Serdes

/-!
# Serde — the serializers

Every serde of `serdeimpl.hpp`, and the ways to combine them (`Built`, `BuiltStream`).

A serde has two value types.  `C` is what is serialized, `A` what comes back: they differ for
maps only, where `C` is a map with its iteration order, on which the bytes depend, and `A` is
the finite map itself.  `Built σ abs` says that `σ` is built from the library's serdes and that
`abs` forgets the iteration orders.

`std::string` is its bytes, floating-point numbers are their bit patterns.  `IsStub` and the
type-erased entry points of `Serializer` add nothing to the encoding and are left out.
-/

open List

/-- `Serde<T>`. -/
structure Serde (C A : Type) where
  serialize : C → Encoded Bytes
  serializeTo : Bytes → C → Encoded Bytes
  deserialize : Bytes → Decoding A

variable {C A T : Type}

/-- `serialize_fresh`. -/
def serializeFresh (serializeTo : Bytes → C → Encoded Bytes) (value : C) (reserve : Nat := 0) :
    Encoded Bytes :=
  if reserve > maxSize then .error .lengthError else serializeTo [] value

/-! ### Scalars -/

/-- A serde that writes a fixed number of bytes and reads them back. -/
def scalarSerde (size : Nat) (put : Bytes → T → Encoded Bytes)
    (get : Reader → Decoding (T × Reader)) : Serde T T where
  serialize value := serializeFresh put value size
  serializeTo := put
  deserialize data := do
    let r ← makeReader data sizeMax
    let (value, _) ← get r
    return value

/-- `BoolSerde`. -/
def boolSerde : Serde Bool Bool :=
  scalarSerde 1 (fun output value => putU8 output (if value then 1 else 0))
    (fun r => do let (u, r) ← r.readU8; return (u != 0, r))

/-- `Int8Serde`. -/
def int8Serde : Serde Int8 Int8 :=
  scalarSerde 1 (fun output value => putU8 output value.toUInt8)
    (fun r => do let (u, r) ← r.readU8; return (u.toInt8, r))

/-- `UInt8Serde`. -/
def uint8Serde : Serde UInt8 UInt8 := scalarSerde 1 putU8 Reader.readU8

/-- `Int16Serde`. -/
def int16Serde : Serde Int16 Int16 :=
  scalarSerde 2 (fun output value => putU16BE output (value.toUInt16 ^^^ 0x8000))
    (fun r => do let (u, r) ← r.readU16BE; return ((u ^^^ 0x8000).toInt16, r))

/-- `UInt16Serde`. -/
def uint16Serde : Serde UInt16 UInt16 := scalarSerde 2 putU16BE Reader.readU16BE

/-- `Int32Serde`. -/
def int32Serde : Serde Int32 Int32 :=
  scalarSerde 4 (fun output value => putU32BE output (value.toUInt32 ^^^ 0x80000000))
    (fun r => do let (u, r) ← r.readU32BE; return ((u ^^^ 0x80000000).toInt32, r))

/-- `UInt32Serde`. -/
def uint32Serde : Serde UInt32 UInt32 := scalarSerde 4 putU32BE Reader.readU32BE

/-- `Int64Serde`, which is also `IntSerde`. -/
def int64Serde : Serde Int64 Int64 :=
  scalarSerde 8 (fun output value => putU64BE output (value.toUInt64 ^^^ 0x8000000000000000))
    (fun r => do let (u, r) ← r.readU64BE; return ((u ^^^ 0x8000000000000000).toInt64, r))

/-- `UInt64Serde`, which is also `UIntSerde`. -/
def uint64Serde : Serde UInt64 UInt64 := scalarSerde 8 putU64BE Reader.readU64BE

/-- `RuneSerde`; a `char32_t` is its code. -/
def runeSerde : Serde UInt32 UInt32 := scalarSerde 4 putU32BE Reader.readU32BE

/-- `Float32Serde`, on bit patterns. -/
def float32Serde : Serde UInt32 UInt32 := scalarSerde 4 putU32BE Reader.readU32BE

/-- `Float64Serde`, on bit patterns. -/
def float64Serde : Serde UInt64 UInt64 := scalarSerde 8 putU64BE Reader.readU64BE

/-! ### Strings and byte sequences -/

/-- `SerializeTo` of `StringSerde` and of `BasicBytesSerde`. -/
def putBlob (maximum : Nat) (tooLong what : String) (output value : Bytes) : Encoded Bytes := do
  if value.length > maximum then throw (.serdeError tooLong 0)
  let size ← checkedAdd 8 value.length what
  reserveMore output size
  let output ← putSize output value.length
  pushBytes output value

/-- What `StringSerde` and `BasicBytesSerde` share: a length and that many bytes. -/
def blobSerde (maximum maxTotalBytes : Nat) (tooLong what lengthWhat : String) :
    Serde Bytes Bytes where
  serialize value := do
    let size ← checkedAdd 8 value.length what
    serializeFresh (putBlob maximum tooLong what) value size
  serializeTo := putBlob maximum tooLong what
  deserialize data := do
    let r ← makeReader data maxTotalBytes
    let (bytes, _) ← r.readFrame maximum lengthWhat what
    return bytes

/-- `StringSerde`. -/
def stringSerde (limits : SerdeLimits) : Serde Bytes Bytes :=
  blobSerde limits.maxStringBytes limits.maxTotalBytes "string exceeds configured serde limit"
    "string" "string length"

/-- `BasicBytesSerde`: `BytesSerde` and `UInt8ArraySerde`. -/
def bytesSerde (limits : SerdeLimits) : Serde Bytes Bytes :=
  blobSerde limits.maxBytes limits.maxTotalBytes "byte sequence exceeds configured serde limit"
    "bytes" "bytes length"

/-! ### Arrays -/

/-- Write each item in turn. -/
def putAll (put : Bytes → C → Encoded Bytes) : Bytes → List C → Encoded Bytes
  | output, [] => .ok output
  | output, item :: rest => do
    let output ← put output item
    putAll put output rest

/-- `SerializeTo` of the array serdes: a count and each item as `put` writes it. -/
def putCounted (put : Bytes → C → Encoded Bytes) (limits : SerdeLimits) (tooMany : String)
    (output : Bytes) (value : List C) : Encoded Bytes := do
  if value.length > limits.maxContainerElements then throw (.serdeError tooMany 0)
  let output ← putSize output value.length
  putAll put output value

/-- `FixedSizeArraySerde`. -/
def fixedSizeArraySerde (element : Serde T T) (elementSize : Nat) (limits : SerdeLimits) :
    Serde (List T) (List T) where
  serialize value :=
    if value.length > (sizeMax - 8) / elementSize then
      .error (.serdeError "fixed-size array output size overflow" 0)
    else
      serializeFresh
        (putCounted element.serializeTo limits "array exceeds configured element limit") value
        (8 + value.length * elementSize)
  serializeTo := putCounted element.serializeTo limits "array exceeds configured element limit"
  deserialize data := do
    let r ← makeReader data limits.maxTotalBytes
    let (count, r) ← r.readSize limits.maxContainerElements "array count"
    if count > r.remaining / elementSize then
      Decoded.fail (.serdeError "fixed-size array payload is truncated" r.offset)
    else do
      reserveElements count r.remaining elementSize
      let (items, _) ← Decoded.readMany (fun r => do
        let (bytes, r) ← Reader.read r elementSize "fixed-size array element"
        let item ← element.deserialize bytes
        return (item, r)) count r
      return items

/-- `StringArraySerde`. -/
def stringArraySerde (limits : SerdeLimits) : Serde (List Bytes) (List Bytes) where
  serialize value := serializeFresh (putCounted (stringSerde limits).serializeTo limits
    "string array exceeds configured element limit") value
  serializeTo := putCounted (stringSerde limits).serializeTo limits
    "string array exceeds configured element limit"
  deserialize data := do
    let r ← makeReader data limits.maxTotalBytes
    let (count, r) ← r.readSize limits.maxContainerElements "string array count"
    Decoded.tell (.count count r.remaining)
    reserveElements count r.remaining 8
    let (items, _) ← Decoded.readMany (fun r =>
      Reader.readFrame r limits.maxStringBytes "string length" "string array element") count r
    return items

/-- A framed payload and what `deserialize` makes of it. -/
def readNested (deserialize : Bytes → Decoding A) (maxTotalBytes : Nat)
    (lengthWhat payloadWhat : String) (r : Reader) : Decoding (A × Reader) := do
  let (bytes, r) ← r.readFrame maxTotalBytes lengthWhat payloadWhat
  let value ← deserialize bytes
  return (value, r)

/-- `ArraySerde`. -/
def arraySerde (valueSerde : Serde C A) (limits : SerdeLimits) : Serde (List C) (List A) where
  serialize value := serializeFresh
    (putCounted (fun output item => putFramed output (valueSerde.serializeTo · item)) limits
      "array exceeds configured element limit") value
  serializeTo :=
    putCounted (fun output item => putFramed output (valueSerde.serializeTo · item)) limits
      "array exceeds configured element limit"
  deserialize data := do
    let r ← makeReader data limits.maxTotalBytes
    let (count, r) ← r.readSize limits.maxContainerElements "array count"
    Decoded.tell (.count count r.remaining)
    reserveElements count r.remaining 8
    let (items, _) ← Decoded.readMany (readNested valueSerde.deserialize limits.maxTotalBytes
      "array element length" "array element payload") count r
    return items

/-! ### Maps and key-value pairs -/

/-- Two framed payloads, one after the other: the body of a map and of a key-value pair. -/
def putPair (putFirst putSecond : Bytes → Encoded Bytes) (output : Bytes) : Encoded Bytes := do
  let output ← putFramed output putFirst
  putFramed output putSecond

/-- A map with its iteration order; `abs` gives the key that is compared and `eq` is the key
    equality of the map. -/
structure MapValue (K V : Type) {L : Type} (abs : K → L) (eq : L → L → Bool) where
  entries : List (K × V)
  distinct : entries.Pairwise (fun a b => eq (abs a.1) (abs b.1) = false)

variable {CK CV AK AV : Type}

/-- `insert_or_assign`, which keeps the key that is already there. -/
def insertOrAssign (eq : AK → AK → Bool) (m : List (AK × AV)) (key : AK) (value : AV) :
    List (AK × AV) :=
  if m.any (fun e => eq e.1 key) then m.map (fun e => if eq e.1 key then (e.1, value) else e)
  else m ++ [(key, value)]

/-- `SerializeTo` of `MapSerde`. -/
def putMap (putKeys : Bytes → List CK → Encoded Bytes) (putValues : Bytes → List CV → Encoded Bytes)
    (limits : SerdeLimits) (output : Bytes) (entries : List (CK × CV)) : Encoded Bytes := do
  if entries.length > limits.maxContainerElements then
    throw (.serdeError "map exceeds configured element limit" 0)
  putPair (putKeys · (entries.map Prod.fst)) (putValues · (entries.map Prod.snd)) output

/-- `MapSerde`. -/
def mapSerde {absK : CK → AK} (keyArraySerde : Serde (List CK) (List AK))
    (valueArraySerde : Serde (List CV) (List AV)) (eq : AK → AK → Bool) (limits : SerdeLimits) :
    Serde (MapValue CK CV absK eq) (Multiset (AK × AV)) where
  serialize value := serializeFresh
    (putMap keyArraySerde.serializeTo valueArraySerde.serializeTo limits) value.entries
  serializeTo output value :=
    putMap keyArraySerde.serializeTo valueArraySerde.serializeTo limits output value.entries
  deserialize data := do
    let r ← makeReader data limits.maxTotalBytes
    let (keys, r) ← readNested keyArraySerde.deserialize limits.maxTotalBytes
      "map keys length" "map keys payload" r
    let (values, r) ← readNested valueArraySerde.deserialize limits.maxTotalBytes
      "map values length" "map values payload" r
    if keys.length ≠ values.length then
      Decoded.fail (.serdeError "map key/value count mismatch" r.offset)
    else if keys.length > limits.maxContainerElements then
      Decoded.fail (.serdeError "map exceeds configured element limit" 0)
    else do
      Decoded.tell (.reserveEntries keys.length keys.length)
      return ((keys.zip values).foldl (fun m e => insertOrAssign eq m e.1 e.2) [] :
        List (AK × AV))

/-- `StreamSerde<T>`: what a stream uses of a serde. -/
structure StreamSerde (C A : Type) where
  serialize : C → Encoded Bytes
  deserialize : Bytes → Decoding A

/-- `MakeStreamSerde`. -/
def makeStreamSerde (serde : Serde C A) : StreamSerde C A where
  serialize := serde.serialize
  deserialize := serde.deserialize

/-- `StreamKeyValueSerdeImpl`. -/
def streamKeyValueSerde (keySerde : Serde CK AK) (valueSerde : Serde CV AV)
    (limits : SerdeLimits) : StreamSerde (CK × CV) (AK × AV) where
  serialize value :=
    putPair (keySerde.serializeTo · value.1) (valueSerde.serializeTo · value.2) []
  deserialize data := do
    let r ← makeReader data limits.maxTotalBytes
    let (key, r) ← readNested keySerde.deserialize limits.maxTotalBytes
      "key length" "key payload" r
    let (value, _) ← readNested valueSerde.deserialize limits.maxTotalBytes
      "value length" "value payload" r
    return (key, value)

/-! ### The serdes that can be built -/

/-- The scalar serdes with the number of bytes they write, the `ElementSize` of their
    `FixedSizeArraySerde`. -/
inductive Scalar : {T : Type} → Serde T T → Nat → Prop
  | bool : Scalar boolSerde 1
  | int8 : Scalar int8Serde 1
  | uint8 : Scalar uint8Serde 1
  | int16 : Scalar int16Serde 2
  | uint16 : Scalar uint16Serde 2
  | int32 : Scalar int32Serde 4
  | uint32 : Scalar uint32Serde 4
  | int64 : Scalar int64Serde 8
  | uint64 : Scalar uint64Serde 8
  | rune : Scalar runeSerde 4
  | float32 : Scalar float32Serde 4
  | float64 : Scalar float64Serde 8

/-- The finite map of a map value. -/
def MapValue.toFiniteMap {absK : CK → AK} {eq : AK → AK → Bool} (absV : CV → AV)
    (m : MapValue CK CV absK eq) : Multiset (AK × AV) :=
  (m.entries.map (Prod.map absK absV) : List (AK × AV))

/-- `Built σ abs`: `σ` is one of the serdes or put together from them, to any depth and with
    any limits at each level; `abs` forgets the iteration order of the maps in a value. -/
inductive Built : {C A : Type} → Serde C A → (C → A) → Prop
  | scalar {T : Type} {σ : Serde T T} {n : Nat} : Scalar σ n → Built σ id
  | string (limits : SerdeLimits) : Built (stringSerde limits) id
  | bytes (limits : SerdeLimits) : Built (bytesSerde limits) (map id)
  | fixedSizeArray {T : Type} {σ : Serde T T} {n : Nat} (limits : SerdeLimits) :
      Scalar σ n → Built (fixedSizeArraySerde σ n limits) (map id)
  | stringArray (limits : SerdeLimits) : Built (stringArraySerde limits) (map id)
  | array {C A : Type} {σ : Serde C A} {abs : C → A} (limits : SerdeLimits) :
      Built σ abs → Built (arraySerde σ limits) (map abs)
  | map {CK CV AK AV : Type} {κ : Serde (List CK) (List AK)} {ν : Serde (List CV) (List AV)}
      {absK : CK → AK} {absV : CV → AV} (eq : AK → AK → Bool) (limits : SerdeLimits) :
      Built κ (map absK) → Built ν (map absV) →
      Built (mapSerde κ ν eq limits) (fun m : MapValue CK CV absK eq => m.toFiniteMap absV)

/-- The stream serdes: a serde, or a key and a value serde. -/
inductive BuiltStream : {C A : Type} → StreamSerde C A → (C → A) → Prop
  | plain {C A : Type} {σ : Serde C A} {abs : C → A} :
      Built σ abs → BuiltStream (makeStreamSerde σ) abs
  | keyValue {CK CV AK AV : Type} {κ : Serde CK AK} {ν : Serde CV AV} {absK : CK → AK}
      {absV : CV → AV} (limits : SerdeLimits) : Built κ absK → Built ν absV →
      BuiltStream (streamKeyValueSerde κ ν limits) (Prod.map absK absV)

end ServiceLib.Serdes
