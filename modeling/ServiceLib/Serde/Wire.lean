import ServiceLib.Lib.BigEndian
import ServiceLib.Lib.Decoder

namespace ServiceLib.Serdes

/-!
# Serde — writing and reading bytes

The helpers of `serde::detail`: appending big-endian integers to an output vector, patching a
length header, and the bounds-checked `Reader`.

Sizes are natural numbers; the places where `size_t` could overflow and where a vector could
outgrow `max_size()` are checked as the source or the vector itself checks them, so whatever
was written has fewer than `2 ^ 63` bytes.
-/

/-- `SerdeData` and `SerdeView`. -/
abbrev Bytes := List UInt8

/-- `numeric_limits<size_t>::max()`. -/
def sizeMax : Nat := 2 ^ 64 - 1

/-- `SerdeData::max_size()`. -/
def maxSize : Nat := 2 ^ 63 - 1

/-- What serializers and deserializers throw. -/
inductive SerdeException
  /-- `SerdeError` with its message and offset. -/
  | serdeError (message : String) (offset : Nat)
  /-- `std::length_error` of a vector that would outgrow `max_size()`. -/
  | lengthError
  deriving DecidableEq, Repr

/-- `SerdeLimits`. -/
structure SerdeLimits where
  maxStringBytes : Nat := sizeMax
  maxBytes : Nat := sizeMax
  maxContainerElements : Nat := sizeMax
  maxTotalBytes : Nat := sizeMax
  deriving DecidableEq, Repr

/-- The outcome of writing to an output vector. -/
abbrev Encoded (α : Type) := Except SerdeException α

/-! ### Output -/

/-- `checked_add`. -/
def checkedAdd (lhs rhs : Nat) (what : String) : Encoded Nat :=
  if rhs > sizeMax - lhs then
    .error (.serdeError ("serde size overflow while encoding " ++ what) 0)
  else .ok (lhs + rhs)

/-- `reserve_more`. -/
def reserveMore (output : Bytes) (additional : Nat) : Encoded Unit :=
  if additional > maxSize - output.length then
    .error (.serdeError "serde output size overflow" output.length)
  else .ok ()

/-- `push_back` of each byte in turn, or `insert` at the end. -/
def pushBytes (output bytes : Bytes) : Encoded Bytes :=
  if output.length + bytes.length ≤ maxSize then .ok (output ++ bytes) else .error .lengthError

/-- `put_u8`. -/
def putU8 (output : Bytes) (value : UInt8) : Encoded Bytes := pushBytes output [value]

/-- `put_u16_be`. -/
def putU16BE (output : Bytes) (value : UInt16) : Encoded Bytes :=
  pushBytes output [((value >>> 8) &&& 0xff).toUInt8, (value &&& 0xff).toUInt8]

/-- `put_u32_be`. -/
def putU32BE (output : Bytes) (value : UInt32) : Encoded Bytes :=
  pushBytes output [((value >>> 24) &&& 0xff).toUInt8, ((value >>> 16) &&& 0xff).toUInt8,
    ((value >>> 8) &&& 0xff).toUInt8, (value &&& 0xff).toUInt8]

/-- The byte of `value` that the loops of `put_u64_be` and `set_u64_be` write for `index`. -/
def byteAt (value : UInt64) (index : Nat) : UInt8 :=
  ((value >>> UInt64.ofNat (index * 8)) &&& 0xff).toUInt8

/-- The range of those loops. -/
def byteIndices : List Nat := [7, 6, 5, 4, 3, 2, 1, 0]

/-- `put_u64_be`. -/
def putU64BE (output : Bytes) (value : UInt64) : Encoded Bytes :=
  pushBytes output (byteIndices.map (byteAt value))

/-- `set_u64_be`. -/
def setU64BE (output : Bytes) (offset : Nat) (value : UInt64) : Encoded Bytes :=
  if offset > output.length ∨ output.length - offset < 8 then
    .error (.serdeError "invalid serde frame offset" offset)
  else .ok (byteIndices.foldl (fun out index => out.set (offset + (7 - index)) (byteAt value index))
    output)

/-- `put_size`. -/
def putSize (output : Bytes) (size : Nat) : Encoded Bytes := putU64BE output (UInt64.ofNat size)

/-- A length header, the payload `write` appends, and the header patched to its length, as
    the containers write it. -/
def putFramed (output : Bytes) (write : Bytes → Encoded Bytes) : Encoded Bytes := do
  let headerOffset := output.length
  let output ← putU64BE output 0
  let valueOffset := output.length
  let output ← write output
  setU64BE output headerOffset (UInt64.ofNat (output.length - valueOffset))

/-! ### Input -/

/-- What a deserializer does besides returning: it is handed an input, reads from it, and
    reserves space for elements. -/
inductive Event
  /-- A `Deserialize` with limit `maxTotalBytes` is handed `size` bytes. -/
  | input (size maxTotalBytes : Nat)
  /-- The `size` bytes at `offset` are read from an input of `length` bytes. -/
  | read (offset size length : Nat)
  /-- The input says that `count` framed elements follow in its `remaining` bytes. -/
  | count (count remaining : Nat)
  /-- Space for `count` elements is reserved with `remaining` bytes left to read, each of them
      encoded in at least `elementBytes`. -/
  | reserve (count remaining elementBytes : Nat)
  /-- Space for `count` map entries is reserved, `decoded` keys being at hand. -/
  | reserveEntries (count decoded : Nat)
  deriving DecidableEq, Repr

/-- A run of a deserializer. -/
abbrev Decoding (α : Type) := Decoded Event SerdeException α

/-- `reserve` of a vector of elements, which refuses what no vector can hold.  The bound is that
    of a vector of bytes.  A vector of larger elements holds fewer, and memory may run out before;
    there the source throws and the model goes on. -/
def reserveElements (count remaining elementBytes : Nat) : Decoding Unit := do
  Decoded.tell (.reserve count remaining elementBytes)
  if count > maxSize then Decoded.fail .lengthError else return ()

/-- `Reader`. -/
structure Reader where
  data : Bytes
  offset : Nat
  deriving DecidableEq, Repr

/-- The constructor of `Reader`. -/
def makeReader (data : Bytes) (maxTotalBytes : Nat) : Decoding Reader := do
  Decoded.tell (.input data.length maxTotalBytes)
  if data.length > maxTotalBytes then
    Decoded.fail (.serdeError "serde input exceeds configured limit" 0)
  else return ⟨data, 0⟩

namespace Reader

/-- `Reader::remaining`. -/
def remaining (r : Reader) : Nat := r.data.length - r.offset

/-- `Reader::read`. -/
def read (r : Reader) (size : Nat) (what : String) : Decoding (Bytes × Reader) :=
  if size > r.remaining then
    Decoded.fail (.serdeError ("serde underflow while reading " ++ what) r.offset)
  else do
    Decoded.tell (.read r.offset size r.data.length)
    return ((r.data.drop r.offset).take size, { r with offset := r.offset + size })

/-- `Reader::read_u8`. -/
def readU8 (r : Reader) : Decoding (UInt8 × Reader) := do
  let (bytes, r) ← r.read 1 "u8"
  return (bytes.getD 0 0, r)

/-- `Reader::read_u16_be`. -/
def readU16BE (r : Reader) : Decoding (UInt16 × Reader) := do
  let (bytes, r) ← r.read 2 "u16"
  return (((bytes.getD 0 0).toUInt16 <<< 8) ||| (bytes.getD 1 0).toUInt16, r)

/-- `Reader::read_u32_be`. -/
def readU32BE (r : Reader) : Decoding (UInt32 × Reader) := do
  let (bytes, r) ← r.read 4 "u32"
  return (((bytes.getD 0 0).toUInt32 <<< 24) ||| ((bytes.getD 1 0).toUInt32 <<< 16) |||
    ((bytes.getD 2 0).toUInt32 <<< 8) ||| (bytes.getD 3 0).toUInt32, r)

/-- `Reader::read_u64_be`. -/
def readU64BE (r : Reader) : Decoding (UInt64 × Reader) := do
  let (bytes, r) ← r.read 8 "u64"
  return (bytes.foldl (fun value byte => (value <<< 8) ||| byte.toUInt64) 0, r)

/-- `Reader::read_size`. -/
def readSize (r : Reader) (maximum : Nat) (what : String) : Decoding (Nat × Reader) := do
  let (encoded, r) ← r.readU64BE
  if encoded.toNat > sizeMax then
    Decoded.fail (.serdeError ("serde " ++ what ++ " does not fit size_t") (r.offset - 8))
  else if encoded.toNat > maximum then
    Decoded.fail (.serdeError ("serde " ++ what ++ " exceeds configured limit") (r.offset - 8))
  else return (encoded.toNat, r)

/-- A length header, checked against `maximum`, and a payload of that length. -/
def readFrame (r : Reader) (maximum : Nat) (lengthWhat payloadWhat : String) :
    Decoding (Bytes × Reader) := do
  let (length, r) ← r.readSize maximum lengthWhat
  r.read length payloadWhat

end Reader

end ServiceLib.Serdes
