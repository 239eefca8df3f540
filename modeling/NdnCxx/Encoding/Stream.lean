import NdnCxx.Encoding.Encode

/-!
# Reading blocks from a stream

`Block::fromStream` reads the header through a `std::istream_iterator`, which extracts one byte
when it is created and one on each increment, and the value by a raw `read` behind it. The header
readers see exactly the bytes that the readers on memory see. The raw read then assumes that the
iterator already holds the first byte of the value: this is so for a value that is there, while a
block with length 0 loses the byte behind it, and a missing value of length 1 goes unnoticed.
-/

namespace NdnCxx

/-- A `std::istream` over the bytes not extracted yet; `failed` is its failbit. -/
structure InputStream where
  rest : Bytes
  failed : Bool
  deriving DecidableEq, Repr

namespace InputStream

/-- A stream that has just been opened. -/
def ofBytes (bytes : Bytes) : InputStream := { rest := bytes, failed := false }

/-- `std::istream::read`; the first part of the result has `gcount()` bytes. -/
def read (stream : InputStream) (count : ℕ) : Bytes × InputStream :=
  if stream.failed then ([], stream)
  else if stream.rest.length < count then (stream.rest, { rest := [], failed := true })
  else (stream.rest.take count, { rest := stream.rest.drop count, failed := false })

/-- The stream is positioned in front of the bytes. One that has failed has nothing left. -/
def PositionedAt (stream : InputStream) (bytes : Bytes) : Prop :=
  stream.rest = bytes ∧ (stream.failed = true → stream.rest = [])

end InputStream

/-- A `std::istream_iterator<uint8_t>`. It equals the end iterator when `ok` is false, and keeps
the byte extracted last even then. -/
structure StreamIterator where
  stream : InputStream
  value : UInt8
  ok : Bool
  deriving DecidableEq, Repr

namespace StreamIterator

/-- Extract the next byte. -/
def increment (iterator : StreamIterator) : StreamIterator :=
  if iterator.stream.failed then { iterator with ok := false }
  else
    match iterator.stream.rest with
    | [] => { iterator with stream := { rest := [], failed := true }, ok := false }
    | byte :: rest => { stream := { rest := rest, failed := false }, value := byte, ok := true }

def ofStream (stream : InputStream) : StreamIterator :=
  increment { stream := stream, value := 0, ok := true }

/-- The loop over `width` octets in `readVarNumber<std::istream_iterator<uint8_t>>`; at most eight
octets go into the 64 bits of `value`. -/
def readOctets : ℕ → ℕ → StreamIterator → Option (ℕ × StreamIterator)
  | 0, value, begin => some (value, begin)
  | width + 1, value, begin =>
      if begin.ok then readOctets width (value * 256 + begin.value.toNat) begin.increment
      else none

/-- `tlv::readVarNumber<std::istream_iterator<uint8_t>>`, the non-throwing form -/
def readVarNumber (begin : StreamIterator) : Option (ℕ × StreamIterator) :=
  if begin.ok then
    let firstOctet := begin.value
    let begin := begin.increment
    if firstOctet < 253 then some (firstOctet.toNat, begin)
    else if firstOctet = 253 then readOctets 2 0 begin
    else if firstOctet = 254 then readOctets 4 0 begin
    else readOctets 8 0 begin
  else none

def readVarNumberOrThrow (begin : StreamIterator) : Except Error (ℕ × StreamIterator) :=
  if begin.ok then
    match begin.readVarNumber with
    | none => .error ⟨.tlv, "Insufficient data during TLV processing"⟩
    | some result => .ok result
  else .error ⟨.tlv, "Empty buffer during TLV processing"⟩

def readTypeOrThrow (begin : StreamIterator) : Except Error (ℕ × StreamIterator) := do
  let (number, begin) ← begin.readVarNumberOrThrow
  if number > 2 ^ 32 - 1 then throw ⟨.tlv, "TLV type code exceeds allowed maximum"⟩
  else return (number, begin)

end StreamIterator

namespace Block

/-- `Block::fromStream` behind the header -/
def fromStreamValue (type length : ℕ) (begin : StreamIterator) :
    Except Error (Block × InputStream) := do
  if length = 0 then
    return (← makeEmptyBlock type, begin.stream)
  else if length > Tlv.maxNdnPacketSize then
    throw ⟨.tlv, "Length of block from stream is too large"⟩
  else
    let (rest, stream) := begin.stream.read (length - 1)
    if length ≠ rest.length + 1 then
      throw ⟨.tlv, "Not enough data in the buffer to fully parse TLV"⟩
    else
      return (← makeBinaryBlock type (begin.value :: rest), stream)

/-- `Block::fromStream`. What is left of the stream after an exception is not modelled. -/
def fromStream (stream : InputStream) : Except Error (Block × InputStream) := do
  let (type, begin) ← (StreamIterator.ofStream stream).readTypeOrThrow
  let (length, begin) ← begin.readVarNumberOrThrow
  fromStreamValue type length begin

/-- `Block::fromBuffer(ConstBufferPtr, size_t)`, which shares the buffer where the other overload
copies it -/
def fromBufferAt (buffer : Bytes) (offset : ℕ) : Option Block := fromBuffer (buffer.drop offset)

end Block

/-! ## The bytes ahead of an iterator -/

namespace StreamIterator

/-- The iterator stands in front of the bytes. -/
def Holds (iterator : StreamIterator) : Bytes → Prop
  | [] => iterator.ok = false ∧ iterator.stream = { rest := [], failed := true }
  | byte :: bytes =>
      iterator.ok = true ∧ iterator.value = byte ∧
        iterator.stream = { rest := bytes, failed := false }

variable {bytes : Bytes} {iterator : StreamIterator}

theorem Holds.increment {byte : UInt8} (hholds : iterator.Holds (byte :: bytes)) :
    iterator.increment.Holds bytes := by
  obtain ⟨-, -, hstream⟩ := hholds
  cases bytes with
  | nil => simp [StreamIterator.increment, hstream, Holds]
  | cons next rest => simp [StreamIterator.increment, hstream, Holds]

theorem ofStream_holds {stream : InputStream} (husable : stream.failed = true → stream.rest = []) :
    (ofStream stream).Holds stream.rest := by
  obtain ⟨rest, failed⟩ := stream
  cases failed with
  | true =>
    obtain rfl : rest = [] := husable rfl
    simp [ofStream, StreamIterator.increment, Holds]
  | false =>
    cases rest with
    | nil => simp [ofStream, StreamIterator.increment, Holds]
    | cons byte bytes => simp [ofStream, StreamIterator.increment, Holds]

/-- A reader on the stream and a reader on the bytes ahead do the same. -/
def Agree : Option (ℕ × StreamIterator) → Option (ℕ × Bytes) → Prop :=
  Option.Rel fun onStream onBytes ↦ onStream.1 = onBytes.1 ∧ onStream.2.Holds onBytes.2

theorem readOctets_agree (width start : ℕ) (hholds : iterator.Holds bytes) :
    Agree (readOctets width start iterator)
      (if bytes.length < width then none
        else some ((bytes.take width).foldl (fun number byte ↦ number * 256 + byte.toNat) start,
          bytes.drop width)) := by
  induction width generalizing iterator bytes start with
  | zero => exact .some ⟨rfl, hholds⟩
  | succ width ih =>
    cases bytes with
    | nil =>
      rw [readOctets, hholds.1]
      exact .none
    | cons byte rest =>
      have hnext := ih (start * 256 + byte.toNat) hholds.increment
      rw [readOctets, hholds.1, hholds.2.1, if_pos rfl]
      simpa using hnext

theorem readOctets_agree_readFixed (width : ℕ) (hholds : iterator.Holds bytes) :
    Agree (readOctets width 0 iterator) (Tlv.readFixed width bytes) :=
  readOctets_agree width 0 hholds

section

variable (hholds : iterator.Holds bytes)
include hholds

/-- The specialised reader finds the numbers that the general one finds. -/
theorem readVarNumber_agree : Agree iterator.readVarNumber (Tlv.readVarNumber bytes) := by
  cases bytes with
  | nil =>
    rw [readVarNumber, hholds.1]
    exact .none
  | cons byte rest =>
    simp only [readVarNumber, Tlv.readVarNumber, hholds.1, hholds.2.1, if_true]
    have hnext := hholds.increment
    split_ifs
    · exact .some ⟨rfl, hnext⟩
    · exact readOctets_agree_readFixed 2 hnext
    · exact readOctets_agree_readFixed 4 hnext
    · exact readOctets_agree_readFixed 8 hnext

theorem readVarNumberOrThrow_eq_ok {rest : Bytes} {number : ℕ}
    (hread : Tlv.readVarNumber bytes = some (number, rest)) :
    ∃ next, iterator.readVarNumberOrThrow = .ok (number, next) ∧ next.Holds rest := by
  have hagree := readVarNumber_agree hholds
  cases bytes with
  | nil => simp [Tlv.readVarNumber] at hread
  | cons byte bytes =>
    rw [hread] at hagree
    cases hstream : iterator.readVarNumber with
    | none =>
      rw [hstream] at hagree
      cases hagree
    | some found =>
      rw [hstream] at hagree
      obtain ⟨hnumber, hnext⟩ : found.1 = number ∧ found.2.Holds rest := by
        cases hagree with
        | some hpair => exact hpair
      refine ⟨found.2, ?_, hnext⟩
      rw [readVarNumberOrThrow, hholds.1, hstream, ← hnumber]
      rfl

theorem readVarNumberOrThrow_eq_error (hread : Tlv.readVarNumber bytes = none) :
    ∃ error, iterator.readVarNumberOrThrow = .error error := by
  have hagree := readVarNumber_agree hholds
  rw [hread] at hagree
  cases hstream : iterator.readVarNumber with
  | none =>
    unfold readVarNumberOrThrow
    rw [hstream]
    split_ifs
    · exact ⟨_, rfl⟩
    · exact ⟨_, rfl⟩
  | some found =>
    rw [hstream] at hagree
    cases hagree

theorem readTypeOrThrow_eq_ok {rest : Bytes} {type : ℕ}
    (hread : Tlv.readType bytes = some (type, rest)) :
    ∃ next, iterator.readTypeOrThrow = .ok (type, next) ∧ next.Holds rest := by
  obtain ⟨hnumber, hsmall⟩ := Tlv.readType_eq_some_iff.mp hread
  obtain ⟨next, hthrow, hnext⟩ := readVarNumberOrThrow_eq_ok hholds hnumber
  refine ⟨next, ?_, hnext⟩
  rw [readTypeOrThrow, hthrow]
  exact if_neg (by simp only at hsmall; omega)

theorem readTypeOrThrow_eq_error (hread : Tlv.readType bytes = none) :
    ∃ error, iterator.readTypeOrThrow = .error error := by
  cases hnumber : Tlv.readVarNumber bytes with
  | none =>
    obtain ⟨error, hthrow⟩ := readVarNumberOrThrow_eq_error hholds hnumber
    exact ⟨error, by rw [readTypeOrThrow, hthrow]; rfl⟩
  | some pair =>
    obtain ⟨next, hthrow, -⟩ := readVarNumberOrThrow_eq_ok hholds hnumber
    have hlarge : pair.1 > 2 ^ 32 - 1 := by
      by_contra hsmall
      have htype := Tlv.readType_eq_some_iff.mpr ⟨hnumber, (by omega : pair.1 < 2 ^ 32)⟩
      simp [hread] at htype
    exact ⟨_, by rw [readTypeOrThrow, hthrow]; exact if_pos hlarge⟩

end

end StreamIterator

/-! ## What the stream reader does with each header -/

def Tlv.readHeader (bytes : Bytes) : Option (ℕ × ℕ × Bytes) :=
  match Tlv.readType bytes with
  | none => none
  | some (type, afterType) =>
      match Tlv.readVarNumber afterType with
      | none => none
      | some (length, valueBegin) => some (type, length, valueBegin)

theorem Tlv.readHeader_eq_some_iff {bytes valueBegin : Bytes} {type length : ℕ} :
    Tlv.readHeader bytes = some (type, length, valueBegin) ↔
      ∃ afterType, Tlv.readType bytes = some (type, afterType) ∧
        Tlv.readVarNumber afterType = some (length, valueBegin) := by
  unfold Tlv.readHeader
  cases Tlv.readType bytes with
  | none => simp
  | some typePair =>
    obtain ⟨type', afterType⟩ := typePair
    cases hlength : Tlv.readVarNumber afterType with
    | none => simp +contextual [hlength]
    | some lengthPair => simp +contextual [hlength, Prod.ext_iff]

namespace Block

/-- Behind a readable header the iterator stands at the value. -/
theorem fromStream_of_readHeader (stream : InputStream) {type length : ℕ} {valueBegin : Bytes}
    (husable : stream.failed = true → stream.rest = [])
    (hheader : Tlv.readHeader stream.rest = some (type, length, valueBegin)) :
    type < 2 ^ 32 ∧ ∃ iterator : StreamIterator, iterator.Holds valueBegin ∧
      fromStream stream = fromStreamValue type length iterator := by
  obtain ⟨afterType, htype, hlength⟩ := Tlv.readHeader_eq_some_iff.mp hheader
  obtain ⟨next, hreadType, hnext⟩ :=
    StreamIterator.readTypeOrThrow_eq_ok (StreamIterator.ofStream_holds husable) htype
  obtain ⟨iterator, hreadLength, hiterator⟩ :=
    StreamIterator.readVarNumberOrThrow_eq_ok hnext hlength
  refine ⟨(Tlv.readType_eq_some_iff.mp htype).2, iterator, hiterator, ?_⟩
  simp [fromStream, hreadType, hreadLength, bind, Except.bind]

theorem fromStream_of_readHeader_eq_none (stream : InputStream)
    (husable : stream.failed = true → stream.rest = [])
    (hheader : Tlv.readHeader stream.rest = none) : ∃ error, fromStream stream = .error error := by
  have hholds := StreamIterator.ofStream_holds husable
  cases htype : Tlv.readType stream.rest with
  | none =>
    obtain ⟨error, hthrow⟩ := StreamIterator.readTypeOrThrow_eq_error hholds htype
    exact ⟨error, by rw [fromStream, hthrow]; rfl⟩
  | some pair =>
    obtain ⟨next, hreadType, hnext⟩ := StreamIterator.readTypeOrThrow_eq_ok hholds htype
    have hlength : Tlv.readVarNumber pair.2 = none := by
      cases hread : Tlv.readVarNumber pair.2 with
      | none => rfl
      | some lengthPair => simp [Tlv.readHeader, htype, hread] at hheader
    obtain ⟨error, hthrow⟩ := StreamIterator.readVarNumberOrThrow_eq_error hnext hlength
    exact ⟨error, by simp [fromStream, hreadType, hthrow, bind, Except.bind]⟩

section Value

variable {type length : ℕ} {valueBegin : Bytes} {iterator : StreamIterator}
  (htype : type < 2 ^ 32) (hholds : iterator.Holds valueBegin)

section Accepted

include htype

/-- A block with length 0 is returned, and the byte behind it has been extracted already. -/
theorem fromStreamValue_zero :
    fromStreamValue type 0 iterator = .ok (ofValue type [], iterator.stream) := by
  simp [fromStreamValue, makeEmptyBlock_eq htype, bind, Except.bind, pure, Except.pure]

include hholds

/-- A value that is there is read, and the stream stops behind it. -/
theorem fromStreamValue_of_le (hpos : 0 < length) (hsmall : length ≤ Tlv.maxNdnPacketSize)
    (hle : length ≤ valueBegin.length) :
    fromStreamValue type length iterator =
      .ok (ofValue type (valueBegin.take length),
        { rest := valueBegin.drop length, failed := false }) := by
  cases valueBegin with
  | nil => simp at hle; omega
  | cons byte rest =>
    obtain ⟨count, rfl⟩ : ∃ count, length = count + 1 := ⟨length - 1, by omega⟩
    have henough : count ≤ rest.length := by simpa using hle
    have hraw : iterator.stream.read count =
        (rest.take count, { rest := rest.drop count, failed := false }) := by
      rw [InputStream.read, hholds.2.2]
      simp [Nat.not_lt.mpr henough]
    have hcount : (rest.take count).length = count := List.length_take_of_le henough
    have hshort : (byte :: rest.take count).length < 2 ^ 64 := by
      simp only [List.length_cons, hcount]
      exact lt_of_le_of_lt hsmall (by decide)
    have hmake := makeBinaryBlock_eq htype hshort
    simp [fromStreamValue, Nat.not_lt.mpr hsmall, hraw, hholds.2.1, hcount, hmake, bind,
      Except.bind, pure, Except.pure]

end Accepted

include hholds

/-- A value cut off is noticed if its length is at least 2. -/
theorem fromStreamValue_of_lt (hlong : 2 ≤ length) (hlt : valueBegin.length < length) :
    ∃ error, fromStreamValue type length iterator = .error error := by
  have hraw : (iterator.stream.read (length - 1)).1.length + 1 < length := by
    cases valueBegin with
    | nil =>
      rw [InputStream.read, hholds.2]
      simpa using Nat.lt_of_succ_le hlong
    | cons byte rest =>
      have hmissing : rest.length < length - 1 := by
        simp only [List.length_cons] at hlt
        omega
      rw [InputStream.read, hholds.2.2]
      simp only [Bool.false_eq_true, if_false, if_pos hmissing]
      omega
  unfold fromStreamValue
  rw [if_neg (by omega)]
  split_ifs with hlarge
  · exact ⟨_, rfl⟩
  · simp only
    rw [if_pos (by omega)]
    exact ⟨_, rfl⟩

end Value

/-- A missing value of length 1 is taken from the byte that was extracted last. -/
theorem fromStreamValue_stale {type : ℕ} {iterator : StreamIterator} (htype : type < 2 ^ 32)
    (hholds : iterator.Holds []) :
    fromStreamValue type 1 iterator =
      .ok (ofValue type [iterator.value], { rest := [], failed := true }) := by
  have hraw : iterator.stream.read 0 = ([], { rest := [], failed := true }) := by
    rw [InputStream.read, hholds.2]
    rfl
  have hmake := makeBinaryBlock_eq htype (by simp : [iterator.value].length < 2 ^ 64)
  have hsmall : ¬ 1 > Tlv.maxNdnPacketSize := by decide
  simp [fromStreamValue, hsmall, hraw, hmake, bind, Except.bind, pure, Except.pure]

/-! ## The four readers -/

/-- The stream reader neither loses a byte behind an empty value nor misses an absent value: a
length of 0 stands at the end of the input, and a length of 1 does not. -/
def StreamReadable (bytes : Bytes) : Prop :=
  ∀ type length valueBegin, Tlv.readHeader bytes = some (type, length, valueBegin) →
    (length = 0 → valueBegin = []) ∧ (length = 1 → valueBegin ≠ [])

/-- The value of the first block, if its header is well formed, fits into a packet. -/
def FitsPacket (bytes : Bytes) : Prop :=
  ∀ type length valueBegin, Tlv.readHeader bytes = some (type, length, valueBegin) →
    length ≤ Tlv.maxNdnPacketSize

/-- What the readers are compared by. -/
def contents (block : Block) : ℕ × Bytes := (block.type, block.value)

/-- `fromStream`, of which only type and value are kept: the wire is encoded anew. -/
def fromStreamContents (stream : InputStream) : Except Error ((ℕ × Bytes) × InputStream) :=
  (fromStream stream).map fun result ↦ (result.1.contents, result.2)

/-- The readers accept the same input and find the same block in it, and `fromStream` stops right
behind that block. -/
structure ReadersAgree (bytes : Bytes) : Prop where
  pointer : (fromPointer bytes).toOption.map contents = (fromBuffer bytes).map contents
  shared : ∀ skipped, (fromBufferAt (skipped ++ bytes) skipped.length).map contents =
    (fromBuffer bytes).map contents
  stream : (fromStreamContents (.ofBytes bytes)).toOption.map Prod.fst =
    (fromBuffer bytes).map contents
  position : ∀ block found next, fromBuffer bytes = some block →
    fromStream (.ofBytes bytes) = .ok (found, next) →
      next.PositionedAt (bytes.drop block.wire.length)

theorem fromStream_of_fromBuffer (stream : InputStream) {block : Block}
    (husable : stream.failed = true → stream.rest = []) (hfits : FitsPacket stream.rest)
    (hreadable : StreamReadable stream.rest) (hread : fromBuffer stream.rest = some block) :
    ∃ next, fromStream stream = .ok (ofValue block.type block.value, next) ∧
      next.PositionedAt (stream.rest.drop block.wire.length) := by
  obtain ⟨afterType, length, valueBegin, htype, hlength, hle, hvalue, hwire⟩ :=
    fromBuffer_eq_some_iff.mp hread
  have hheader := Tlv.readHeader_eq_some_iff.mpr ⟨afterType, htype, hlength⟩
  obtain ⟨hsmall, iterator, hholds, hstream⟩ := fromStream_of_readHeader stream husable hheader
  rw [hstream, hvalue, drop_length_wire htype hlength hle hwire]
  rcases Nat.eq_zero_or_pos length with rfl | hpos
  · obtain rfl : valueBegin = [] := (hreadable _ _ _ hheader).1 rfl
    refine ⟨_, fromStreamValue_zero hsmall, ?_⟩
    rw [hholds.2]
    exact ⟨rfl, fun _ ↦ rfl⟩
  · exact ⟨_, fromStreamValue_of_le hsmall hholds hpos (hfits _ _ _ hheader) hle, rfl, nofun⟩

theorem fromStream_of_fromBuffer_eq_none (stream : InputStream)
    (husable : stream.failed = true → stream.rest = []) (hreadable : StreamReadable stream.rest)
    (hread : fromBuffer stream.rest = none) : ∃ error, fromStream stream = .error error := by
  cases hheader : Tlv.readHeader stream.rest with
  | none => exact fromStream_of_readHeader_eq_none stream husable hheader
  | some header =>
    obtain ⟨type, length, valueBegin⟩ := header
    obtain ⟨hsmall, iterator, hholds, hstream⟩ := fromStream_of_readHeader stream husable hheader
    have hlt : valueBegin.length < length := by
      by_contra hle
      obtain ⟨afterType, htype, hlength⟩ := Tlv.readHeader_eq_some_iff.mp hheader
      simp [fromBuffer, htype, hlength, hle] at hread
    have hlong : 2 ≤ length := by
      by_contra hshort
      obtain rfl : length = 1 := by omega
      have hpresent := (hreadable _ _ _ hheader).2 rfl
      exact hpresent (List.length_eq_zero_iff.mp (by omega))
    rw [hstream]
    exact fromStreamValue_of_lt hholds hlong hlt

theorem fromPointer_toOption (bytes : Bytes) : (fromPointer bytes).toOption = fromBuffer bytes := by
  cases hread : fromBuffer bytes with
  | none =>
    cases hthrow : fromPointer bytes with
    | error error => rfl
    | ok block => simp [fromPointer_eq_ok_iff.mp hthrow] at hread
  | some block => rw [fromPointer_eq_ok_iff.mpr hread]; rfl

theorem readersAgree_of_streamReadable {bytes : Bytes} (hfits : FitsPacket bytes)
    (hreadable : StreamReadable bytes) : ReadersAgree bytes where
  pointer := by rw [fromPointer_toOption]
  shared := by
    intro skipped
    rw [fromBufferAt, List.drop_left]
  stream := by
    cases hread : fromBuffer bytes with
    | none =>
      obtain ⟨error, hthrow⟩ :=
        fromStream_of_fromBuffer_eq_none (.ofBytes bytes) nofun hreadable hread
      rw [fromStreamContents, hthrow]
      rfl
    | some block =>
      obtain ⟨next, hstream, -⟩ :=
        fromStream_of_fromBuffer (.ofBytes bytes) nofun hfits hreadable hread
      rw [fromStreamContents, hstream]
      rfl
  position := by
    intro block found next hread hfound
    obtain ⟨next', hstream, hposition⟩ :=
      fromStream_of_fromBuffer (.ofBytes bytes) nofun hfits hreadable hread
    rw [hstream] at hfound
    cases hfound
    exact hposition

theorem streamReadable_of_readersAgree {bytes : Bytes} (hagree : ReadersAgree bytes) :
    StreamReadable bytes := by
  intro type length valueBegin hheader
  obtain ⟨hsmall, iterator, hholds, hstream⟩ :=
    fromStream_of_readHeader (.ofBytes bytes) nofun hheader
  obtain ⟨afterType, htype, hlength⟩ := Tlv.readHeader_eq_some_iff.mp hheader
  constructor
  · rintro rfl
    let block : Block := ⟨type, [], bytes.take (bytes.length - valueBegin.length)⟩
    have hread : fromBuffer bytes = some block := by
      simp [fromBuffer, htype, hlength, block]
    have hposition := hagree.position block _ _ hread (hstream.trans (fromStreamValue_zero hsmall))
    have hrest : bytes.drop block.wire.length = valueBegin :=
      drop_length_wire htype hlength (Nat.zero_le _) rfl
    -- the iterator took the first of the bytes that should still be in the stream
    cases valueBegin with
    | nil => rfl
    | cons byte rest =>
      have hlost : rest = byte :: rest := by
        rw [hrest] at hposition
        simpa [hholds.2.2] using hposition.1
      exact absurd hlost (List.cons_ne_self byte rest).symm
  · rintro rfl rfl
    have haccept := hagree.stream
    have hreject : fromBuffer bytes = none := by
      simp [fromBuffer, htype, hlength]
    rw [fromStreamContents, hstream, fromStreamValue_stale hsmall hholds, hreject] at haccept
    cases haccept

/-- The four readers agree on an input exactly when it does not start with a block of length 0 that
is followed by more bytes, or with a block of length 1 that is cut off before its value. In a
concatenation of blocks none of which is of the first kind, `fromStream` reads block by block. -/
theorem fromStream_agrees_iff (bytes : Bytes) (blocks : List Block) (tail : Bytes) :
    (FitsPacket bytes → (ReadersAgree bytes ↔ StreamReadable bytes)) ∧
    ((∀ block ∈ blocks, block.IsWire) →
      (∀ block after, block :: after <:+ blocks →
        FitsPacket (block.wire ++ (after.flatMap Block.wire ++ tail)) ∧
          StreamReadable (block.wire ++ (after.flatMap Block.wire ++ tail))) →
      ∃ last, readMany fromStreamContents blocks.length
          (.ofBytes (blocks.flatMap Block.wire ++ tail)) = .ok (blocks.map contents, last) ∧
        last.PositionedAt tail) := by
  constructor
  · intro hfits
    exact ⟨streamReadable_of_readersAgree, readersAgree_of_streamReadable hfits⟩
  · intro hwires hcalls
    apply readMany_flatMap InputStream.PositionedAt blocks
    · intro block after hsuffix stream hposition
      obtain ⟨hfits, hreadable⟩ := hcalls block after hsuffix
      have hwire : block.IsWire := hwires block (hsuffix.mem List.mem_cons_self)
      have hread := hwire.fromBuffer_append (after.flatMap Block.wire ++ tail)
      rw [← hposition.1] at hfits hreadable hread
      obtain ⟨next, hstream, hnext⟩ :=
        fromStream_of_fromBuffer stream hposition.2 hfits hreadable hread
      rw [hposition.1, List.drop_left] at hnext
      exact ⟨next, by rw [fromStreamContents, hstream]; rfl, hnext⟩
    · exact ⟨rfl, nofun⟩

section Known

variable {bytes valueBegin : Bytes} {type length : ℕ}
  (hheader : Tlv.readHeader bytes = some (type, length, valueBegin))
include hheader

theorem fitsPacket_of_readHeader (hlength : length ≤ Tlv.maxNdnPacketSize) : FitsPacket bytes := by
  intro type' length' valueBegin' hheader'
  cases hheader.symm.trans hheader'
  exact hlength

theorem streamReadable_of_readHeader
    (hreadable : (length = 0 → valueBegin = []) ∧ (length = 1 → valueBegin ≠ [])) :
    StreamReadable bytes := by
  intro type' length' valueBegin' hheader'
  cases hheader.symm.trans hheader'
  exact hreadable

end Known

theorem fromStream_agrees_two_blocks :
    ReadersAgree [8, 1, 250, 7, 0] ∧
      ∃ last, readMany fromStreamContents 2 (.ofBytes [8, 1, 250, 7, 0]) =
          .ok ([(8, [250]), (7, [])], last) ∧ last.PositionedAt [] := by
  have hfirst : Tlv.readHeader [8, 1, 250, 7, 0] = some (8, 1, [250, 7, 0]) := rfl
  have hsecond : Tlv.readHeader [7, 0] = some (7, 0, []) := rfl
  constructor
  · exact ((fromStream_agrees_iff _ [] []).1 (fitsPacket_of_readHeader hfirst (by decide))).mpr
      (streamReadable_of_readHeader hfirst (by decide))
  · apply (fromStream_agrees_iff [] [⟨8, [250], [8, 1, 250]⟩, ⟨7, [], [7, 0]⟩] []).2 (by decide)
    intro block after hsuffix
    rcases List.suffix_cons_iff.mp hsuffix with hwhole | hrest
    · cases hwhole
      exact ⟨fitsPacket_of_readHeader hfirst (by decide),
        streamReadable_of_readHeader hfirst (by decide)⟩
    · rcases List.suffix_cons_iff.mp hrest with hlast | hnone
      · cases hlast
        exact ⟨fitsPacket_of_readHeader hsecond (by decide),
          streamReadable_of_readHeader hsecond (by decide)⟩
      · cases List.suffix_nil.mp hnone

/-- Two blocks of length 0 in a row: the second has lost its first byte. A header alone: the
readers on memory reject it, the stream reader returns its last byte as the value. -/
theorem fromStream_lookahead :
    (FitsPacket [7, 0, 8, 0] ∧ ¬ ReadersAgree [7, 0, 8, 0] ∧
      ∃ error, readMany fromStreamContents 2 (.ofBytes [7, 0, 8, 0]) = .error error) ∧
    FitsPacket [8, 1] ∧ ¬ ReadersAgree [8, 1] ∧
      (fromStreamContents (.ofBytes [8, 1])).toOption.map Prod.fst = some (8, [1]) := by
  have hempty : Tlv.readHeader [7, 0, 8, 0] = some (7, 0, [8, 0]) := rfl
  have hcut : Tlv.readHeader [8, 1] = some (8, 1, []) := rfl
  refine ⟨⟨fitsPacket_of_readHeader hempty (by decide), ?_, ?_⟩,
    fitsPacket_of_readHeader hcut (by decide), ?_, rfl⟩
  · intro hagree
    have hreadable := (streamReadable_of_readersAgree hagree _ _ _ hempty).1 rfl
    cases hreadable
  · exact ⟨_, rfl⟩
  · intro hagree
    exact (streamReadable_of_readersAgree hagree _ _ _ hcut).2 rfl rfl

end Block

end NdnCxx
