import NdnCxx.Encoding.Elements
import NdnCxx.Foundation.Window

/-!
# The encoder and the estimator

`Encoder` keeps the encoded bytes as a window of a buffer and writes on both sides of it. When a side
has too little space left, the buffer is replaced by one of more than twice the size and the window
keeps its distance from the other side. `Estimator` has the same operations and only counts. Every
packet is encoded twice, first on the estimator and then on an encoder of the estimated size.

An encoder is a byte deque, apart from blocks whose wire is longer than `Block::size` can tell.
-/

namespace NdnCxx

abbrev Encoder := Window UInt8

namespace Encoder

/-- `Encoder::Encoder(size_t, size_t)` -/
def make (totalReserve reserveFromBack : ℕ) : Encoder :=
  Window.emptyAt 0 totalReserve
    (totalReserve - if reserveFromBack < totalReserve then reserveFromBack else 0) (Nat.sub_le _ _)

def capacity (encoder : Encoder) : ℕ := encoder.cells.length

def size (encoder : Encoder) : ℕ := encoder.last - encoder.first

/-- `Encoder::reserve`; a smaller size than the present one adds nothing. -/
def reserve (encoder : Encoder) (size : ℕ) (addInFront : Bool) : Encoder :=
  if addInFront then encoder.growFront 0 (size - encoder.capacity)
  else encoder.growBack 0 (size - encoder.capacity)

def reserveBack (encoder : Encoder) (size : ℕ) : Encoder :=
  if encoder.last + size > encoder.capacity then
    encoder.reserve (encoder.capacity * 2 + size) false
  else encoder

def reserveFront (encoder : Encoder) (size : ℕ) : Encoder :=
  if size > encoder.first then encoder.reserve (encoder.capacity * 2 + size) true else encoder

theorem le_first_reserveFront (encoder : Encoder) (size : ℕ) :
    size ≤ (encoder.reserveFront size).first := by
  unfold reserveFront
  split_ifs with hshort
  · simp only [reserve, if_true, Window.growFront]
    omega
  · omega

theorem last_add_le_length_reserveBack (encoder : Encoder) (size : ℕ) :
    (encoder.reserveBack size).last + size ≤ (encoder.reserveBack size).cells.length := by
  have hlast : encoder.last ≤ encoder.capacity := encoder.last_le_length
  unfold reserveBack
  split_ifs with hshort
  · simp only [reserve, Bool.false_eq_true, if_false, Window.growBack, List.length_append,
      List.length_replicate]
    change encoder.last + size ≤ encoder.capacity + _
    omega
  · exact Nat.not_lt.mp hshort

@[simp]
theorem content_reserve (encoder : Encoder) (size : ℕ) (addInFront : Bool) :
    (encoder.reserve size addInFront).content = encoder.content := by
  cases addInFront <;> simp [reserve]

@[simp]
theorem content_reserveFront (encoder : Encoder) (size : ℕ) :
    (encoder.reserveFront size).content = encoder.content := by
  unfold reserveFront
  split_ifs <;> simp

@[simp]
theorem content_reserveBack (encoder : Encoder) (size : ℕ) :
    (encoder.reserveBack size).content = encoder.content := by
  unfold reserveBack
  split_ifs <;> simp

/-! ## Prepending and appending -/

def prependByteArray (encoder : Encoder) (array : Bytes) : ℕ × Encoder :=
  (array.length, (encoder.reserveFront array.length).writeFront array
    (encoder.le_first_reserveFront array.length))

def appendByteArray (encoder : Encoder) (array : Bytes) : ℕ × Encoder :=
  (array.length, (encoder.reserveBack array.length).writeBack array
    (encoder.last_add_le_length_reserveBack array.length))

def prependByte (encoder : Encoder) (value : UInt8) : ℕ × Encoder :=
  (1, (encoder.reserveFront 1).writeFront [value] (encoder.le_first_reserveFront 1))

def appendByte (encoder : Encoder) (value : UInt8) : ℕ × Encoder :=
  (1, (encoder.reserveBack 1).writeBack [value] (encoder.last_add_le_length_reserveBack 1))

/-- `Encoder::prependRange`, given what the iterators run over -/
def prependRange (encoder : Encoder) (range : Bytes) : ℕ × Encoder :=
  (range.length, (encoder.reserveFront range.length).writeFront range
    (encoder.le_first_reserveFront range.length))

def appendRange (encoder : Encoder) (range : Bytes) : ℕ × Encoder :=
  (range.length, (encoder.reserveBack range.length).writeBack range
    (encoder.last_add_le_length_reserveBack range.length))

def prependVarNumber (encoder : Encoder) (varNumber : ℕ) : ℕ × Encoder :=
  if varNumber < 253 then (1, (encoder.prependByte (UInt8.ofNat varNumber)).2)
  else if varNumber ≤ 2 ^ 16 - 1 then
    (3, ((encoder.prependByteArray (Bytes.ofNumber 2 varNumber)).2.prependByte 253).2)
  else if varNumber ≤ 2 ^ 32 - 1 then
    (5, ((encoder.prependByteArray (Bytes.ofNumber 4 varNumber)).2.prependByte 254).2)
  else (9, ((encoder.prependByteArray (Bytes.ofNumber 8 varNumber)).2.prependByte 255).2)

def appendVarNumber (encoder : Encoder) (varNumber : ℕ) : ℕ × Encoder :=
  if varNumber < 253 then (1, (encoder.appendByte (UInt8.ofNat varNumber)).2)
  else if varNumber ≤ 2 ^ 16 - 1 then
    (3, ((encoder.appendByte 253).2.appendByteArray (Bytes.ofNumber 2 varNumber)).2)
  else if varNumber ≤ 2 ^ 32 - 1 then
    (5, ((encoder.appendByte 254).2.appendByteArray (Bytes.ofNumber 4 varNumber)).2)
  else (9, ((encoder.appendByte 255).2.appendByteArray (Bytes.ofNumber 8 varNumber)).2)

def prependNonNegativeInteger (encoder : Encoder) (varNumber : ℕ) : ℕ × Encoder :=
  if varNumber ≤ 2 ^ 8 - 1 then encoder.prependByte (UInt8.ofNat varNumber)
  else if varNumber ≤ 2 ^ 16 - 1 then encoder.prependByteArray (Bytes.ofNumber 2 varNumber)
  else if varNumber ≤ 2 ^ 32 - 1 then encoder.prependByteArray (Bytes.ofNumber 4 varNumber)
  else encoder.prependByteArray (Bytes.ofNumber 8 varNumber)

def appendNonNegativeInteger (encoder : Encoder) (varNumber : ℕ) : ℕ × Encoder :=
  if varNumber ≤ 2 ^ 8 - 1 then encoder.appendByte (UInt8.ofNat varNumber)
  else if varNumber ≤ 2 ^ 16 - 1 then encoder.appendByteArray (Bytes.ofNumber 2 varNumber)
  else if varNumber ≤ 2 ^ 32 - 1 then encoder.appendByteArray (Bytes.ofNumber 4 varNumber)
  else encoder.appendByteArray (Bytes.ofNumber 8 varNumber)

def prependByteArrayBlock (encoder : Encoder) (type : ℕ) (array : Bytes) : ℕ × Encoder :=
  let (arrayLength, withArray) := encoder.prependByteArray array
  let (lengthLength, withLength) := withArray.prependVarNumber array.length
  let (typeLength, withType) := withLength.prependVarNumber type
  (arrayLength + lengthLength + typeLength, withType)

def appendByteArrayBlock (encoder : Encoder) (type : ℕ) (array : Bytes) : ℕ × Encoder :=
  let (typeLength, withType) := encoder.appendVarNumber type
  let (lengthLength, withLength) := withType.appendVarNumber array.length
  let (arrayLength, withArray) := withLength.appendByteArray array
  (typeLength + lengthLength + arrayLength, withArray)

/-- `Encoder::prependBlock`; as many bytes of a wire are taken as `Block::size` says. -/
def prependBlock (encoder : Encoder) (block : Block.Element) : ℕ × Encoder :=
  match block.content with
  | .wire _ wire => encoder.prependByteArray (wire.take (wire.length % 2 ^ 32))
  | .value value => encoder.prependByteArrayBlock block.type value
  | .empty => encoder.prependByteArrayBlock block.type []

def appendBlock (encoder : Encoder) (block : Block.Element) : ℕ × Encoder :=
  match block.content with
  | .wire _ wire => encoder.appendByteArray (wire.take (wire.length % 2 ^ 32))
  | .value value => encoder.appendByteArrayBlock block.type value
  | .empty => encoder.appendByteArrayBlock block.type []

def block (encoder : Encoder) : Except Error Block := Block.fromWire encoder.content

/-! ## What the operations write -/

/-- The operation has put the bytes in front of the content and returned their number. -/
def Prepends (encoder : Encoder) (result : ℕ × Encoder) (bytes : Bytes) : Prop :=
  result.2.content = bytes ++ encoder.content ∧ result.1 = bytes.length

/-- The operation has put the bytes behind the content and returned their number. -/
def Appends (encoder : Encoder) (result : ℕ × Encoder) (bytes : Bytes) : Prop :=
  result.2.content = encoder.content ++ bytes ∧ result.1 = bytes.length

theorem prependByteArray_spec (encoder : Encoder) (array : Bytes) :
    encoder.Prepends (encoder.prependByteArray array) array :=
  ⟨by simp [prependByteArray], rfl⟩

theorem appendByteArray_spec (encoder : Encoder) (array : Bytes) :
    encoder.Appends (encoder.appendByteArray array) array :=
  ⟨by simp [appendByteArray], rfl⟩

theorem prependByte_spec (encoder : Encoder) (value : UInt8) :
    encoder.Prepends (encoder.prependByte value) [value] :=
  ⟨by simp [prependByte], rfl⟩

theorem appendByte_spec (encoder : Encoder) (value : UInt8) :
    encoder.Appends (encoder.appendByte value) [value] :=
  ⟨by simp [appendByte], rfl⟩

variable {encoder : Encoder} {bytes : Bytes} {result : ℕ × Encoder} {bytes' : Bytes}

/-- Two operations one after the other, the second in front of the first. -/
theorem Prepends.comp {first second : ℕ × Encoder} (hfirst : encoder.Prepends first bytes)
    (hsecond : first.2.Prepends second bytes') :
    encoder.Prepends (first.1 + second.1, second.2) (bytes' ++ bytes) := by
  refine ⟨?_, ?_⟩
  · rw [hsecond.1, hfirst.1, List.append_assoc]
  · rw [hfirst.2, hsecond.2, List.length_append, Nat.add_comm]

theorem Appends.comp {first second : ℕ × Encoder} (hfirst : encoder.Appends first bytes)
    (hsecond : first.2.Appends second bytes') :
    encoder.Appends (first.1 + second.1, second.2) (bytes ++ bytes') := by
  refine ⟨?_, ?_⟩
  · rw [hsecond.1, hfirst.1, List.append_assoc]
  · rw [hfirst.2, hsecond.2, List.length_append]

theorem Prepends.congr {count : ℕ} (hresult : encoder.Prepends result bytes)
    (hcount : count = bytes.length) : encoder.Prepends (count, result.2) bytes :=
  ⟨hresult.1, hcount⟩

theorem Appends.congr {count : ℕ} (hresult : encoder.Appends result bytes)
    (hcount : count = bytes.length) : encoder.Appends (count, result.2) bytes :=
  ⟨hresult.1, hcount⟩

/-- A number of some width with its marker in front. -/
theorem prependMarked_spec (encoder : Encoder) (marker : UInt8) (width varNumber : ℕ) :
    encoder.Prepends (width + 1,
      ((encoder.prependByteArray (Bytes.ofNumber width varNumber)).2.prependByte marker).2)
      (marker :: Bytes.ofNumber width varNumber) := by
  have hboth := (encoder.prependByteArray_spec (Bytes.ofNumber width varNumber)).comp
    (prependByte_spec _ marker)
  exact hboth.congr (by simp)

theorem appendMarked_spec (encoder : Encoder) (marker : UInt8) (width varNumber : ℕ) :
    encoder.Appends (width + 1,
      ((encoder.appendByte marker).2.appendByteArray (Bytes.ofNumber width varNumber)).2)
      (marker :: Bytes.ofNumber width varNumber) := by
  have hboth := (encoder.appendByte_spec marker).comp
    (appendByteArray_spec _ (Bytes.ofNumber width varNumber))
  exact hboth.congr (by simp)

theorem prependVarNumber_spec (encoder : Encoder) (varNumber : ℕ) :
    encoder.Prepends (encoder.prependVarNumber varNumber) (Tlv.writeVarNumber varNumber) := by
  unfold prependVarNumber Tlv.writeVarNumber
  split_ifs
  · exact encoder.prependByte_spec _
  · exact encoder.prependMarked_spec 253 2 varNumber
  · exact encoder.prependMarked_spec 254 4 varNumber
  · exact encoder.prependMarked_spec 255 8 varNumber

theorem appendVarNumber_spec (encoder : Encoder) (varNumber : ℕ) :
    encoder.Appends (encoder.appendVarNumber varNumber) (Tlv.writeVarNumber varNumber) := by
  unfold appendVarNumber Tlv.writeVarNumber
  split_ifs
  · exact encoder.appendByte_spec _
  · exact encoder.appendMarked_spec 253 2 varNumber
  · exact encoder.appendMarked_spec 254 4 varNumber
  · exact encoder.appendMarked_spec 255 8 varNumber

theorem ofNumber_one (varNumber : ℕ) : Bytes.ofNumber 1 varNumber = [UInt8.ofNat varNumber] := by
  simp [Bytes.ofNumber]

theorem prependNonNegativeInteger_spec (encoder : Encoder) (varNumber : ℕ) :
    encoder.Prepends (encoder.prependNonNegativeInteger varNumber)
      (Tlv.prependNonNegativeInteger varNumber) := by
  unfold prependNonNegativeInteger Tlv.prependNonNegativeInteger Tlv.prependNonNegativeIntegerSize
  split_ifs
  · rw [ofNumber_one]
    exact encoder.prependByte_spec _
  · exact encoder.prependByteArray_spec _
  · exact encoder.prependByteArray_spec _
  · exact encoder.prependByteArray_spec _

theorem appendNonNegativeInteger_spec (encoder : Encoder) (varNumber : ℕ) :
    encoder.Appends (encoder.appendNonNegativeInteger varNumber)
      (Tlv.prependNonNegativeInteger varNumber) := by
  unfold appendNonNegativeInteger Tlv.prependNonNegativeInteger Tlv.prependNonNegativeIntegerSize
  split_ifs
  · rw [ofNumber_one]
    exact encoder.appendByte_spec _
  · exact encoder.appendByteArray_spec _
  · exact encoder.appendByteArray_spec _
  · exact encoder.appendByteArray_spec _

theorem prependByteArrayBlock_spec (encoder : Encoder) (type : ℕ) (array : Bytes) :
    encoder.Prepends (encoder.prependByteArrayBlock type array)
      (Tlv.prependByteArrayBlock type array) :=
  ((encoder.prependByteArray_spec array).comp (prependVarNumber_spec _ array.length)).comp
    (prependVarNumber_spec _ type)

theorem appendByteArrayBlock_spec (encoder : Encoder) (type : ℕ) (array : Bytes) :
    encoder.Appends (encoder.appendByteArrayBlock type array)
      (Tlv.prependByteArrayBlock type array) := by
  have hwhole := ((encoder.appendVarNumber_spec type).comp
    (appendVarNumber_spec _ array.length)).comp (appendByteArray_spec _ array)
  rw [List.append_assoc] at hwhole
  exact hwhole

theorem prependBlock_spec (encoder : Encoder) (block : Block.Element) :
    encoder.Prepends (encoder.prependBlock block) block.prependBlock := by
  obtain ⟨type, content⟩ := block
  cases content with
  | wire value wire => exact encoder.prependByteArray_spec _
  | value value => exact encoder.prependByteArrayBlock_spec type value
  | empty => exact encoder.prependByteArrayBlock_spec type []

theorem appendBlock_spec (encoder : Encoder) (block : Block.Element) :
    encoder.Appends (encoder.appendBlock block) block.prependBlock := by
  obtain ⟨type, content⟩ := block
  cases content with
  | wire value wire => exact encoder.appendByteArray_spec _
  | value value => exact encoder.appendByteArrayBlock_spec type value
  | empty => exact encoder.appendByteArrayBlock_spec type []

end Encoder

/-! ## The estimator -/

namespace Estimator

/-- `Estimator::prependByteArray`, and `appendByteArray` -/
def prependByteArray (array : Bytes) : ℕ := array.length

/-- `Estimator::prependVarNumber`, and `appendVarNumber` -/
def prependVarNumber (varNumber : ℕ) : ℕ :=
  if varNumber < 253 then 1
  else if varNumber ≤ 2 ^ 16 - 1 then 3
  else if varNumber ≤ 2 ^ 32 - 1 then 5
  else 9

/-- `Estimator::prependNonNegativeInteger`, and `appendNonNegativeInteger` -/
def prependNonNegativeInteger (varNumber : ℕ) : ℕ :=
  if varNumber ≤ 2 ^ 8 - 1 then 1
  else if varNumber ≤ 2 ^ 16 - 1 then 2
  else if varNumber ≤ 2 ^ 32 - 1 then 4
  else 8

/-- `Estimator::prependByteArrayBlock`, and `appendByteArrayBlock` -/
def prependByteArrayBlock (type : ℕ) (array : Bytes) : ℕ :=
  array.length + prependVarNumber array.length + prependVarNumber type

def prependBlock (block : Block.Element) : ℕ :=
  match block.content with
  | .wire _ wire => wire.length % 2 ^ 32
  | .value value => prependByteArrayBlock block.type value
  | .empty => prependByteArrayBlock block.type []

theorem prependVarNumber_eq (varNumber : ℕ) :
    prependVarNumber varNumber = (Tlv.writeVarNumber varNumber).length := by
  rw [Tlv.length_writeVarNumber]
  rfl

theorem prependNonNegativeInteger_eq (varNumber : ℕ) :
    prependNonNegativeInteger varNumber = (Tlv.prependNonNegativeInteger varNumber).length := by
  rw [Tlv.prependNonNegativeInteger, Bytes.length_ofNumber]
  rfl

theorem prependByteArrayBlock_eq (type : ℕ) (array : Bytes) :
    prependByteArrayBlock type array = (Tlv.prependByteArrayBlock type array).length := by
  simp only [prependByteArrayBlock, Tlv.prependByteArrayBlock, List.length_append,
    prependVarNumber_eq]
  omega

theorem prependBlock_eq (block : Block.Element) :
    prependBlock block = block.prependBlock.length := by
  obtain ⟨type, content⟩ := block
  cases content with
  | wire value wire =>
    have hle : wire.length % 2 ^ 32 ≤ wire.length := Nat.mod_le _ _
    simp only [prependBlock, Block.Element.prependBlock, Block.prependWire, List.length_take]
    omega
  | value value => exact prependByteArrayBlock_eq type value
  | empty => exact prependByteArrayBlock_eq type []

end Estimator

/-! ## Sequences of operations -/

/-- What is prepended or appended. -/
inductive Operand
  | byte (value : UInt8)
  | byteArray (array : Bytes)
  | range (elements : Bytes)
  | varNumber (number : ℕ)
  | nonNegativeInteger (number : ℕ)
  | byteArrayBlock (type : ℕ) (array : Bytes)
  | block (source : Block)

namespace Operand

def bytes : Operand → Bytes
  | .byte value => [value]
  | .byteArray array => array
  | .range elements => elements
  | .varNumber number => Tlv.writeVarNumber number
  | .nonNegativeInteger number => Tlv.prependNonNegativeInteger number
  | .byteArrayBlock type array => Tlv.prependByteArrayBlock type array
  | .block source => source.wire

def written : Operand → Bytes
  | .block source => Block.prependWire source.wire
  | operand => operand.bytes

/-- A block is shorter than what `Block::size` can report. -/
def Fits : Operand → Prop
  | .block source => source.wire.length < 2 ^ 32
  | _ => True

theorem length_written_le (operand : Operand) : operand.written.length ≤ operand.bytes.length := by
  cases operand with
  | block source => exact List.length_take_le' _ _
  | _ => exact le_rfl

variable {operand : Operand}

theorem written_eq_of_fits (hfits : operand.Fits) : operand.written = operand.bytes := by
  cases operand with
  | block source => exact Block.prependWire_eq hfits
  | _ => rfl

theorem fits_of_length_written_eq (hlength : operand.written.length = operand.bytes.length) :
    operand.Fits := by
  cases operand with
  | block source =>
    have hlt : source.wire.length % 2 ^ 32 < 2 ^ 32 := Nat.mod_lt _ (by decide)
    have hcount : min (source.wire.length % 2 ^ 32) source.wire.length = source.wire.length := by
      simpa only [written, bytes, Block.prependWire, List.length_take] using hlength
    change source.wire.length < 2 ^ 32
    omega
  | _ => trivial

end Operand

/-- A call on an encoder. The reallocations may be asked for as well. -/
inductive Operation
  | prepend (operand : Operand)
  | append (operand : Operand)
  | reserve (size : ℕ) (addInFront : Bool)
  | reserveFront (size : ℕ)
  | reserveBack (size : ℕ)

namespace Operation

def applyTo (deque : Bytes) : Operation → Bytes
  | .prepend operand => operand.bytes ++ deque
  | .append operand => deque ++ operand.bytes
  | _ => deque

/-- The effect on the content of an encoder. -/
def writeTo (content : Bytes) : Operation → Bytes
  | .prepend operand => operand.written ++ content
  | .append operand => content ++ operand.written
  | _ => content

/-- The operand is shorter than what `Block::size` can report. -/
def Fits : Operation → Prop
  | .prepend operand => operand.Fits
  | .append operand => operand.Fits
  | _ => True

end Operation

namespace Encoder

/-- The number that a call returns, if it returns one, and the encoder after it. -/
def perform (encoder : Encoder) : Operation → Option ℕ × Encoder
  | .prepend operand =>
      let (count, next) := match operand with
        | .byte value => encoder.prependByte value
        | .byteArray array => encoder.prependByteArray array
        | .range range => encoder.prependRange range
        | .varNumber varNumber => encoder.prependVarNumber varNumber
        | .nonNegativeInteger varNumber => encoder.prependNonNegativeInteger varNumber
        | .byteArrayBlock type array => encoder.prependByteArrayBlock type array
        | .block block => encoder.prependBlock block.toElement
      (some count, next)
  | .append operand =>
      let (count, next) := match operand with
        | .byte value => encoder.appendByte value
        | .byteArray array => encoder.appendByteArray array
        | .range range => encoder.appendRange range
        | .varNumber varNumber => encoder.appendVarNumber varNumber
        | .nonNegativeInteger varNumber => encoder.appendNonNegativeInteger varNumber
        | .byteArrayBlock type array => encoder.appendByteArrayBlock type array
        | .block block => encoder.appendBlock block.toElement
      (some count, next)
  | .reserve size addInFront => (none, encoder.reserve size addInFront)
  | .reserveFront size => (none, encoder.reserveFront size)
  | .reserveBack size => (none, encoder.reserveBack size)

/-- All calls in order, with the numbers they return. -/
def performAll (encoder : Encoder) : List Operation → List (Option ℕ) × Encoder
  | [] => ([], encoder)
  | operation :: operations =>
      let (returned, next) := encoder.perform operation
      let (later, finish) := performAll next operations
      (returned :: later, finish)

end Encoder

/-- The number that the same call returns on an estimator; it has no buffer to reallocate. -/
def Estimator.perform : Operation → Option ℕ
  | .prepend operand | .append operand => some (match operand with
      | .byte _ => 1
      | .byteArray array => prependByteArray array
      | .range range => range.length
      | .varNumber varNumber => prependVarNumber varNumber
      | .nonNegativeInteger varNumber => prependNonNegativeInteger varNumber
      | .byteArrayBlock type array => prependByteArrayBlock type array
      | .block block => prependBlock block.toElement)
  | _ => none

theorem Estimator.perform_prepend (operand : Operand) :
    Estimator.perform (.prepend operand) = some operand.written.length := by
  cases operand with
  | byte value => rfl
  | byteArray array => rfl
  | range range => rfl
  | varNumber varNumber => exact congrArg some (prependVarNumber_eq varNumber)
  | nonNegativeInteger varNumber => exact congrArg some (prependNonNegativeInteger_eq varNumber)
  | byteArrayBlock type array => exact congrArg some (prependByteArrayBlock_eq type array)
  | block block => exact congrArg some (prependBlock_eq block.toElement)

theorem Estimator.perform_append (operand : Operand) :
    Estimator.perform (.append operand) = some operand.written.length :=
  Estimator.perform_prepend operand

namespace Encoder

theorem perform_prepend_spec (encoder : Encoder) (operand : Operand) :
    (encoder.perform (.prepend operand)).1 = some operand.written.length ∧
      (encoder.perform (.prepend operand)).2.content = operand.written ++ encoder.content := by
  have hspec : ∃ result, encoder.perform (.prepend operand) = (some result.1, result.2) ∧
      encoder.Prepends result operand.written := by
    cases operand with
    | byte value => exact ⟨_, rfl, encoder.prependByte_spec value⟩
    | byteArray array => exact ⟨_, rfl, encoder.prependByteArray_spec array⟩
    | range range => exact ⟨_, rfl, encoder.prependByteArray_spec range⟩
    | varNumber varNumber => exact ⟨_, rfl, encoder.prependVarNumber_spec varNumber⟩
    | nonNegativeInteger varNumber =>
      exact ⟨_, rfl, encoder.prependNonNegativeInteger_spec varNumber⟩
    | byteArrayBlock type array => exact ⟨_, rfl, encoder.prependByteArrayBlock_spec type array⟩
    | block block => exact ⟨_, rfl, encoder.prependBlock_spec block.toElement⟩
  obtain ⟨result, hresult, hcontent, hcount⟩ := hspec
  rw [hresult]
  exact ⟨congrArg some hcount, hcontent⟩

theorem perform_append_spec (encoder : Encoder) (operand : Operand) :
    (encoder.perform (.append operand)).1 = some operand.written.length ∧
      (encoder.perform (.append operand)).2.content = encoder.content ++ operand.written := by
  have hspec : ∃ result, encoder.perform (.append operand) = (some result.1, result.2) ∧
      encoder.Appends result operand.written := by
    cases operand with
    | byte value => exact ⟨_, rfl, encoder.appendByte_spec value⟩
    | byteArray array => exact ⟨_, rfl, encoder.appendByteArray_spec array⟩
    | range range => exact ⟨_, rfl, encoder.appendByteArray_spec range⟩
    | varNumber varNumber => exact ⟨_, rfl, encoder.appendVarNumber_spec varNumber⟩
    | nonNegativeInteger varNumber =>
      exact ⟨_, rfl, encoder.appendNonNegativeInteger_spec varNumber⟩
    | byteArrayBlock type array => exact ⟨_, rfl, encoder.appendByteArrayBlock_spec type array⟩
    | block block => exact ⟨_, rfl, encoder.appendBlock_spec block.toElement⟩
  obtain ⟨result, hresult, hcontent, hcount⟩ := hspec
  rw [hresult]
  exact ⟨congrArg some hcount, hcontent⟩

/-- One call: what it returns, and what it leaves in the encoder. -/
theorem perform_spec (encoder : Encoder) (operation : Operation) :
    (encoder.perform operation).1 = Estimator.perform operation ∧
      (encoder.perform operation).2.content = operation.writeTo encoder.content := by
  cases operation with
  | prepend operand =>
    rw [Estimator.perform_prepend]
    exact encoder.perform_prepend_spec operand
  | append operand =>
    rw [Estimator.perform_append]
    exact encoder.perform_append_spec operand
  | reserve size addInFront => exact ⟨rfl, encoder.content_reserve size addInFront⟩
  | reserveFront size => exact ⟨rfl, encoder.content_reserveFront size⟩
  | reserveBack size => exact ⟨rfl, encoder.content_reserveBack size⟩

/-- A whole sequence of calls, whatever reallocations they cause. -/
theorem performAll_spec (encoder : Encoder) (operations : List Operation) :
    (encoder.performAll operations).1 = operations.map Estimator.perform ∧
      (encoder.performAll operations).2.content =
        operations.foldl Operation.writeTo encoder.content := by
  induction operations generalizing encoder with
  | nil => exact ⟨rfl, rfl⟩
  | cons operation operations ih =>
    obtain ⟨hreturned, hcontent⟩ := encoder.perform_spec operation
    obtain ⟨hlater, hfinish⟩ := ih (encoder.perform operation).2
    refine ⟨?_, ?_⟩
    · rw [List.map_cons, ← hreturned, ← hlater]
      rfl
    · rw [List.foldl_cons, ← hcontent, ← hfinish]
      rfl

/-- The encoder behaves as a byte deque over a sequence of calls: the content is that of the deque,
`block` is made of exactly this content, the numbers returned are those of the estimator, and each of
them is the number of bytes added. -/
structure BehavesAsDeque (start : Encoder) (operations : List Operation) : Prop where
  content : (start.performAll operations).2.content =
    operations.foldl Operation.applyTo start.content
  block : ∀ block, (start.performAll operations).2.block = .ok block ↔
    block.wire = operations.foldl Operation.applyTo start.content ∧ block.IsWire
  returned : (start.performAll operations).1 = operations.map Estimator.perform
  added : ∀ done operation later, operations = done ++ operation :: later →
    (start.performAll (done ++ [operation])).2.size =
      (start.performAll done).2.size + (Estimator.perform operation).getD 0

theorem length_content_eq_size (encoder : Encoder) : encoder.content.length = encoder.size :=
  encoder.length_content

theorem length_writeTo (content : Bytes) (operation : Operation) :
    (operation.writeTo content).length =
      content.length + (Estimator.perform operation).getD 0 := by
  cases operation with
  | prepend operand =>
    rw [Estimator.perform_prepend, Operation.writeTo, List.length_append, Nat.add_comm]
    rfl
  | append operand =>
    rw [Estimator.perform_append, Operation.writeTo, List.length_append]
    rfl
  | _ => rfl

theorem size_performAll_append (start : Encoder) (done : List Operation) (operation : Operation) :
    (start.performAll (done ++ [operation])).2.size =
      (start.performAll done).2.size + (Estimator.perform operation).getD 0 := by
  rw [← length_content_eq_size, ← length_content_eq_size, (performAll_spec _ _).2,
    (performAll_spec _ _).2, List.foldl_append]
  exact length_writeTo _ operation

variable {content : Bytes} {operations : List Operation}

theorem writeTo_eq_of_fits {operation : Operation} (hfits : operation.Fits) :
    operation.writeTo content = operation.applyTo content := by
  cases operation with
  | prepend operand => rw [Operation.writeTo, Operand.written_eq_of_fits hfits]; rfl
  | append operand => rw [Operation.writeTo, Operand.written_eq_of_fits hfits]; rfl
  | _ => rfl

theorem foldl_writeTo_eq_of_fits (hfits : ∀ operation ∈ operations, operation.Fits) :
    operations.foldl Operation.writeTo content = operations.foldl Operation.applyTo content := by
  induction operations generalizing content with
  | nil => rfl
  | cons operation operations ih =>
    obtain ⟨hfirst, hlater⟩ := List.forall_mem_cons.mp hfits
    rw [List.foldl_cons, List.foldl_cons, writeTo_eq_of_fits hfirst, ih hlater]

variable {deque : Bytes}

/-- The bytes by which the deque is ahead of the encoder after an operation. -/
theorem length_writeTo_le_applyTo (operation : Operation) (hle : content.length ≤ deque.length) :
    (operation.writeTo content).length ≤ (operation.applyTo deque).length ∧
      ((operation.writeTo content).length = (operation.applyTo deque).length →
        content.length = deque.length ∧ operation.Fits) := by
  cases operation with
  | prepend operand =>
    have hoperand := operand.length_written_le
    simp only [Operation.writeTo, Operation.applyTo, List.length_append]
    refine ⟨by omega, fun hequal ↦ ⟨by omega, Operand.fits_of_length_written_eq (by omega)⟩⟩
  | append operand =>
    have hoperand := operand.length_written_le
    simp only [Operation.writeTo, Operation.applyTo, List.length_append]
    refine ⟨by omega, fun hequal ↦ ⟨by omega, Operand.fits_of_length_written_eq (by omega)⟩⟩
  | _ => exact ⟨hle, fun hequal ↦ ⟨hequal, trivial⟩⟩

/-- An encoder that has lost bytes never catches up. -/
theorem fits_of_length_foldl_eq (hle : content.length ≤ deque.length)
    (hequal : (operations.foldl Operation.writeTo content).length =
      (operations.foldl Operation.applyTo deque).length) :
    content.length = deque.length ∧ ∀ operation ∈ operations, operation.Fits := by
  induction operations generalizing content deque with
  | nil => exact ⟨hequal, by simp⟩
  | cons operation operations ih =>
    obtain ⟨hnext, hback⟩ := length_writeTo_le_applyTo operation hle
    obtain ⟨hsame, hlater⟩ := ih hnext hequal
    obtain ⟨hstart, hfirst⟩ := hback hsame
    exact ⟨hstart, List.forall_mem_cons.mpr ⟨hfirst, hlater⟩⟩

theorem content_make (totalReserve reserveFromBack : ℕ) :
    (make totalReserve reserveFromBack).content = [] :=
  Window.content_emptyAt _ _ _ _

/-- For every initial size and reserve, an encoder behaves as a byte deque over exactly those
sequences whose blocks all fit into `Block::size`. -/
theorem behavesAsDeque_iff_fits (totalReserve reserveFromBack : ℕ)
    (operations : List Operation) :
    (make totalReserve reserveFromBack).BehavesAsDeque operations ↔
      ∀ operation ∈ operations, operation.Fits := by
  constructor
  · intro hdeque
    have hcontent := hdeque.content
    rw [(performAll_spec _ _).2] at hcontent
    exact (fits_of_length_foldl_eq le_rfl (congrArg List.length hcontent)).2
  · intro hfits
    have hcontent : ((make totalReserve reserveFromBack).performAll operations).2.content =
        operations.foldl Operation.applyTo (make totalReserve reserveFromBack).content := by
      rw [(performAll_spec _ _).2, foldl_writeTo_eq_of_fits hfits]
    exact {
      content := hcontent
      block := by
        intro block
        rw [Encoder.block, hcontent]
        exact Block.fromWire_eq_ok_iff
      returned := (performAll_spec _ _).1
      added := fun done operation _ _ ↦ size_performAll_append _ done operation }

/-- A block whose wire has exactly `2 ^ 32` bytes leaves no byte in the encoder. -/
theorem prepend_wrapping_block_not_deque :
    (Block.ofValue Tlv.content (List.replicate (2 ^ 32 - 6) 0)).IsWire ∧
      ¬ (make 0 0).BehavesAsDeque
        [.prepend (.block (Block.ofValue Tlv.content (List.replicate (2 ^ 32 - 6) 0)))] := by
  have hlength : (Block.ofValue Tlv.content (List.replicate (2 ^ 32 - 6) 0)).wire.length =
      2 ^ 32 := by
    rw [Block.length_wire_ofValue, List.length_replicate]
    decide
  refine ⟨Block.ofValue_isWire (by decide) (by rw [List.length_replicate]; decide), ?_⟩
  intro hdeque
  have hcontent := congrArg List.length hdeque.content
  rw [(performAll_spec _ _).2, content_make] at hcontent
  have hfits := (fits_of_length_foldl_eq le_rfl hcontent).2 _ List.mem_cons_self
  exact absurd hfits (by change ¬ (_ < 2 ^ 32); rw [hlength]; exact lt_irrefl _)

end Encoder

end NdnCxx
