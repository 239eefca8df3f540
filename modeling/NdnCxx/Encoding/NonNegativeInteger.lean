import NdnCxx.Encoding.Stream
import NdnCxx.Encoding.Writer

/-!
# Widths of non-negative integers

A non-negative integer takes one, two, four or eight bytes. The encoder and the estimator choose the
width by what fits into it. The functions of `tlv.hpp` that write to a stream and announce a size go
over to two bytes at 253 already, which is where a VAR-NUMBER needs a marker. The readers are told the
width, so either form is read back, but the bytes differ for 253, 254 and 255.
-/

namespace NdnCxx

variable {number : ℕ}

namespace Tlv

def sizeOfNonNegativeInteger (varNumber : ℕ) : ℕ :=
  if varNumber < 253 then 1
  else if varNumber ≤ 2 ^ 16 - 1 then 2
  else if varNumber ≤ 2 ^ 32 - 1 then 4
  else 8

/-- `tlv::writeNonNegativeInteger`: what it returns, and the bytes it puts into the stream. -/
def writeNonNegativeInteger (varNumber : ℕ) : ℕ × Bytes :=
  if varNumber < 253 then (1, [UInt8.ofNat varNumber])
  else if varNumber ≤ 2 ^ 16 - 1 then (2, Bytes.ofNumber 2 varNumber)
  else if varNumber ≤ 2 ^ 32 - 1 then (4, Bytes.ofNumber 4 varNumber)
  else (8, Bytes.ofNumber 8 varNumber)

/-- The numbers for which the two thresholds disagree. -/
def IsBetweenThresholds (number : ℕ) : Prop := 253 ≤ number ∧ number ≤ 255

instance (number : ℕ) : Decidable (IsBetweenThresholds number) :=
  inferInstanceAs (Decidable (_ ∧ _))

theorem sizeOfNonNegativeInteger_eq (hnot : ¬ IsBetweenThresholds number) :
    sizeOfNonNegativeInteger number = prependNonNegativeIntegerSize number := by
  unfold IsBetweenThresholds at hnot
  unfold sizeOfNonNegativeInteger prependNonNegativeIntegerSize
  split_ifs <;> omega

/-- What is written has the announced size. -/
theorem writeNonNegativeInteger_eq (number : ℕ) :
    writeNonNegativeInteger number = (sizeOfNonNegativeInteger number,
      Bytes.ofNumber (sizeOfNonNegativeInteger number) number) := by
  unfold writeNonNegativeInteger sizeOfNonNegativeInteger
  split_ifs
  · simp [Bytes.ofNumber]
  all_goals rfl

theorem sizes_of_isBetweenThresholds (hbetween : IsBetweenThresholds number) :
    sizeOfNonNegativeInteger number = 2 ∧ prependNonNegativeIntegerSize number = 1 := by
  obtain ⟨hlower, hupper⟩ := hbetween
  unfold sizeOfNonNegativeInteger prependNonNegativeIntegerSize
  constructor
  · rw [if_neg (by omega), if_pos (by omega)]
  · rw [if_pos (by omega)]

/-- The bytes behind an integer do not matter to its reader. -/
theorem readNonNegativeInteger_append (hnumber : number < 2 ^ 64) (tail : Bytes) :
    readNonNegativeInteger (prependNonNegativeInteger number).length
      (prependNonNegativeInteger number ++ tail) = .ok number := by
  have hread := readFixed_ofNumber_append (lt_pow_prependNonNegativeIntegerSize hnumber) tail
  rw [prependNonNegativeInteger, Bytes.length_ofNumber, readNonNegativeInteger,
    if_pos (prependNonNegativeIntegerSize_cases number), hread]

end Tlv

namespace StreamIterator

/-- `tlv::readNonNegativeInteger<std::istream_iterator<uint8_t>>`, whose loops over the octets run as
often as the size says -/
def readNonNegativeInteger (size : ℕ) (begin : StreamIterator) :
    Except Error (ℕ × StreamIterator) :=
  if size = 1 ∨ size = 2 ∨ size = 4 ∨ size = 8 then
    match readOctets size 0 begin with
    | none => .error ⟨.tlv, "Insufficient data during TLV processing"⟩
    | some result => .ok result
  else
    .error ⟨.tlv, "Invalid length for nonNegativeInteger (only 1, 2, 4, and 8 are allowed)"⟩

/-- The reader on a stream finds the integer and stops behind it. -/
theorem readNonNegativeInteger_append (hnumber : number < 2 ^ 64) (tail : Bytes)
    {iterator : StreamIterator}
    (hholds : iterator.Holds (Tlv.prependNonNegativeInteger number ++ tail)) :
    ∃ next, iterator.readNonNegativeInteger (Tlv.prependNonNegativeInteger number).length =
      .ok (number, next) ∧ next.Holds tail := by
  have hagree := readOctets_agree_readFixed (Tlv.prependNonNegativeIntegerSize number) hholds
  have hread := Tlv.readFixed_ofNumber_append
    (Tlv.lt_pow_prependNonNegativeIntegerSize hnumber) tail
  rw [Tlv.prependNonNegativeInteger, hread] at hagree
  rw [Tlv.prependNonNegativeInteger, Bytes.length_ofNumber, readNonNegativeInteger,
    if_pos (Tlv.prependNonNegativeIntegerSize_cases number)]
  cases hfound : readOctets (Tlv.prependNonNegativeIntegerSize number) 0 iterator with
  | none =>
    rw [hfound] at hagree
    cases hagree
  | some found =>
    rw [hfound] at hagree
    obtain ⟨hvalue, hnext⟩ : found.1 = number ∧ found.2.Holds tail := by
      cases hagree with
      | some hpair => exact hpair
    exact ⟨found.2, by rw [← hvalue], hnext⟩

end StreamIterator

/-! ## Blocks -/

namespace Block

/-- `encoding::makeNonNegativeIntegerBlock`; the estimate is the size of the encoder's buffer. -/
def makeNonNegativeIntegerBlock (type number : ℕ) : Except Error Block := do
  let valueLength := Estimator.prependNonNegativeInteger number
  let totalLength := valueLength + Estimator.prependVarNumber valueLength +
    Estimator.prependVarNumber type
  let (_, encoder) ← Encoder.Writer.nonNegativeIntegerBlock type number (.make totalLength 0)
  encoder.block

theorem makeNonNegativeIntegerBlock_eq {type : ℕ} (htype : type < 2 ^ 32) (number : ℕ) :
    makeNonNegativeIntegerBlock type number =
      .ok (ofValue type (Tlv.prependNonNegativeInteger number)) := by
  have hshort : (Tlv.prependNonNegativeInteger number).length < 2 ^ 64 := by
    have hsize := Tlv.prependNonNegativeIntegerSize_cases number
    rw [Tlv.prependNonNegativeInteger, Bytes.length_ofNumber]
    omega
  obtain ⟨result, hresult, hprepends⟩ := Encoder.Writer.puts_nonNegativeIntegerBlock type number
    (.make (Estimator.prependNonNegativeInteger number +
      Estimator.prependVarNumber (Estimator.prependNonNegativeInteger number) +
        Estimator.prependVarNumber type) 0)
  have hcontent : result.2.content = prependNonNegativeIntegerBlock type number := by
    rw [hprepends.1, Encoder.content_make, List.append_nil]
  have hblock : result.2.block = .ok (ofValue type (Tlv.prependNonNegativeInteger number)) := by
    rw [Encoder.block, hcontent]
    exact makeBinaryBlock_eq htype hshort
  simp only [makeNonNegativeIntegerBlock, hresult, bind, Except.bind]
  exact hblock

end Block

/-! ## Agreement -/

/-- Every writer puts down these bytes, every size is their number, and every reader returns the
integer from them. -/
structure IsIntegerValue (number : ℕ) (value : Bytes) : Prop where
  written : Tlv.writeNonNegativeInteger number = (value.length, value)
  prepended : ∀ encoder : Encoder,
    encoder.Prepends (encoder.prependNonNegativeInteger number) value
  appended : ∀ encoder : Encoder, encoder.Appends (encoder.appendNonNegativeInteger number) value
  block : ∀ type < 2 ^ 32, ∃ block, Block.makeNonNegativeIntegerBlock type number = .ok block ∧
    block.type = type ∧ block.value = value
  size : Tlv.sizeOfNonNegativeInteger number = value.length
  estimated : Estimator.prependNonNegativeInteger number = value.length
  read : ∀ tail, Tlv.readNonNegativeInteger value.length (value ++ tail) = .ok number
  readFromStream : ∀ tail (iterator : StreamIterator), iterator.Holds (value ++ tail) →
    ∃ next, iterator.readNonNegativeInteger value.length = .ok (number, next) ∧ next.Holds tail

theorem isIntegerValue_prepend (hnumber : number < 2 ^ 64)
    (hnot : ¬ Tlv.IsBetweenThresholds number) :
    IsIntegerValue number (Tlv.prependNonNegativeInteger number) where
  written := by
    rw [Tlv.writeNonNegativeInteger_eq, Tlv.sizeOfNonNegativeInteger_eq hnot,
      Tlv.prependNonNegativeInteger, Bytes.length_ofNumber]
  prepended := fun encoder ↦ encoder.prependNonNegativeInteger_spec number
  appended := fun encoder ↦ encoder.appendNonNegativeInteger_spec number
  block := fun type htype ↦ ⟨_, Block.makeNonNegativeIntegerBlock_eq htype number, rfl, rfl⟩
  size := by
    rw [Tlv.sizeOfNonNegativeInteger_eq hnot, Tlv.prependNonNegativeInteger, Bytes.length_ofNumber]
  estimated := Estimator.prependNonNegativeInteger_eq number
  read := Tlv.readNonNegativeInteger_append hnumber
  readFromStream := fun tail _ hholds ↦
    StreamIterator.readNonNegativeInteger_append hnumber tail hholds

/-- The writers, the sizes and the readers of a 64-bit number agree except between the thresholds. -/
theorem isIntegerValue_iff (number : UInt64) :
    (∃ value, IsIntegerValue number.toNat value) ↔
      ¬ Tlv.IsBetweenThresholds number.toNat := by
  constructor
  · rintro ⟨value, hvalue⟩ hbetween
    obtain ⟨hsize, hprepend⟩ := Tlv.sizes_of_isBetweenThresholds hbetween
    have hsame : Tlv.prependNonNegativeIntegerSize number.toNat =
        Tlv.sizeOfNonNegativeInteger number.toNat :=
      hvalue.estimated.trans hvalue.size.symm
    omega
  · intro hnot
    exact ⟨_, isIntegerValue_prepend number.toNat_lt hnot⟩

/-- The stream gets two bytes for 253, the encoder one. -/
theorem not_isIntegerValue_253 :
    Tlv.writeNonNegativeInteger 253 = (2, [0, 253]) ∧
      Tlv.prependNonNegativeInteger 253 = [253] ∧
      ¬ ∃ value, IsIntegerValue 253 value := by
  refine ⟨by decide, by decide, ?_⟩
  rintro ⟨value, hvalue⟩
  have hsame := hvalue.size.trans hvalue.estimated.symm
  exact absurd hsame (by decide)

end NdnCxx
