import NdnCxx.Encoding.NonNegativeInteger
import NdnCxx.Name.Successor
import NdnCxx.Util.SegmentFetcher

/-!
# Numbers of segments

A number in a name component is written by the encoder in its shortest form, behind a marker if there
is one. It is read back by the width of what is left behind the marker, and since the canonical order
looks at the length first, components are ordered as their numbers are. The fetcher relies on this
where it compares the component of a segment with the final block.
-/

namespace NdnCxx

namespace Component

/-! ## Components as the encoder writes them -/

/-- `Component::fromNumber`, which makes a component of `makeNonNegativeIntegerBlock` -/
def encodeNumber (number : ℕ) : Except Error Component := do
  let block ← Block.makeNonNegativeIntegerBlock Tlv.nameComponent number
  ofBlock block.type block.value

/-- What `Component::fromNumberWithMarker` prepends to an encoder -/
def prependNumberWithMarker (marker : UInt8) (number valueLength : ℕ) (encoder : Encoder) : Encoder :=
  let withNumber := (encoder.prependNonNegativeInteger number).2
  let withMarker := (withNumber.prependByteArray [marker]).2
  let withLength := (withMarker.prependVarNumber valueLength).2
  (withLength.prependVarNumber Tlv.nameComponent).2

/-- `Component::fromNumberWithMarker`, on an encoder of the estimated size -/
def encodeNumberWithMarker (marker : UInt8) (number : ℕ) : Except Error Component := do
  let valueLength := Estimator.prependNonNegativeInteger number + Estimator.prependByteArray [marker]
  let totalLength := valueLength + Estimator.prependVarNumber valueLength +
    Estimator.prependVarNumber Tlv.nameComponent
  let block ← (prependNumberWithMarker marker number valueLength (.make totalLength 0)).block
  ofBlock block.type block.value

theorem encodeNumber_eq (number : ℕ) : encodeNumber number = .ok (fromNumber number) := by
  rw [encodeNumber, Block.makeNonNegativeIntegerBlock_eq (by decide)]
  rfl

theorem content_prependNumberWithMarker (marker : UInt8) (number valueLength : ℕ)
    (encoder : Encoder) :
    (prependNumberWithMarker marker number valueLength encoder).content =
      Tlv.writeVarNumber Tlv.nameComponent ++ (Tlv.writeVarNumber valueLength ++
        (marker :: Tlv.prependNonNegativeInteger number ++ encoder.content)) := by
  simp only [prependNumberWithMarker]
  rw [(Encoder.prependVarNumber_spec _ _).1, (Encoder.prependVarNumber_spec _ _).1,
    (Encoder.prependByteArray_spec _ _).1, (Encoder.prependNonNegativeInteger_spec _ _).1]
  rfl

theorem encodeNumberWithMarker_eq (marker : UInt8) (number : ℕ) :
    encodeNumberWithMarker marker number = .ok (fromNumberWithMarker marker number) := by
  let value := marker :: Tlv.prependNonNegativeInteger number
  have hlength : value.length =
      Estimator.prependNonNegativeInteger number + Estimator.prependByteArray [marker] := by
    rw [Estimator.prependNonNegativeInteger_eq]
    rfl
  have hshort : value.length < 2 ^ 64 := by
    have hsize := Tlv.prependNonNegativeIntegerSize_cases number
    rw [hlength, Estimator.prependNonNegativeInteger_eq, Tlv.prependNonNegativeInteger,
      Bytes.length_ofNumber]
    simp only [Estimator.prependByteArray, List.length_singleton]
    omega
  have hblock (totalLength : ℕ) : (prependNumberWithMarker marker number value.length
      (.make totalLength 0)).block = .ok (Block.ofValue Tlv.nameComponent value) := by
    rw [Encoder.block, content_prependNumberWithMarker, Encoder.content_make, List.append_nil]
    exact Block.makeBinaryBlock_eq (by decide) hshort
  rw [encodeNumberWithMarker, ← hlength, hblock]
  rfl

end Component

/-! ## The end of a fetch -/

namespace SegmentFetcher

/-- The fetcher asks for the next segment while the final block is a later one. -/
theorem afterValidationSuccess_eq {segment finalSegment : ℕ} (hsegment : segment < 2 ^ 64)
    (hfinal : finalSegment < 2 ^ 64) (fetcher : SegmentFetcher) {data : Data} {stem : Name}
    (hname : data.name = stem ++ [Component.fromSegment segment])
    (hfinalBlockId : data.finalBlockId = Component.fromSegment finalSegment)
    (origInterest : Interest) :
    fetcher.afterValidationSuccess data false origInterest =
      let received := { fetcher with buffer := fetcher.buffer ++ data.content }
      some (if segment < finalSegment then
        received.fetchNextSegment origInterest data.name ((segment + 1) % 2 ^ 64)
      else { received with completions := received.completions ++ [received.buffer] }) := by
  have hempty : (Component.fromSegment finalSegment).isEmpty = false := by
    simp [Component.fromSegment, Component.fromNumberWithMarker, Component.generic,
      Component.isEmpty]
  have hlater := Component.fromSegment_lt_fromSegment hsegment hfinal
  simp only [afterValidationSuccess, hname, Name.get_append_singleton, hfinalBlockId, hempty,
    Component.isSegment_fromSegment, Component.toSegment_fromSegment hsegment, hlater,
    Bool.false_and, Bool.false_or, gt_iff_lt, decide_eq_true_eq, Bool.false_eq_true, if_false,
    if_true, Except.toOption, Option.bind_eq_bind, Option.bind_some, Option.pure_def]
  split_ifs <;> rfl

end SegmentFetcher

/-- Numbers are read back from their components, components are ordered as their numbers are, and the
fetcher ends at the segment that is not before the final one. -/
theorem Component.numbers_ordered (marker : UInt8) (number number' : UInt64) :
    (∃ component component', encodeNumberWithMarker marker number.toNat = .ok component ∧
      encodeNumberWithMarker marker number'.toNat = .ok component' ∧
      component.toNumberWithMarker marker = .ok number.toNat ∧
      component.compare component' = Ord.compare number.toNat number'.toNat) ∧
    (∃ component component', encodeNumber number.toNat = .ok component ∧
      encodeNumber number'.toNat = .ok component' ∧ component.toNumber = .ok number.toNat ∧
      component.compare component' = Ord.compare number.toNat number'.toNat) ∧
    ∀ (fetcher : SegmentFetcher) (data : Data) (stem : Name) (origInterest : Interest),
      let segment := { data with
        name := stem ++ [fromSegment number.toNat], finalBlockId := fromSegment number'.toNat }
      let received := { fetcher with buffer := fetcher.buffer ++ data.content }
      fetcher.afterValidationSuccess segment false origInterest =
        some (if number.toNat < number'.toNat then
          received.fetchNextSegment origInterest segment.name ((number.toNat + 1) % 2 ^ 64)
        else { received with completions := received.completions ++ [received.buffer] }) := by
  have hnumber := number.toNat_lt
  have hnumber' := number'.toNat_lt
  refine ⟨?_, ?_, ?_⟩
  · exact ⟨_, _, encodeNumberWithMarker_eq marker _, encodeNumberWithMarker_eq marker _,
      toNumberWithMarker_fromNumberWithMarker marker hnumber,
      compare_fromNumberWithMarker marker hnumber hnumber'⟩
  · exact ⟨_, _, encodeNumber_eq _, encodeNumber_eq _, toNumber_fromNumber hnumber,
      compare_fromNumber hnumber hnumber'⟩
  · intro fetcher data stem origInterest segment received
    exact fetcher.afterValidationSuccess_eq hnumber hnumber' rfl rfl origInterest

end NdnCxx
