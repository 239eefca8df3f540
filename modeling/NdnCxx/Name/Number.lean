import NdnCxx.Name.Name

/-!
# Numbers in name components

The naming conventions: a marker byte followed by a non-negative integer in its shortest encoding.
Shorter encodings hold smaller numbers and components compare by length before they compare
bytewise, so the canonical order of two such components is the order of their numbers.
-/

namespace NdnCxx

namespace Component

def segmentMarker : UInt8 := 0x00

def isEmpty (component : Component) : Bool := component.value.length == 0

def isNumberWithMarker (marker : UInt8) (component : Component) : Bool :=
  !component.isEmpty && component.value.head? == some marker &&
    (component.value.length == 2 || component.value.length == 3 || component.value.length == 5 ||
      component.value.length == 9)

def toNumberWithMarker (marker : UInt8) (component : Component) : Except Error ℕ :=
  if !component.isNumberWithMarker marker then
    .error ⟨.component, "Name component does not have the requested marker " ++
      "or the value is not a nonNegativeInteger"⟩
  else Tlv.readNonNegativeInteger (component.value.length - 1) component.value.tail

def fromNumberWithMarker (marker : UInt8) (number : ℕ) : Component :=
  generic (marker :: Tlv.prependNonNegativeInteger number)

def fromNumber (number : ℕ) : Component := generic (Tlv.prependNonNegativeInteger number)

def isSegment : Component → Bool := isNumberWithMarker segmentMarker

def toSegment : Component → Except Error ℕ := toNumberWithMarker segmentMarker

def fromSegment : ℕ → Component := fromNumberWithMarker segmentMarker

def sequenceNumberMarker : UInt8 := 0xfe

def toSequenceNumber : Component → Except Error ℕ := toNumberWithMarker sequenceNumberMarker

def fromSequenceNumber : ℕ → Component := fromNumberWithMarker sequenceNumberMarker

def versionMarker : UInt8 := 0xfd

def isVersion : Component → Bool := isNumberWithMarker versionMarker

def fromVersion : ℕ → Component := fromNumberWithMarker versionMarker

theorem isNumberWithMarker_fromNumberWithMarker (marker : UInt8) (number : ℕ) :
    (fromNumberWithMarker marker number).isNumberWithMarker marker = true := by
  rcases Tlv.prependNonNegativeIntegerSize_cases number with h | h | h | h <;>
    simp [isNumberWithMarker, fromNumberWithMarker, generic, isEmpty,
      Tlv.prependNonNegativeInteger, h]

variable {number : ℕ}

theorem toNumberWithMarker_fromNumberWithMarker (marker : UInt8) (hnumber : number < 2 ^ 64) :
    (fromNumberWithMarker marker number).toNumberWithMarker marker = .ok number := by
  rw [toNumberWithMarker, isNumberWithMarker_fromNumberWithMarker]
  simpa [fromNumberWithMarker, generic, Tlv.prependNonNegativeInteger] using
    Tlv.readNonNegativeInteger_prepend hnumber

theorem toNumber_fromNumber (hnumber : number < 2 ^ 64) :
    (fromNumber number).toNumber = .ok number := by
  have hlength : (Tlv.prependNonNegativeInteger number).length =
      Tlv.prependNonNegativeIntegerSize number := Bytes.length_ofNumber _ number
  have hnumeric : (fromNumber number).isNumber = true := by
    rcases Tlv.prependNonNegativeIntegerSize_cases number with h | h | h | h <;>
      simp [isNumber, fromNumber, generic, hlength, h]
  rw [toNumber, hnumeric]
  simpa [fromNumber, generic, hlength] using Tlv.readNonNegativeInteger_prepend hnumber

theorem generic_type (value other : Bytes) : (generic value).type = (generic other).type := rfl

variable {number' segment : ℕ}

/-- Integers behind the same bytes are ordered as the numbers are: the widths being equal, the bytes
compare as the numbers do; otherwise the widths decide, and the wider encoding belongs to the larger
number. -/
theorem compare_generic_append (front : Bytes) (hnumber : number < 2 ^ 64)
    (hnumber' : number' < 2 ^ 64) :
    (generic (front ++ Tlv.prependNonNegativeInteger number)).compare
        (generic (front ++ Tlv.prependNonNegativeInteger number')) =
      Ord.compare number number' := by
  have hlength (number : ℕ) : (generic (front ++ Tlv.prependNonNegativeInteger number)).value.length =
      front.length + Tlv.prependNonNegativeIntegerSize number := by
    simp [generic, Tlv.prependNonNegativeInteger]
  have hless {first second : ℕ}
      (h : Tlv.prependNonNegativeIntegerSize first < Tlv.prependNonNegativeIntegerSize second) :
      (generic (front ++ Tlv.prependNonNegativeInteger first)).compare
        (generic (front ++ Tlv.prependNonNegativeInteger second)) = .lt :=
    compare_eq_lt_iff.mpr (.inr ⟨rfl, .inl (by rw [hlength, hlength]; omega)⟩)
  rcases lt_trichotomy (Tlv.prependNonNegativeIntegerSize number)
    (Tlv.prependNonNegativeIntegerSize number') with h | h | h
  · rw [hless h, compare_lt_iff_lt.mpr (Tlv.lt_of_prependNonNegativeIntegerSize_lt h)]
  · have hsame : (generic (front ++ Tlv.prependNonNegativeInteger number)).value.length =
        (generic (front ++ Tlv.prependNonNegativeInteger number')).value.length := by
      rw [hlength, hlength, h]
    have hfits := Tlv.lt_pow_prependNonNegativeIntegerSize hnumber
    have hfits' := Tlv.lt_pow_prependNonNegativeIntegerSize hnumber'
    have hcompare := compare_eq_of_types (generic_type _ _) hsame
    rw [hcompare]
    simp only [generic, Bytes.memcmp_append_left, Tlv.prependNonNegativeInteger, ← h]
    rw [Bytes.memcmp_ofNumber, Nat.mod_eq_of_lt hfits, Nat.mod_eq_of_lt (h ▸ hfits')]
  · rw [← compare_swap, hless h,
      compare_gt_iff_gt.mpr (Tlv.lt_of_prependNonNegativeIntegerSize_lt h)]
    rfl

theorem compare_fromNumberWithMarker (marker : UInt8) (hnumber : number < 2 ^ 64)
    (hnumber' : number' < 2 ^ 64) :
    (fromNumberWithMarker marker number).compare (fromNumberWithMarker marker number') =
      Ord.compare number number' := compare_generic_append [marker] hnumber hnumber'

theorem compare_fromNumber (hnumber : number < 2 ^ 64) (hnumber' : number' < 2 ^ 64) :
    (fromNumber number).compare (fromNumber number') = Ord.compare number number' :=
  compare_generic_append [] hnumber hnumber'

theorem fromSegment_lt_fromSegment {segment' : ℕ} (hsegment : segment < 2 ^ 64)
    (hsegment' : segment' < 2 ^ 64) :
    fromSegment segment < fromSegment segment' ↔ segment < segment' := by
  rw [lt_iff_compare, fromSegment, compare_fromNumberWithMarker _ hsegment hsegment',
    compare_lt_iff_lt]

theorem isSegment_fromSegment (segment : ℕ) : (fromSegment segment).isSegment = true :=
  isNumberWithMarker_fromNumberWithMarker segmentMarker segment

theorem toSegment_fromSegment (hsegment : segment < 2 ^ 64) :
    (fromSegment segment).toSegment = .ok segment :=
  toNumberWithMarker_fromNumberWithMarker segmentMarker hsegment

/-- Segment components with the same value bytes are for the same segment. -/
theorem fromSegment_inj {segment' : ℕ} (hsegment : segment < 2 ^ 64) (hsegment' : segment' < 2 ^ 64)
    (hvalue : (fromSegment segment).value = (fromSegment segment').value) : segment = segment' := by
  have heq : fromSegment segment = fromSegment segment' := by
    simpa [fromSegment, fromNumberWithMarker, generic] using hvalue
  have hread := toSegment_fromSegment hsegment
  rw [heq, toSegment_fromSegment hsegment'] at hread
  cases hread
  rfl

end Component

def Name.appendSegment (name : Name) (segmentNo : ℕ) : Name :=
  name ++ [Component.fromSegment segmentNo]

def Name.appendSequenceNumber (name : Name) (seqNo : ℕ) : Name :=
  name ++ [Component.fromSequenceNumber seqNo]

end NdnCxx
