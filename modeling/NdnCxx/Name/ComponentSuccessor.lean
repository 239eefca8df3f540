import NdnCxx.Encoding.Encoder
import NdnCxx.Encoding.SubElements
import NdnCxx.Name.Successor

/-!
# Successors of component objects

A `Component` object is a block in one of its states. `getSuccessor` asks the block for its size to
choose the encoder's buffer, and a block that has neither a wire nor a value has no size, although its
value is the empty one everywhere else. What is encoded goes through `Component(const Block&)` again,
which does not accept a digest that has grown by a byte.
-/

namespace NdnCxx

/-- `hasWire() || hasValue()` -/
def Block.Element.hasSize (element : Element) : Bool := element.content != .empty

variable {element : Element}

theorem Block.Element.size_of_hasSize (hsize : element.hasSize = true) :
    ∃ size, element.size = .ok size := by
  obtain ⟨type, content⟩ := element
  cases content with
  | wire value wire => exact ⟨_, rfl⟩
  | value value => exact ⟨_, rfl⟩
  | empty => simp [hasSize] at hsize

theorem Block.Element.size_of_not_hasSize (hsize : ¬ element.hasSize = true) :
    element.size = .error ⟨.block, "Block size cannot be determined (undefined block size)"⟩ := by
  obtain ⟨type, content⟩ := element
  cases content with
  | wire value wire => exact absurd rfl hsize
  | value value => exact absurd rfl hsize
  | empty => rfl

namespace Component

/-! ## Encoding the successor -/

/-- The loop of `Component::getSuccessor` and the `prependByteArray` behind it, over the bytes from the
last one on: `isOverflow`, `totalLength` and the encoder. -/
def prependIncremented : List UInt8 → ℕ → Encoder → Bool × ℕ × Encoder
  | [], totalLength, encoder =>
      let (length, encoder) := encoder.prependByteArray []
      (true, totalLength + length, encoder)
  | byte :: earlier, totalLength, encoder =>
      let newValue := byte + 1
      let (length, encoder) := encoder.prependByte newValue
      if newValue == 0 then prependIncremented earlier (totalLength + length) encoder
      else
        let (rest, encoder) := encoder.prependByteArray earlier.reverse
        (false, totalLength + length + rest, encoder)

/-- `Component::getSuccessor` of a block in any state -/
def encodeSuccessor (component : Block.Element) : Except Error Component := do
  let size ← component.size
  let (isOverflow, totalLength, encoder) :=
    prependIncremented component.value.reverse 0 (.make (size + 1) 1)
  let (length, encoder) := if isOverflow then encoder.appendByte 0 else (0, encoder)
  let encoder := (encoder.prependVarNumber (totalLength + length)).2
  let encoder := (encoder.prependVarNumber component.type).2
  let block ← encoder.block
  ofBlock block.type block.value

theorem increment_concat (front : Bytes) (byte : UInt8) :
    increment (front ++ [byte]) =
      if byte + 1 == 0 then ((increment front).1, (increment front).2 ++ [byte + 1])
      else (false, front ++ [byte + 1]) := by
  induction front with
  | nil =>
    by_cases hoverflow : (byte + 1 == 0) = true
    · simp [increment, hoverflow]
    · simp [increment, hoverflow]
  | cons first front ih =>
    rw [List.cons_append, increment, ih]
    by_cases hoverflow : (byte + 1 == 0) = true
    · rw [if_pos hoverflow, if_pos hoverflow, increment]
      cases increment front with
      | mk isOverflow later => cases isOverflow <;> rfl
    · rw [if_neg hoverflow, if_neg hoverflow]
      rfl

/-- The loop puts the incremented value in front of what the encoder holds. -/
theorem prependIncremented_spec (reversed : List UInt8) (totalLength : ℕ) (encoder : Encoder) :
    (prependIncremented reversed totalLength encoder).1 = (increment reversed.reverse).1 ∧
      (prependIncremented reversed totalLength encoder).2.1 = totalLength + reversed.length ∧
      (prependIncremented reversed totalLength encoder).2.2.content =
        (increment reversed.reverse).2 ++ encoder.content := by
  induction reversed generalizing totalLength encoder with
  | nil => exact ⟨rfl, rfl, (encoder.prependByteArray_spec []).1⟩
  | cons byte earlier ih =>
    have hbyte := encoder.prependByte_spec (byte + 1)
    rw [List.reverse_cons, increment_concat, List.length_cons]
    by_cases hoverflow : (byte + 1 == 0) = true
    · obtain ⟨hflag, hlength, hcontent⟩ :=
        ih (totalLength + (encoder.prependByte (byte + 1)).1) (encoder.prependByte (byte + 1)).2
      simp only [prependIncremented, hoverflow, if_true]
      refine ⟨hflag, ?_, ?_⟩
      · rw [hlength, hbyte.2, List.length_singleton]
        omega
      · rw [hcontent, hbyte.1, List.append_assoc]
    · have hrest := (encoder.prependByte (byte + 1)).2.prependByteArray_spec earlier.reverse
      simp only [prependIncremented, hoverflow, Bool.false_eq_true, if_false]
      refine ⟨trivial, ?_, ?_⟩
      · rw [hbyte.2, hrest.2, List.length_singleton, List.length_reverse]
        omega
      · rw [hrest.1, hbyte.1, List.append_assoc]

theorem ofBlock_of_isValid {component : Component} (hvalid : component.IsValid) :
    ofBlock component.type component.value = .ok component := by
  unfold ofBlock
  dsimp only
  split_ifs with hinvalid
  · rcases hvalid with hgeneric | hdigest
    · rw [hgeneric] at hinvalid
      simp at hinvalid
    · rw [hdigest] at hinvalid
      simp at hinvalid
  · rfl

variable {component : Block.Element}

/-- What is encoded is the next value, also where it has become longer. -/
theorem encodeSuccessor_of_hasSize (hsize : component.hasSize = true)
    (htype : component.type < 2 ^ 32) (hfits : component.value.length < 2 ^ 63) :
    encodeSuccessor component = getSuccessor ⟨component.type, component.value⟩ := by
  obtain ⟨size, hok⟩ := Block.Element.size_of_hasSize hsize
  obtain ⟨hflag, hlength, hcontent⟩ :=
    prependIncremented_spec component.value.reverse 0 (.make (size + 1) 1)
  have hnext : (nextValue component.value).length < 2 ^ 64 := by
    rcases nextValue_cases component.value with ⟨hsame, -⟩ | ⟨hlonger, -, -⟩ <;> omega
  rw [List.reverse_reverse] at hflag hcontent
  rw [Encoder.content_make, List.append_nil] at hcontent
  rw [Nat.zero_add, List.length_reverse, ← length_increment] at hlength
  rw [encodeSuccessor, hok]
  simp only [bind, Except.bind]
  generalize prependIncremented component.value.reverse 0 (.make (size + 1) 1) = looped at *
  obtain ⟨isOverflow, totalLength, encoder⟩ := looped
  dsimp only at hflag hlength hcontent ⊢
  -- the bytes of the value and their number, with the appended zero if there is one
  have hvalue : ((if isOverflow then encoder.appendByte 0 else (0, encoder)).2.content =
      nextValue component.value) ∧
      totalLength + (if isOverflow then encoder.appendByte 0 else (0, encoder)).1 =
        (nextValue component.value).length := by
    rw [nextValue]
    generalize increment component.value = incremented at *
    obtain ⟨isOverflow', later⟩ := incremented
    dsimp only at hflag hlength hcontent
    subst hflag
    cases isOverflow with
    | false => exact ⟨hcontent, by simpa using hlength⟩
    | true =>
      have happend := encoder.appendByte_spec 0
      rw [if_pos rfl, happend.1, happend.2, hcontent, hlength]
      exact ⟨rfl, by simp⟩
  have hblock : ((((if isOverflow then encoder.appendByte 0 else (0, encoder)).2.prependVarNumber
      (totalLength + (if isOverflow then encoder.appendByte 0 else (0, encoder)).1)).2).prependVarNumber
        component.type).2.block = .ok (Block.ofValue component.type (nextValue component.value)) := by
    rw [Encoder.block, (Encoder.prependVarNumber_spec _ _).1, (Encoder.prependVarNumber_spec _ _).1,
      hvalue.1, hvalue.2]
    exact Block.makeBinaryBlock_eq htype hnext
  rw [hblock]
  rfl

theorem encodeSuccessor_of_not_hasSize (hsize : ¬ component.hasSize = true) :
    encodeSuccessor component =
      .error ⟨.block, "Block size cannot be determined (undefined block size)"⟩ := by
  rw [encodeSuccessor, Block.Element.size_of_not_hasSize hsize]
  rfl

/-! ## Digests -/

def maxDigest : Component := ⟨Tlv.implicitSha256DigestComponent, List.replicate 32 255⟩

/-- Of the valid components only the greatest digest has a next value that its type does not admit. -/
theorem isValid_nextValue {component : Component} (hvalid : component.IsValid)
    (hmax : component ≠ maxDigest) : IsValid ⟨component.type, nextValue component.value⟩ := by
  rcases hvalid with hgeneric | hdigest
  · exact .inl hgeneric
  · obtain ⟨type, value⟩ := component
    obtain ⟨htype, hlength⟩ : type = Tlv.implicitSha256DigestComponent ∧ value.length = 32 := by
      simpa [isImplicitSha256Digest, Tlv.sha256DigestSize] using hdigest
    subst htype
    apply Or.inr
    rcases nextValue_cases value with ⟨hsame, -⟩ | ⟨-, -, hgreatest⟩
    · rw [hlength] at hsame
      simp [isImplicitSha256Digest, Tlv.sha256DigestSize, hsame]
    · -- the value is the greatest of its length
      have hnumber : Bytes.toNumber value = Bytes.toNumber (List.replicate 32 255) := by
        have htop : Bytes.toNumber (List.replicate 32 255) + 1 = 256 ^ 32 := by decide +kernel
        rw [hlength] at hgreatest
        omega
      have hsize : value.length = (List.replicate 32 (255 : UInt8)).length := by
        rw [hlength, List.length_replicate]
      have hvalue : value = List.replicate 32 255 :=
        Bytes.eq_of_memcmp_eq hsize
          (by rw [Bytes.memcmp_eq_compare hsize, hnumber, compare_eq_iff_eq])
      exact absurd (by rw [hvalue]; rfl) hmax

end Component

/-! ## Accepted components -/

/-- A `Component` object as its constructors accept it; the value lies in memory. -/
structure StoredComponent where
  element : Block.Element
  isValid : Component.IsValid ⟨element.type, element.value⟩
  fits : element.value.length < 2 ^ 63

namespace StoredComponent

def component (stored : StoredComponent) : Component := ⟨stored.element.type, stored.element.value⟩

def default : StoredComponent where
  element := ⟨Tlv.nameComponent, .empty⟩
  isValid := .inl rfl
  fits := by decide

/-- `Component::fromImplicitSha256Digest`, of thirty-two bytes 0xFF -/
def ofMaxDigest : StoredComponent where
  element := (Block.ofValue Component.maxDigest.type Component.maxDigest.value).toElement
  isValid := .inr rfl
  fits := by decide

def getSuccessor (stored : StoredComponent) : Except Error Component :=
  Component.encodeSuccessor stored.element

/-- A valid component of the same type is returned, and no other one lies between the two. -/
def HasSuccessor (stored : StoredComponent) : Prop :=
  ∃ successor, stored.getSuccessor = .ok successor ∧ successor.type = stored.component.type ∧
    successor.IsValid ∧ stored.component < successor ∧
    ∀ other : Component, other.IsValid → other.type = stored.component.type →
      ¬ (stored.component < other ∧ other < successor)

/-- A component has a successor if its block has a size, and it is not the greatest digest. -/
theorem hasSuccessor_iff (stored : StoredComponent) :
    stored.HasSuccessor ↔
      stored.element.hasSize = true ∧ stored.component ≠ Component.maxDigest := by
  have htype : stored.element.type < 2 ^ 32 := by
    rcases stored.isValid with hgeneric | hdigest
    · have hgeneric : stored.element.type = Tlv.nameComponent := by
        simpa [Component.isGeneric] using hgeneric
      rw [hgeneric]
      decide
    · have hdigest : stored.element.type = Tlv.implicitSha256DigestComponent := by
        simp only [Component.isImplicitSha256Digest, Bool.and_eq_true, beq_iff_eq] at hdigest
        exact hdigest.1
      rw [hdigest]
      decide
  constructor
  · rintro ⟨successor, hok, -⟩
    have hsize : stored.element.hasSize = true := by
      by_contra hnone
      rw [getSuccessor, Component.encodeSuccessor_of_not_hasSize hnone] at hok
      cases hok
    refine ⟨hsize, ?_⟩
    intro hmax
    have hfail : Component.maxDigest.getSuccessor.isOk = false := by decide +kernel
    have hencode := Component.encodeSuccessor_of_hasSize hsize htype stored.fits
    rw [← component, hmax] at hencode
    rw [← hencode, ← getSuccessor, hok] at hfail
    cases hfail
  · rintro ⟨hsize, hmax⟩
    have hvalid := Component.isValid_nextValue stored.isValid hmax
    have hok : stored.getSuccessor =
        .ok ⟨stored.element.type, Component.nextValue stored.element.value⟩ := by
      rw [getSuccessor, Component.encodeSuccessor_of_hasSize hsize htype stored.fits]
      exact Component.ofBlock_of_isValid hvalid
    have hcovered := Component.covBy_nextValue stored.component
    refine ⟨_, hok, rfl, hvalid, hcovered.1, ?_⟩
    intro other _ _ hbetween
    exact hcovered.2 hbetween.1 hbetween.2

/-- The default-constructed component has no size, and the greatest digest no successor. -/
theorem not_hasSuccessor_default :
    default.getSuccessor =
        .error ⟨.block, "Block size cannot be determined (undefined block size)"⟩ ∧
      ¬ default.HasSuccessor ∧
      ofMaxDigest.getSuccessor = .error ⟨.component,
        "Cannot construct name::Component from not a NameComponent " ++
          "or ImplicitSha256DigestComponent TLV wire block"⟩ ∧
      ¬ ofMaxDigest.HasSuccessor := by
  have hdefault : default.getSuccessor =
      .error ⟨.block, "Block size cannot be determined (undefined block size)"⟩ := by decide
  have hdigest : ofMaxDigest.getSuccessor = .error ⟨.component,
      "Cannot construct name::Component from not a NameComponent " ++
        "or ImplicitSha256DigestComponent TLV wire block"⟩ := by decide +kernel
  refine ⟨hdefault, ?_, hdigest, ?_⟩
  · rintro ⟨successor, hok, -⟩
    rw [hdefault] at hok
    cases hok
  · rintro ⟨successor, hok, -⟩
    rw [hdigest] at hok
    cases hok

end StoredComponent

end NdnCxx
