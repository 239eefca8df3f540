import NdnCxx.Encoding.Encoder
import NdnCxx.Encoding.SubElements

/-!
# Adding block objects to an encoder

`Block::encode` tells a value from sub-elements that were never encoded. `Encoder::prependBlock` and
`Encoder::appendBlock` look for a wire only, and take everything else for a value. A block whose wire
has been reset by `push_back` or its like has lost its value too, so that its sub-elements are left
out.
-/

namespace NdnCxx

namespace Block

namespace Unencoded

/-- What the encoder sees of a block: it does not look at the sub-elements. -/
def toElement (block : Unencoded) : Element := ⟨block.type, block.content⟩

/-- The sub-elements that `parse` would leave of a value. -/
def elementsOf (value : Bytes) : List Block := (parseInto value.length [] value).2

/-- How many sub-elements the block has: a value holds its own, without a value they are those that
were added. -/
def countElements (block : Unencoded) : ℕ :=
  match block.content with
  | .wire value _ => (elementsOf value).length
  | .value value => (elementsOf value).length
  | .empty => block.subBlocks.length

/-- `prependBlock` and `appendBlock` add the bytes that `encode` would produce, and these have all the
sub-elements of the block. -/
def AddsEncoded (block : Unencoded) : Prop :=
  ∃ encoded, block.encode = .ok encoded ∧
    (∀ encoder : Encoder,
      encoder.Prepends (encoder.prependBlock block.toElement) encoded.wire ∧
        encoder.Appends (encoder.appendBlock block.toElement) encoded.wire) ∧
    block.countElements ≤ (elementsOf encoded.value).length

/-! ## Changing a block -/

def resetWire (block : Unencoded) : Unencoded := { block with content := .empty }

/-- The members of `Block` that change the sub-elements; positions stand for iterators. -/
inductive Edit
  | pushBack (element : Element)
  | insert (pos : ℕ) (element : Element)
  | erase (position : ℕ)
  | eraseRange (first last : ℕ)
  | remove (type : ℕ)
  | resetWire

/-- `Block::push_back`, `insert`, `erase`, `remove` and `resetWire`; each of them resets the wire. -/
def edit (block : Unencoded) : Edit → Unencoded
  | .pushBack element => { block.resetWire with subBlocks := block.subBlocks ++ [element] }
  | .insert pos element => { block.resetWire with subBlocks := block.subBlocks.insertIdx pos element }
  | .erase position => { block.resetWire with subBlocks := block.subBlocks.eraseIdx position }
  | .eraseRange first last =>
      { block.resetWire with subBlocks := block.subBlocks.take first ++ block.subBlocks.drop last }
  | .remove type =>
      { block.resetWire with
        subBlocks := block.subBlocks.filter fun subBlock ↦ subBlock.type != type }
  | .resetWire => block.resetWire

theorem type_edit (block : Unencoded) (change : Edit) : (block.edit change).type = block.type := by
  cases change <;> rfl

theorem content_edit (block : Unencoded) (change : Edit) :
    (block.edit change).content = .empty := by
  cases change <;> rfl

/-! ## Agreement with encode -/

variable {encoded : Block} {block : Unencoded}

theorem wire_of_assignWire {type : ℕ} {wire : Bytes}
    (hassign : assignWire type wire = .ok encoded) : encoded.wire = wire := by
  rw [assignWire, bind_eq_ok_iff] at hassign
  obtain ⟨_, -, hassign⟩ := hassign
  rw [bind_eq_ok_iff] at hassign
  obtain ⟨_, -, hassign⟩ := hassign
  cases hassign
  rfl

/-- Where the sub-elements are encoded, the result is what `assignWire` makes of its wire. -/
theorem assignWire_of_encode (hempty : block.content = .empty)
    (hencode : block.encode = .ok encoded) : assignWire block.type encoded.wire = .ok encoded := by
  have hassign {wire : Bytes} (h : assignWire block.type wire = .ok encoded) :
      assignWire block.type encoded.wire = .ok encoded := by
    rw [wire_of_assignWire h]
    exact h
  rw [encode, hempty] at hencode
  dsimp only at hencode
  split_ifs at hencode
  · exact hassign hencode
  · rw [bind_eq_ok_iff] at hencode
    obtain ⟨sizes, -, hencode⟩ := hencode
    rw [bind_eq_ok_iff] at hencode
    obtain ⟨written, -, hencode⟩ := hencode
    exact hassign hencode

/-- A block that is encoded as the encoder adds it agrees with it. -/
theorem addsEncoded_of_encode (hencode : block.encode = .ok encoded)
    (hwire : block.toElement.prependBlock = encoded.wire)
    (hcount : block.countElements ≤ (elementsOf encoded.value).length) : block.AddsEncoded := by
  refine ⟨encoded, hencode, ?_, hcount⟩
  intro encoder
  rw [← hwire]
  exact ⟨encoder.prependBlock_spec block.toElement, encoder.appendBlock_spec block.toElement⟩

/-- The encoder adds what it is given, so the encoded bytes are these. -/
theorem wire_eq_of_addsEncoded (hadds : ∀ encoder : Encoder,
      encoder.Prepends (encoder.prependBlock block.toElement) encoded.wire ∧
      encoder.Appends (encoder.appendBlock block.toElement) encoded.wire) :
    encoded.wire = block.toElement.prependBlock := by
  have hspec := ((Encoder.make 0 0).prependBlock_spec block.toElement).1
  rw [(hadds (.make 0 0)).1.1, Encoder.content_make, List.append_nil, List.append_nil] at hspec
  exact hspec

end Unencoded

/-- A `Block` object: the type has 32 bits, and the value lies in memory. -/
structure Object extends Unencoded where
  type_lt : type < 2 ^ 32
  value_lt : toUnencoded.value.length < 2 ^ 63

namespace Object

/-- The members of `Block` that change the sub-elements keep the type, and there is no value left. -/
def edit (block : Object) (change : Unencoded.Edit) : Object where
  toUnencoded := block.toUnencoded.edit change
  type_lt := by
    rw [Unencoded.type_edit]
    exact block.type_lt
  value_lt := by
    have hempty : (block.toUnencoded.edit change).value = [] := by
      rw [Unencoded.value, Unencoded.content_edit]
      rfl
    rw [hempty]
    decide

/-- There is a wire of less than 2^32 bytes, or a value, or no sub-element. -/
def KeepsElements (block : Object) : Prop :=
  block.toUnencoded.toElement.Fits ∧ (block.content = .empty → block.subBlocks = [])

/-- A wire that does not fit is not taken to its end. -/
theorem lt_of_prependWire_eq {wire : Bytes} (hwhole : wire = prependWire wire) :
    wire.length < 2 ^ 32 := by
  have hlength := congrArg List.length hwhole
  rw [prependWire, List.length_take] at hlength
  have hsmall : wire.length % 2 ^ 32 < 2 ^ 32 := Nat.mod_lt _ (by decide)
  omega

variable {block : Object}

theorem keepsElements_of_addsEncoded (hadds : block.AddsEncoded) : block.KeepsElements := by
  obtain ⟨encoded, hencode, hadded, hcount⟩ := hadds
  have hwire := Unencoded.wire_eq_of_addsEncoded hadded
  obtain ⟨⟨type, content, subBlocks⟩, htype, hvalue⟩ := block
  cases content with
  | wire value wire =>
    cases hencode
    exact ⟨lt_of_prependWire_eq hwire, by simp⟩
  | value value => exact ⟨trivial, by simp⟩
  | empty =>
    refine ⟨trivial, fun _ ↦ ?_⟩
    -- what is added is an empty element, which has no sub-elements
    have hassign := Unencoded.assignWire_of_encode rfl hencode
    have hempty : assignWire type (Tlv.prependByteArrayBlock type []) = .ok (ofValue type []) :=
      assignWire_prependByteArrayBlock htype (by simp)
    rw [hwire] at hassign
    obtain rfl : encoded = ofValue type [] := Except.ok.inj (hassign.symm.trans hempty)
    exact List.length_eq_zero_iff.mp (Nat.le_zero.mp hcount)

theorem addsEncoded_of_keepsElements (hkeeps : block.KeepsElements) : block.AddsEncoded := by
  obtain ⟨hfits, hnone⟩ := hkeeps
  obtain ⟨⟨type, content, subBlocks⟩, htype, hvalue⟩ := block
  cases content with
  | wire value wire =>
    exact Unencoded.addsEncoded_of_encode rfl (prependWire_eq hfits) le_rfl
  | value value =>
    have hlength : value.length < 2 ^ 64 := hvalue.trans (by decide)
    exact Unencoded.addsEncoded_of_encode (assignWire_prependByteArrayBlock htype hlength) rfl le_rfl
  | empty =>
    obtain rfl : subBlocks = [] := hnone rfl
    have hencode : Unencoded.encode ⟨type, .empty, []⟩ = .ok (ofValue type []) := by
      rw [Unencoded.encode]
      simp only [List.isEmpty_nil, if_true]
      rw [← prependByteArrayBlock_nil]
      exact assignWire_prependByteArrayBlock htype (by simp)
    exact Unencoded.addsEncoded_of_encode hencode rfl (Nat.zero_le _)

theorem addsEncoded_iff_keepsElements (block : Object) :
    block.AddsEncoded ↔ block.KeepsElements :=
  ⟨keepsElements_of_addsEncoded, addsEncoded_of_keepsElements⟩

/-- A block is added to an encoder as it encodes if it has a wire that fits, a value or no sub-elements;
after any change of its sub-elements that means that none is left. -/
theorem addsEncoded_iff (block : Object) :
    (block.AddsEncoded ↔ block.KeepsElements) ∧
      ∀ change, (block.edit change).AddsEncoded ↔ (block.edit change).subBlocks = [] := by
  refine ⟨block.addsEncoded_iff_keepsElements, ?_⟩
  intro change
  have hcontent : (block.edit change).content = .empty := block.toUnencoded.content_edit change
  rw [addsEncoded_iff_keepsElements, KeepsElements, hcontent]
  constructor
  · rintro ⟨-, hnone⟩
    exact hnone rfl
  · intro hnone
    refine ⟨?_, fun _ ↦ hnone⟩
    rw [Element.Fits, Unencoded.toElement, hcontent]
    trivial

/-- A name of one component, as `Name::append` leaves it -/
def ofPushBack : Object where
  type := Tlv.name
  content := .empty
  subBlocks := [⟨Tlv.nameComponent, .wire [65] [8, 1, 65]⟩]
  type_lt := by decide
  value_lt := by decide

/-- The encoder gets an empty name. -/
theorem not_addsEncoded_ofPushBack :
    ofPushBack.encode = .ok ⟨7, [8, 1, 65], [7, 3, 8, 1, 65]⟩ ∧
      ((Encoder.make 0 0).prependBlock ofPushBack.toUnencoded.toElement).2.content = [7, 0] ∧
      ¬ ofPushBack.AddsEncoded := by
  refine ⟨by decide, by decide, ?_⟩
  intro hadds
  have hkeeps := keepsElements_of_addsEncoded hadds
  exact absurd (hkeeps.2 rfl) (by decide)

end Object

end Block

end NdnCxx
