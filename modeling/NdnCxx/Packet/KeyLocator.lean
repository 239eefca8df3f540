import NdnCxx.Encoding.Elements
import NdnCxx.Foundation.CodeStore
import NdnCxx.Name.Successor
import NdnCxx.Packet.Data

/-!
# Key locators

The objects of the packet classes keep their wire: `wireEncode` stores what it has encoded, the
mutators discard it, and `wireDecode` stores what it has read. They are modelled in `Packet` with
all their members, apart from the received packets whose contents do not change. A key locator
keeps the member of a content that it no longer has, hidden behind its type.
-/

namespace NdnCxx

/-! ## Names -/

def Component.wireEncode (component : Component) : Bytes :=
  Tlv.prependByteArrayBlock component.type component.value

def Name.wireEncode (name : Name) : Bytes :=
  Tlv.prependByteArrayBlock Tlv.name (name.flatMap Component.wireEncode)

def Name.IsWellFormed (name : Name) : Prop := ∀ component ∈ name, component.type < 2 ^ 32

instance (name : Name) : Decidable name.IsWellFormed :=
  inferInstanceAs (Decidable (∀ component ∈ name, component.type < 2 ^ 32))

def Component.toBlock (component : Component) : Block :=
  Block.ofValue component.type component.value

variable {component : Component}

theorem Component.IsValid.type_cases (hvalid : component.IsValid) :
    component.type = Tlv.nameComponent ∨ component.type = Tlv.implicitSha256DigestComponent := by
  rcases hvalid with hgeneric | hdigest
  · left
    simpa [Component.isGeneric] using hgeneric
  · right
    simp only [Component.isImplicitSha256Digest, Bool.and_eq_true, beq_iff_eq] at hdigest
    exact hdigest.1

theorem Component.IsValid.type_lt (hvalid : component.IsValid) : component.type < 2 ^ 32 := by
  rcases hvalid.type_cases with htype | htype <;> rw [htype] <;> decide

theorem Component.ofBlock_toBlock (hvalid : component.IsValid) :
    Component.ofBlock component.toBlock.type component.toBlock.value = .ok component := by
  have hcheck : (!component.isGeneric && !component.isImplicitSha256Digest) = false := by
    rcases hvalid with hgeneric | hdigest
    · simp [hgeneric]
    · simp [hdigest]
  change (if (!component.isGeneric && !component.isImplicitSha256Digest) = true then _
    else Except.ok component) = _
  rw [hcheck]
  rfl

def Name.toBlock (name : Name) : Block := Block.ofElements Tlv.name (name.map Component.toBlock)

theorem Name.wireEncode_eq (name : Name) : name.wireEncode = name.toBlock.wire := by
  simp only [Name.wireEncode, Name.toBlock, Block.ofElements, Block.ofValue, List.flatMap_map]
  rfl

theorem Name.wireDecode_toBlock {name : Name} (hwell : name.IsWellFormed)
    (hsize : name.toBlock.wire.length < 2 ^ 64) : Name.wireDecode name.toBlock = .ok name := by
  have hwires : ∀ element ∈ name.map Component.toBlock, element.IsWire := by
    intro element hmem
    have hshort := Block.length_wire_lt_of_mem hsize hmem
    obtain ⟨component, hcomponent, rfl⟩ := List.mem_map.mp hmem
    exact Block.ofValue_isWire_of_length (hwell component hcomponent) hshort
  have hparse : Block.parse name.toBlock.value = .ok (name.map Component.toBlock) :=
    Block.parse_ofElements hwires
  have htype : name.toBlock.type = Tlv.name := rfl
  have hread : (name.map Component.toBlock).map (fun element ↦ Component.mk element.type element.value)
      = name := by
    rw [List.map_map]
    exact List.map_id name
  rw [Name.wireDecode, if_neg (not_not.mpr htype), hparse]
  simp only [bind, Except.bind, pure, Except.pure, hread]

namespace Packet

/-- The end of `wireEncode()`: the buffer becomes a block, and its length is verified. -/
def bufferBlock (buffer : Bytes) : Except Error Bytes := (Block.fromWire buffer).map Block.wire

theorem bufferBlock_eq_ok_iff {type : ℕ} {value wire : Bytes} (htype : type < 2 ^ 32) :
    bufferBlock (Tlv.prependByteArrayBlock type value) = .ok wire ↔
      value.length < 2 ^ 64 ∧ wire = (Block.ofValue type value).wire := by
  have hread := @Block.fromWire_prependByteArrayBlock_eq_ok_iff type value
  cases hresult : Block.fromWire (Tlv.prependByteArrayBlock type value) with
  | error error =>
    have hlong : ¬ value.length < 2 ^ 64 := by
      intro hshort
      have hok := (hread htype).mpr ⟨hshort, rfl⟩
      rw [hresult] at hok
      cases hok
    simp only [bufferBlock, hresult, Except.map, reduceCtorEq, false_iff, not_and]
    intro hshort
    exact absurd hshort hlong
  | ok block =>
    obtain ⟨hshort, rfl⟩ := (hread htype).mp hresult
    simp only [bufferBlock, hresult, Except.map, Except.ok.injEq]
    exact ⟨fun hwire ↦ ⟨hshort, hwire.symm⟩, fun hwire ↦ hwire.2.symm⟩

theorem bufferBlock_ofElements {type : ℕ} {elements : List Block} (htype : type < 2 ^ 32)
    (hsize : (Block.ofElements type elements).wire.length < 2 ^ 64) :
    bufferBlock (Block.ofElements type elements).wire =
      .ok (Block.ofElements type elements).wire := by
  rw [bufferBlock, Block.fromWire_ofElements htype hsize]
  rfl

/-- `KeyLocator::Type` -/
inductive KeyLocator.Kind
  | none
  | name
  | keyDigest
  | unknown
  deriving DecidableEq, Repr

/-- A `KeyLocator` with its members. -/
structure KeyLocator where
  type : KeyLocator.Kind := .none
  name : Name := []
  keyDigest : Block.Element := .none
  wire : Option Bytes := none
  deriving DecidableEq

namespace KeyLocator

def isEmpty (keyLocator : KeyLocator) : Bool := keyLocator.type == .none

def getName (keyLocator : KeyLocator) : Except Error Name :=
  if keyLocator.type ≠ .name then .error ⟨.keyLocator, "KeyLocator type is not Name"⟩
  else .ok keyLocator.name

def getKeyDigest (keyLocator : KeyLocator) : Except Error Block.Element :=
  if keyLocator.type ≠ .keyDigest then .error ⟨.keyLocator, "KeyLocator type is not KeyDigest"⟩
  else .ok keyLocator.keyDigest

/-- What the getters of a key locator return, where a digest is the block that it is written as. -/
def shown (keyLocator : KeyLocator) : Kind × Except Error Name × Except Error Block :=
  (keyLocator.type, keyLocator.getName, keyLocator.getKeyDigest.map Block.Element.toBlock)

def wireEncodeInto (keyLocator : KeyLocator) : Except Error Bytes :=
  match keyLocator.type with
  | .none => .ok (Tlv.prependByteArrayBlock Tlv.keyLocator [])
  | .name => .ok (Tlv.prependByteArrayBlock Tlv.keyLocator keyLocator.name.wireEncode)
  | .keyDigest => .ok (Tlv.prependByteArrayBlock Tlv.keyLocator keyLocator.keyDigest.prependBlock)
  | .unknown => .error ⟨.keyLocator, "Unsupported KeyLocator type"⟩

def codes : CodeStore KeyLocator Bytes Error where
  encode keyLocator := keyLocator.wireEncodeInto >>= bufferBlock
  stored := KeyLocator.wire
  store keyLocator wire := .ok { keyLocator with wire := some wire }

def wireEncode (keyLocator : KeyLocator) : Except Error (Bytes × KeyLocator) :=
  codes.recallCode keyLocator

def wireDecode (keyLocator : KeyLocator) (wire : Block) : Except Error KeyLocator :=
  if wire.type ≠ Tlv.keyLocator then
    throw ⟨.keyLocator, "Unexpected TLV type during KeyLocator decoding"⟩
  else do
    match ← Block.parse wire.value with
    | [] => return { keyLocator with type := .none, wire := some wire.wire }
    | first :: _ =>
        if first.type = Tlv.name then
          let name ← Name.wireDecode first
          return { keyLocator with type := .name, name := name, wire := some wire.wire }
        else if first.type = Tlv.keyDigest then
          return { keyLocator with
            type := .keyDigest, keyDigest := first.toElement, wire := some wire.wire }
        else return { keyLocator with type := .unknown, wire := some wire.wire }

def clear (_keyLocator : KeyLocator) : KeyLocator :=
  { type := .none, name := [], keyDigest := .none, wire := none }

def setName (keyLocator : KeyLocator) (name : Name) : KeyLocator :=
  { keyLocator.clear with type := .name, name := name }

def setKeyDigest (keyLocator : KeyLocator) (keyDigest : Block.Element) : Except Error KeyLocator :=
  if keyDigest.type ≠ Tlv.keyDigest then .error ⟨.keyLocator, "expecting KeyDigest block"⟩
  else .ok { keyLocator.clear with type := .keyDigest, keyDigest := keyDigest }

/-- `KeyLocator::setKeyDigest(const ConstBufferPtr&)` -/
def setKeyDigestBuffer (keyLocator : KeyLocator) (keyDigest : Bytes) : Except Error KeyLocator := do
  let block ← Block.makeBinaryBlock Tlv.keyDigest keyDigest
  keyLocator.setKeyDigest block.toElement

/-! ## Reading back what was written -/

/-- The content that the type announces can be written and read again. -/
def IsEncodable (keyLocator : KeyLocator) : Prop :=
  match keyLocator.type with
  | .none => True
  | .name => keyLocator.name.IsWellFormed
  | .keyDigest =>
      keyLocator.keyDigest.type = Tlv.keyDigest ∧ keyLocator.keyDigest.IsWellFormed ∧
        keyLocator.keyDigest.Fits
  | .unknown => False

instance (keyLocator : KeyLocator) : Decidable keyLocator.IsEncodable :=
  match keyLocator with
  | ⟨.none, _, _, _⟩ => inferInstanceAs (Decidable True)
  | ⟨.name, name, _, _⟩ => inferInstanceAs (Decidable name.IsWellFormed)
  | ⟨.keyDigest, _, keyDigest, _⟩ =>
      inferInstanceAs (Decidable
        (keyDigest.type = Tlv.keyDigest ∧ keyDigest.IsWellFormed ∧ keyDigest.Fits))
  | ⟨.unknown, _, _, _⟩ => inferInstanceAs (Decidable False)

def elements (keyLocator : KeyLocator) : List Block :=
  match keyLocator.type with
  | .name => [keyLocator.name.toBlock]
  | .keyDigest => [keyLocator.keyDigest.toBlock]
  | _ => []

def toBlock (keyLocator : KeyLocator) : Block :=
  Block.ofElements Tlv.keyLocator keyLocator.elements

/-- The members after `wireDecode` of what `written` was encoded to. -/
def overwrite (prior written : KeyLocator) : KeyLocator where
  type := written.type
  name := if written.type = .name then written.name else prior.name
  keyDigest :=
    if written.type = .keyDigest then written.keyDigest.toBlock.toElement else prior.keyDigest
  wire := some written.toBlock.wire

theorem shown_overwrite (prior written : KeyLocator) :
    (prior.overwrite written).shown = written.shown := by
  cases hkind : written.type <;>
    simp [shown, overwrite, getName, getKeyDigest, hkind, Except.map]

variable {keyLocator : KeyLocator}

theorem wireEncodeInto_eq (hencodable : keyLocator.IsEncodable) :
    keyLocator.wireEncodeInto = .ok keyLocator.toBlock.wire := by
  unfold IsEncodable at hencodable
  simp only [wireEncodeInto, toBlock, elements, Block.ofElements, Block.ofValue]
  split at hencodable <;> simp_all [Name.wireEncode_eq, Block.Element.prependBlock_eq]

theorem elements_isWire (hencodable : keyLocator.IsEncodable)
    (hsize : keyLocator.toBlock.wire.length < 2 ^ 64) :
    ∀ element ∈ keyLocator.elements, element.IsWire := by
  intro element hmem
  have hshort := Block.length_wire_lt_of_mem hsize hmem
  unfold IsEncodable at hencodable
  unfold elements at hmem
  split at hmem
  · rename_i hname
    simp only [hname] at hencodable
    obtain rfl := List.mem_singleton.mp hmem
    exact Block.ofElements_isWire (by decide) hshort
  · rename_i hdigest
    simp only [hdigest] at hencodable
    obtain rfl := List.mem_singleton.mp hmem
    exact Block.Element.toBlock_isWire hencodable.2.1 hshort
  · cases hmem

theorem wireDecode_toBlock {written : KeyLocator} (prior : KeyLocator)
    (hencodable : written.IsEncodable) (hsize : written.toBlock.wire.length < 2 ^ 64) :
    prior.wireDecode written.toBlock = .ok (prior.overwrite written) := by
  have hparse : Block.parse written.toBlock.value = .ok written.elements :=
    Block.parse_ofElements (elements_isWire hencodable hsize)
  have htype : written.toBlock.type = Tlv.keyLocator := rfl
  rw [wireDecode, if_neg (not_not.mpr htype), hparse]
  cases hkind : written.type with
  | none => simp [elements, overwrite, hkind, bind, Except.bind, pure, Except.pure]
  | name =>
    have hread : Name.wireDecode written.name.toBlock = .ok written.name := by
      apply Name.wireDecode_toBlock
      · simpa [IsEncodable, hkind] using hencodable
      · exact Block.length_wire_lt_of_mem hsize (by simp [elements, hkind])
    have hname : written.name.toBlock.type = Tlv.name := rfl
    simp [elements, overwrite, hkind, hname, hread, bind, Except.bind, pure, Except.pure]
  | keyDigest =>
    have hdigest : written.keyDigest.type = Tlv.keyDigest := by
      simp only [IsEncodable, hkind] at hencodable
      exact hencodable.1
    simp [elements, overwrite, hkind, hdigest, Tlv.keyDigest, Tlv.name, bind, Except.bind, pure,
      Except.pure]
  | unknown => simp [IsEncodable, hkind] at hencodable

end KeyLocator

end Packet

end NdnCxx
