import NdnCxx.Packet.KeyLocator

/-!
# Signature information

The SignatureType stands first, a KeyLocator may stand second, and type-specific TLVs follow. They
are appended to the buffer last to first, so the wire holds them in reverse order, and `wireDecode`
adds those it reads to those that are there already. `appendTypeSpecificTlv` keeps the stored wire.
-/

namespace NdnCxx.Packet

open Block (presentIf)

/-- `SignatureInfo` with its members. -/
structure SignatureInfo where
  type : ℤ := -1
  hasKeyLocator : Bool := false
  keyLocator : KeyLocator := {}
  otherTlvs : List Block.Element := []
  wire : Option Bytes := none
  deriving DecidableEq

namespace SignatureInfo

/-- `SignatureInfo::wireEncode(EncodingImpl<TAG>&)`, into an encoder of its own -/
def wireEncodeInto (info : SignatureInfo) : Except Error Bytes := do
  let otherTlvs := info.otherTlvs.reverse.flatMap Block.Element.prependBlock
  let keyLocator ← Block.writtenIf info.hasKeyLocator info.keyLocator.wireEncodeInto
  let type := Block.prependNonNegativeIntegerBlock Tlv.signatureType (toUInt64 info.type)
  return Tlv.prependByteArrayBlock Tlv.signatureInfo (type ++ (keyLocator ++ otherTlvs))

def codes : CodeStore SignatureInfo Bytes Error where
  encode info := info.wireEncodeInto >>= bufferBlock
  stored := SignatureInfo.wire
  store info wire := .ok { info with wire := some wire }

def wireEncode (info : SignatureInfo) : Except Error (Bytes × SignatureInfo) := codes.recallCode info

/-- The exception for a wire that does not start with a SignatureType. -/
def missingSignatureType : Error :=
  ⟨.signatureInfo,
    "SignatureInfo does not have sub-TLV or the first sub-TLV is not SignatureType"⟩

def appendTypeSpecificTlv (info : SignatureInfo) (block : Block.Element) : SignatureInfo :=
  { info with otherTlvs := info.otherTlvs ++ [block] }

/-- The end of `wireDecode`: the rest of the elements are type-specific TLVs. -/
def decodeRest (info : SignatureInfo) (rest : List Block) : SignatureInfo :=
  rest.foldl (fun decoded block ↦ decoded.appendTypeSpecificTlv block.toElement) info

def wireDecode (info : SignatureInfo) (wire : Block) : Except Error SignatureInfo := do
  let elements ← Block.parse wire.value
  if wire.type ≠ Tlv.signatureInfo then throw ⟨.tlv, "Unexpected TLV type when decoding Name"⟩
  else
    match elements with
    | [] => throw missingSignatureType
    | first :: rest =>
        if first.type ≠ Tlv.signatureType then throw missingSignatureType
        else
          let type ← first.readInt32
          let decoded := { info with type := type, hasKeyLocator := false, wire := some wire.wire }
          match rest with
          | [] => return decoded
          | second :: others =>
              -- the second block could be KeyLocator
              if second.type = Tlv.keyLocator then
                let keyLocator ← decoded.keyLocator.wireDecode second
                return decodeRest { decoded with keyLocator := keyLocator, hasKeyLocator := true }
                  others
              else return decodeRest decoded (second :: others)

/-! ## Getters and setters -/

def getKeyLocator (info : SignatureInfo) : Except Error KeyLocator :=
  if info.hasKeyLocator then .ok info.keyLocator
  else .error ⟨.signatureInfo, "KeyLocator does not exist"⟩

/-- `SignatureInfo::getTypeSpecificTlv`; `none` is the exception for a type that is not there. -/
def getTypeSpecificTlv (info : SignatureInfo) (type : ℕ) : Option Block.Element :=
  info.otherTlvs.find? fun block ↦ block.type == type

/-- `SignatureInfo::getValidityPeriod`: the block that the ValidityPeriod is read from; `none` is
the exception for an info without one. -/
def getValidityPeriod (info : SignatureInfo) : Option Block.Element :=
  info.otherTlvs.head?.filter fun block ↦ block.type == Tlv.validityPeriod

def setSignatureType (info : SignatureInfo) (type : ℤ) : SignatureInfo :=
  { info with type := type, wire := none }

def setKeyLocator (info : SignatureInfo) (keyLocator : KeyLocator) : SignatureInfo :=
  { info with keyLocator := keyLocator, hasKeyLocator := true, wire := none }

def unsetKeyLocator (info : SignatureInfo) : SignatureInfo :=
  { info with keyLocator := {}, hasKeyLocator := false, wire := none }

def unsetValidityPeriod (info : SignatureInfo) : SignatureInfo :=
  { info with
    otherTlvs := if info.getValidityPeriod.isSome then info.otherTlvs.tail else info.otherTlvs
    wire := none }

/-- `SignatureInfo::setValidityPeriod`, with the wire of the ValidityPeriod -/
def setValidityPeriod (info : SignatureInfo) (validityPeriod : Block) : SignatureInfo :=
  let unset := info.unsetValidityPeriod
  { unset with otherTlvs := validityPeriod.toElement :: unset.otherTlvs }

/-! ## Reading back what was written -/

/-- The information can be written and read again. The last type-specific TLV is written first; behind
a SignatureType it must not be taken for the KeyLocator. -/
structure IsEncodable (info : SignatureInfo) : Prop where
  type_lower : -2 ^ 31 ≤ info.type
  type_upper : info.type < 2 ^ 31
  keyLocator : info.hasKeyLocator = true → info.keyLocator.IsEncodable
  otherTlvs : ∀ block ∈ info.otherTlvs, block.IsWellFormed ∧ block.Fits
  notKeyLocator : info.hasKeyLocator = false →
    ∀ block ∈ info.otherTlvs.getLast?, block.type ≠ Tlv.keyLocator

def typeElement (info : SignatureInfo) : Block :=
  Block.ofValue Tlv.signatureType (Tlv.prependNonNegativeInteger (toUInt64 info.type))

/-- The type-specific TLVs in the order of the wire. -/
def writtenTlvs (info : SignatureInfo) : List Block :=
  info.otherTlvs.reverse.map Block.Element.toBlock

def elements (info : SignatureInfo) : List Block :=
  info.typeElement :: ((presentIf info.hasKeyLocator info.keyLocator.toBlock).toList ++
    info.writtenTlvs)

def toBlock (info : SignatureInfo) : Block := Block.ofElements Tlv.signatureInfo info.elements

/-- The members after `wireDecode` of what `written` was encoded to. -/
def overwrite (prior written : SignatureInfo) : SignatureInfo where
  type := written.type
  hasKeyLocator := written.hasKeyLocator
  keyLocator :=
    if written.hasKeyLocator then prior.keyLocator.overwrite written.keyLocator
    else prior.keyLocator
  otherTlvs := prior.otherTlvs ++ written.writtenTlvs.map Block.toElement
  wire := some written.toBlock.wire

theorem decodeRest_eq (info : SignatureInfo) (rest : List Block) :
    info.decodeRest rest =
      { info with otherTlvs := info.otherTlvs ++ rest.map Block.toElement } := by
  induction rest generalizing info with
  | nil => simp [decodeRest]
  | cons block rest ih =>
    change (info.appendTypeSpecificTlv block.toElement).decodeRest rest = _
    rw [ih]
    simp [appendTypeSpecificTlv]

/-- The wire starts with a SignatureType; what follows is a KeyLocator and TLVs, or only TLVs, and the
TLVs come behind those that were there already. -/
theorem wireDecode_eq_ok_iff {prior decoded : SignatureInfo} {block : Block} :
    prior.wireDecode block = .ok decoded ↔
      block.type = Tlv.signatureInfo ∧ ∃ first rest type,
        Block.parse block.value = .ok (first :: rest) ∧ first.type = Tlv.signatureType ∧
        first.readInt32 = .ok type ∧
        ((∃ second others keyLocator, rest = second :: others ∧ second.type = Tlv.keyLocator ∧
            prior.keyLocator.wireDecode second = .ok keyLocator ∧
            decoded = ⟨type, true, keyLocator, prior.otherTlvs ++ others.map Block.toElement,
              some block.wire⟩) ∨
          (∀ second ∈ rest.head?, second.type ≠ Tlv.keyLocator) ∧
            decoded = ⟨type, false, prior.keyLocator, prior.otherTlvs ++ rest.map Block.toElement,
              some block.wire⟩) := by
  constructor
  · intro hdecode
    rw [wireDecode, bind_eq_ok_iff] at hdecode
    obtain ⟨elements, hparse, hdecode⟩ := hdecode
    split_ifs at hdecode with htype
    refine ⟨not_not.mp htype, ?_⟩
    cases elements with
    | nil => cases hdecode
    | cons first rest =>
      dsimp only at hdecode
      split_ifs at hdecode with hfirst
      rw [bind_eq_ok_iff] at hdecode
      obtain ⟨type, hread, hdecode⟩ := hdecode
      refine ⟨first, rest, type, hparse, not_not.mp hfirst, hread, ?_⟩
      cases rest with
      | nil =>
        cases hdecode
        exact Or.inr ⟨by simp, by simp⟩
      | cons second others =>
        dsimp only at hdecode
        split_ifs at hdecode with hsecond
        · rw [bind_eq_ok_iff] at hdecode
          obtain ⟨keyLocator, hkeyLocator, hdecode⟩ := hdecode
          cases hdecode
          exact Or.inl ⟨second, others, keyLocator, rfl, hsecond, hkeyLocator, decodeRest_eq _ _⟩
        · cases hdecode
          exact Or.inr ⟨by simpa using hsecond, decodeRest_eq _ _⟩
  · rintro ⟨htype, first, rest, type, hparse, hfirst, hread,
      ⟨second, others, keyLocator, rfl, hsecond, hkeyLocator, rfl⟩ | ⟨hnot, rfl⟩⟩
    · simp only [wireDecode, hparse, bind, Except.bind, if_neg (not_not.mpr htype),
        if_neg (not_not.mpr hfirst), hread, if_pos hsecond, hkeyLocator, pure, Except.pure,
        decodeRest_eq]
    · simp only [wireDecode, hparse, bind, Except.bind, if_neg (not_not.mpr htype),
        if_neg (not_not.mpr hfirst), hread]
      cases rest with
      | nil => simp [pure, Except.pure]
      | cons second others =>
        have hsecond : second.type ≠ Tlv.keyLocator := hnot second rfl
        simp only [if_neg hsecond, pure, Except.pure, decodeRest_eq]

section Written

variable {info : SignatureInfo}
  (hkeyLocator : info.hasKeyLocator = true → info.keyLocator.IsEncodable)
  (hothers : ∀ block ∈ info.otherTlvs, block.IsWellFormed ∧ block.Fits)
include hkeyLocator hothers

theorem wireEncodeInto_eq_toBlock : info.wireEncodeInto = .ok info.toBlock.wire := by
  have hwritten : info.otherTlvs.reverse.flatMap Block.Element.prependBlock =
      info.writtenTlvs.flatMap Block.wire := by
    rw [writtenTlvs, List.flatMap_map]
    apply List.flatMap_congr
    intro block hblock
    exact Block.Element.prependBlock_eq (hothers block (List.mem_reverse.mp hblock)).2
  have hlocator : Block.writtenIf info.hasKeyLocator info.keyLocator.wireEncodeInto =
      .ok ((presentIf info.hasKeyLocator info.keyLocator.toBlock).toList.flatMap Block.wire) :=
    Block.writtenIf_eq fun hpresent ↦ KeyLocator.wireEncodeInto_eq (hkeyLocator hpresent)
  simp only [wireEncodeInto, hlocator, hwritten, bind, Except.bind, pure, Except.pure, toBlock,
    Block.ofElements, elements, List.flatMap_cons, List.flatMap_append]
  rfl

omit hkeyLocator in
theorem parse_toBlock (hsize : info.toBlock.wire.length < 2 ^ 64) :
    Block.parse info.toBlock.value = .ok info.elements := by
  apply Block.parse_ofElements
  intro element hmem
  have hshort := Block.length_wire_lt_of_mem hsize hmem
  simp only [elements, List.mem_cons, List.mem_append, Option.mem_toList] at hmem
  rcases hmem with rfl | hmem | hmem
  · exact Block.ofValue_integer_isWire (by decide)
  · obtain ⟨-, rfl⟩ := Block.mem_presentIf.mp hmem
    exact Block.ofElements_isWire (by decide) hshort
  · obtain ⟨block, hblock, rfl⟩ := List.mem_map.mp hmem
    exact Block.Element.toBlock_isWire (hothers block (List.mem_reverse.mp hblock)).1 hshort

end Written

theorem wireEncodeInto_eq {info : SignatureInfo} (hencodable : info.IsEncodable) :
    info.wireEncodeInto = .ok info.toBlock.wire :=
  wireEncodeInto_eq_toBlock hencodable.keyLocator hencodable.otherTlvs

theorem readInt32_typeElement {info : SignatureInfo} (hlower : -2 ^ 31 ≤ info.type)
    (hupper : info.type < 2 ^ 31) : info.typeElement.readInt32 = .ok info.type := by
  rw [typeElement, Block.readInt32, Block.readNonNegativeInteger_ofValue _ (toUInt64_lt _)]
  exact congrArg Except.ok (toInt32_toUInt64 hlower hupper)

/-- The first one of the TLVs on the wire is the last one that was appended. -/
theorem head?_writtenTlvs (info : SignatureInfo) :
    info.writtenTlvs.head? = info.otherTlvs.getLast?.map Block.Element.toBlock := by
  rw [writtenTlvs, List.head?_map, List.head?_reverse]

theorem wireDecode_toBlock {written : SignatureInfo} (prior : SignatureInfo)
    (hencodable : written.IsEncodable) (hsize : written.toBlock.wire.length < 2 ^ 64) :
    prior.wireDecode written.toBlock = .ok (prior.overwrite written) := by
  apply wireDecode_eq_ok_iff.mpr
  refine ⟨rfl, written.typeElement, _, written.type, parse_toBlock hencodable.otherTlvs hsize, rfl,
    readInt32_typeElement hencodable.type_lower hencodable.type_upper, ?_⟩
  cases hpresent : written.hasKeyLocator with
  | true =>
    have hkeyLocator : prior.keyLocator.wireDecode written.keyLocator.toBlock =
        .ok (prior.keyLocator.overwrite written.keyLocator) := by
      apply KeyLocator.wireDecode_toBlock _ (hencodable.keyLocator hpresent)
      apply Block.length_wire_lt_of_mem hsize
      simp [elements, presentIf, hpresent]
    exact Or.inl ⟨_, written.writtenTlvs, _, rfl, rfl, hkeyLocator, by simp [overwrite, hpresent]⟩
  | false =>
    refine Or.inr ⟨?_, by simp [overwrite, hpresent, presentIf]⟩
    intro second hsecond
    have hhead : second ∈ written.writtenTlvs.head? := hsecond
    rw [head?_writtenTlvs] at hhead
    obtain ⟨block, hblock, rfl⟩ := Option.map_eq_some_iff.mp hhead
    rw [Block.Element.type_toBlock]
    exact hencodable.notKeyLocator hpresent block hblock

theorem encode_eq {info : SignatureInfo} (hencodable : info.IsEncodable)
    (hsize : info.toBlock.wire.length < 2 ^ 64) : codes.encode info = .ok info.toBlock.wire := by
  apply bind_eq_ok_iff.mpr
  exact ⟨_, wireEncodeInto_eq hencodable, bufferBlock_ofElements (by decide) hsize⟩

end SignatureInfo

/-! ## Signatures -/

/-- `Signature` with its members; `m_value` may still have to be encoded. -/
structure Signature where
  info : SignatureInfo := {}
  value : Block.Unencoded := ⟨2 ^ 32 - 1, .empty, []⟩
  deriving DecidableEq

namespace Signature

def setInfo (signature : Signature) (info : Block) : Except Error Signature := do
  return { signature with info := ← SignatureInfo.wireDecode {} info }

def setValue (signature : Signature) (value : Block.Unencoded) : Except Error Signature :=
  if value.type ≠ Tlv.signatureValue then
    .error ⟨.signature, "The supplied block is not SignatureValue"⟩
  else .ok { signature with value := value }

end Signature

end NdnCxx.Packet
