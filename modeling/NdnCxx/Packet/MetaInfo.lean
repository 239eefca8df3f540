import NdnCxx.Name.Number
import NdnCxx.Packet.KeyLocator

/-!
# Meta information of a Data packet

ContentType, FreshnessPeriod and FinalBlockId stand in this order in front of the blocks that
applications define, and are read by position. `wireDecode` replaces the three fields; the blocks of
the applications it adds to those that are there already.
-/

namespace NdnCxx

def Component.reset : Component := ⟨2 ^ 32 - 1, []⟩

namespace Packet

open Block (integerElement prependInteger presentIf)

def millisecondsMin : ℤ := -2 ^ 63

def takeIf (type : ℕ) (elements : List Block) : Option Block × List Block :=
  match elements with
  | [] => (none, [])
  | first :: rest => if first.type = type then (some first, rest) else (none, first :: rest)

/-- `MetaInfo` with its members. -/
structure MetaInfo where
  type : ℕ := Tlv.contentTypeBlob
  freshnessPeriod : ℤ := -1
  finalBlockId : Component := Component.empty
  appMetaInfo : List Block.Element := []
  wire : Option Bytes := none
  deriving DecidableEq

namespace MetaInfo

/-- `MetaInfo::wireEncode(EncodingImpl<TAG>&)`; the elements are prepended last to first. -/
def wireEncodeInto (metaInfo : MetaInfo) : Bytes :=
  let appMetaInfo := metaInfo.appMetaInfo.flatMap Block.Element.prependBlock
  let finalBlockId :=
    if !metaInfo.finalBlockId.isEmpty then
      Tlv.prependByteArrayBlock Tlv.finalBlockId metaInfo.finalBlockId.wireEncode
    else []
  let freshnessPeriod := prependInteger Tlv.freshnessPeriod metaInfo.freshnessPeriod
  let contentType :=
    if metaInfo.type ≠ Tlv.contentTypeBlob then
      Block.prependNonNegativeIntegerBlock Tlv.contentType metaInfo.type
    else []
  Tlv.prependByteArrayBlock Tlv.metaInfo
    (contentType ++ (freshnessPeriod ++ (finalBlockId ++ appMetaInfo)))

def codes : CodeStore MetaInfo Bytes Error where
  encode metaInfo := bufferBlock metaInfo.wireEncodeInto
  stored := MetaInfo.wire
  store metaInfo wire := .ok { metaInfo with wire := some wire }

def wireEncode (metaInfo : MetaInfo) : Except Error (Bytes × MetaInfo) := codes.recallCode metaInfo

def decodeFinalBlockId (element : Block) : Except Error Component := do
  let block ← Block.blockFromValue element.value
  let finalBlockId ← Component.ofBlock block.type block.value
  if finalBlockId.type ≠ Tlv.nameComponent then return Component.reset else return finalBlockId

def wireDecode (metaInfo : MetaInfo) (wire : Block) : Except Error MetaInfo := do
  let elements ← Block.parse wire.value
  let (contentType, afterType) := takeIf Tlv.contentType elements
  let type ← Block.decodeIfFound contentType Tlv.contentTypeBlob Block.readUInt32
  let (freshness, afterFreshness) := takeIf Tlv.freshnessPeriod afterType
  let freshnessPeriod ← Block.decodeIfFound freshness millisecondsMin Block.readInt64
  let (final, afterFinal) := takeIf Tlv.finalBlockId afterFreshness
  let finalBlockId ← Block.decodeIfFound final Component.reset decodeFinalBlockId
  return {
    type := type
    freshnessPeriod := freshnessPeriod
    finalBlockId := finalBlockId
    -- AppMetaInfo (if any) is appended, `m_appMetaInfo` is not cleared
    appMetaInfo := metaInfo.appMetaInfo ++ afterFinal.map Block.toElement
    wire := some wire.wire }

/-- Of the information that was there before only the blocks of applications are left. -/
theorem wireDecode_eq_map (prior : MetaInfo) (block : Block) :
    prior.wireDecode block = (fun fresh : MetaInfo ↦
      { fresh with appMetaInfo := prior.appMetaInfo ++ fresh.appMetaInfo }) <$>
        wireDecode {} block := by
  simp only [wireDecode, map_bind, map_pure, List.nil_append]

/-! ## Setters -/

def setType (metaInfo : MetaInfo) (type : ℕ) : MetaInfo :=
  { metaInfo with type := type, wire := none }

def setFreshnessPeriod (metaInfo : MetaInfo) (freshnessPeriod : ℤ) : MetaInfo :=
  { metaInfo with freshnessPeriod := freshnessPeriod, wire := none }

def setFinalBlockId (metaInfo : MetaInfo) (finalBlockId : Component) : MetaInfo :=
  { metaInfo with finalBlockId := finalBlockId, wire := none }

/-- Whether a block has a type in the application range. -/
def isAppType (block : Block.Element) : Bool := 128 ≤ block.type && block.type ≤ 252

def outsideAppRange : Error :=
  ⟨.tlv, "AppMetaInfo block has type outside the application range [128, 252]"⟩

def setAppMetaInfo (metaInfo : MetaInfo) (info : List Block.Element) : Except Error MetaInfo :=
  if info.any fun block ↦ !isAppType block then .error outsideAppRange
  else .ok { metaInfo with appMetaInfo := info, wire := none }

def addAppMetaInfo (metaInfo : MetaInfo) (block : Block.Element) : Except Error MetaInfo :=
  if !isAppType block then .error outsideAppRange
  else .ok { metaInfo with appMetaInfo := metaInfo.appMetaInfo ++ [block], wire := none }

/-- `MetaInfo::removeAppMetaInfo`, with the returned flag -/
def removeAppMetaInfo (metaInfo : MetaInfo) (tlvType : ℕ) : Bool × MetaInfo :=
  if metaInfo.appMetaInfo.any fun block ↦ block.type == tlvType then
    (true, { metaInfo with
      appMetaInfo := metaInfo.appMetaInfo.eraseP fun block ↦ block.type == tlvType
      wire := none })
  else (false, metaInfo)

def findAppMetaInfo (metaInfo : MetaInfo) (tlvType : ℕ) : Option Block.Element :=
  metaInfo.appMetaInfo.find? fun block ↦ block.type == tlvType

/-! ## Reading back what was written -/

/-- The meta information can be written and read again. -/
structure IsEncodable (metaInfo : MetaInfo) : Prop where
  type : metaInfo.type < 2 ^ 32
  freshnessPeriod : metaInfo.freshnessPeriod < 2 ^ 63
  finalBlockId : metaInfo.finalBlockId.isEmpty = false → metaInfo.finalBlockId.isGeneric = true
  appMetaInfo : ∀ block ∈ metaInfo.appMetaInfo, block.IsWellFormed ∧ block.Fits ∧
    block.type ∉ [Tlv.contentType, Tlv.freshnessPeriod, Tlv.finalBlockId]

def contentTypeElement (metaInfo : MetaInfo) : Option Block :=
  presentIf (decide (metaInfo.type ≠ Tlv.contentTypeBlob))
    (Block.ofValue Tlv.contentType (Tlv.prependNonNegativeInteger metaInfo.type))

def finalBlockIdElement (metaInfo : MetaInfo) : Option Block :=
  presentIf (!metaInfo.finalBlockId.isEmpty)
    (Block.ofElements Tlv.finalBlockId [metaInfo.finalBlockId.toBlock])

def elements (metaInfo : MetaInfo) : List Block :=
  metaInfo.contentTypeElement.toList ++
    ((integerElement Tlv.freshnessPeriod metaInfo.freshnessPeriod).toList ++
      (metaInfo.finalBlockIdElement.toList ++ metaInfo.appMetaInfo.map Block.Element.toBlock))

def toBlock (metaInfo : MetaInfo) : Block := Block.ofElements Tlv.metaInfo metaInfo.elements

/-- The members after `wireDecode` of what `written` was encoded to. -/
def overwrite (prior written : MetaInfo) : MetaInfo where
  type := written.type
  freshnessPeriod :=
    if written.freshnessPeriod ≥ 0 then written.freshnessPeriod else millisecondsMin
  finalBlockId := if written.finalBlockId.isEmpty then Component.reset else written.finalBlockId
  appMetaInfo :=
    prior.appMetaInfo ++ written.appMetaInfo.map fun block ↦ block.toBlock.toElement
  wire := some written.toBlock.wire

theorem takeIf_toList_append {type : ℕ} {field : Option Block} {rest : List Block}
    (htype : ∀ element ∈ field, element.type = type)
    (hrest : ∀ element ∈ rest, element.type ≠ type) :
    takeIf type (field.toList ++ rest) = (field, rest) := by
  cases field with
  | some element => simp [takeIf, htype element rfl]
  | none =>
    cases rest with
    | nil => rfl
    | cons first rest =>
      have hfirst : first.type ≠ type := hrest first List.mem_cons_self
      simp [takeIf, hfirst]

variable {metaInfo : MetaInfo}

theorem wireEncodeInto_eq_of_fits (hfits : ∀ block ∈ metaInfo.appMetaInfo, block.Fits) :
    metaInfo.wireEncodeInto = metaInfo.toBlock.wire := by
  have happ : metaInfo.appMetaInfo.flatMap Block.Element.prependBlock =
      (metaInfo.appMetaInfo.map Block.Element.toBlock).flatMap Block.wire := by
    rw [List.flatMap_map]
    apply List.flatMap_congr
    intro block hblock
    exact Block.Element.prependBlock_eq (hfits block hblock)
  simp only [toBlock, Block.ofElements, elements, List.flatMap_append, contentTypeElement,
    finalBlockIdElement, Block.flatMap_wire_presentIf, ← Block.prependInteger_eq, ← happ,
    List.flatMap_singleton, decide_eq_true_eq]
  rfl

theorem wireEncodeInto_eq (hencodable : metaInfo.IsEncodable) :
    metaInfo.wireEncodeInto = metaInfo.toBlock.wire :=
  wireEncodeInto_eq_of_fits fun block hblock ↦ (hencodable.appMetaInfo block hblock).2.1

theorem elements_isWire (hwell : ∀ block ∈ metaInfo.appMetaInfo, block.IsWellFormed)
    (hsize : metaInfo.toBlock.wire.length < 2 ^ 64) :
    ∀ element ∈ metaInfo.elements, element.IsWire := by
  intro element hmem
  have hshort := Block.length_wire_lt_of_mem hsize hmem
  simp only [elements, List.mem_append, Option.mem_toList] at hmem
  rcases hmem with hmem | hmem | hmem | hmem
  · obtain ⟨-, rfl⟩ := Block.mem_presentIf.mp hmem
    exact Block.ofValue_integer_isWire (by decide)
  · exact Block.integerElement_isWire (by decide) element hmem
  · obtain ⟨-, rfl⟩ := Block.mem_presentIf.mp hmem
    exact Block.ofElements_isWire (by decide) hshort
  · obtain ⟨block, hblock, rfl⟩ := List.mem_map.mp hmem
    exact Block.Element.toBlock_isWire (hwell block hblock) hshort

theorem parse_toBlock (hwell : ∀ block ∈ metaInfo.appMetaInfo, block.IsWellFormed)
    (hsize : metaInfo.toBlock.wire.length < 2 ^ 64) :
    Block.parse metaInfo.toBlock.value = .ok metaInfo.elements :=
  Block.parse_ofElements (elements_isWire hwell hsize)

variable {component : Component}

theorem decodeFinalBlockId_ofElements (hvalid : component.IsValid)
    (hsize : component.toBlock.wire.length < 2 ^ 64) :
    decodeFinalBlockId (Block.ofElements Tlv.finalBlockId [component.toBlock]) =
      if component.type ≠ Tlv.nameComponent then .ok Component.reset else .ok component := by
  have hvalue : (Block.ofElements Tlv.finalBlockId [component.toBlock]).value =
      component.toBlock.wire := by
    simp only [Block.ofElements, Block.ofValue, List.flatMap_singleton]
  have hblock : Block.blockFromValue component.toBlock.wire = .ok component.toBlock :=
    Block.blockFromValue_wire_ofValue hvalid.type_lt hsize
  simp only [decodeFinalBlockId, hvalue, hblock, bind, Except.bind,
    Component.ofBlock_toBlock hvalid, pure, Except.pure]

theorem decodeFinalBlockId_toBlock (hgeneric : component.isGeneric = true)
    (hsize : component.toBlock.wire.length < 2 ^ 64) :
    decodeFinalBlockId (Block.ofElements Tlv.finalBlockId [component.toBlock]) = .ok component := by
  have htype : component.type = Tlv.nameComponent := by
    simpa [Component.isGeneric] using hgeneric
  rw [decodeFinalBlockId_ofElements (Or.inl hgeneric) hsize, if_neg (not_not.mpr htype)]

/-- The three leading fields are read by their positions, whichever of them are present. -/
theorem takeIf_elements (hencodable : metaInfo.IsEncodable) :
    takeIf Tlv.contentType metaInfo.elements = (metaInfo.contentTypeElement,
      (integerElement Tlv.freshnessPeriod metaInfo.freshnessPeriod).toList ++
        (metaInfo.finalBlockIdElement.toList ++ metaInfo.appMetaInfo.map Block.Element.toBlock)) ∧
    takeIf Tlv.freshnessPeriod
      ((integerElement Tlv.freshnessPeriod metaInfo.freshnessPeriod).toList ++
        (metaInfo.finalBlockIdElement.toList ++ metaInfo.appMetaInfo.map Block.Element.toBlock)) =
      (integerElement Tlv.freshnessPeriod metaInfo.freshnessPeriod,
        metaInfo.finalBlockIdElement.toList ++ metaInfo.appMetaInfo.map Block.Element.toBlock) ∧
    takeIf Tlv.finalBlockId
      (metaInfo.finalBlockIdElement.toList ++ metaInfo.appMetaInfo.map Block.Element.toBlock) =
      (metaInfo.finalBlockIdElement, metaInfo.appMetaInfo.map Block.Element.toBlock) := by
  have hfreshness : ∀ element ∈ integerElement Tlv.freshnessPeriod metaInfo.freshnessPeriod,
      element.type = Tlv.freshnessPeriod := Block.integerElement_type
  have hfinal : ∀ element ∈ metaInfo.finalBlockIdElement, element.type = Tlv.finalBlockId :=
    Block.forall_mem_presentIf.mpr fun _ ↦ rfl
  have happ : ∀ element ∈ metaInfo.appMetaInfo.map Block.Element.toBlock,
      element.type ∉ [Tlv.contentType, Tlv.freshnessPeriod, Tlv.finalBlockId] := by
    intro element hmem
    obtain ⟨block, hblock, rfl⟩ := List.mem_map.mp hmem
    rw [Block.Element.type_toBlock]
    exact (hencodable.appMetaInfo block hblock).2.2
  refine ⟨takeIf_toList_append (Block.forall_mem_presentIf.mpr fun _ ↦ rfl) ?_,
    takeIf_toList_append hfreshness ?_, takeIf_toList_append hfinal ?_⟩
  · intro element hmem
    simp only [List.mem_append, Option.mem_toList] at hmem
    rcases hmem with hmem | hmem | hmem
    · rw [hfreshness element hmem]
      decide
    · rw [hfinal element hmem]
      decide
    · intro htype
      exact happ element hmem (by simp [htype])
  · intro element hmem
    simp only [List.mem_append, Option.mem_toList] at hmem
    rcases hmem with hmem | hmem
    · rw [hfinal element hmem]
      decide
    · intro htype
      exact happ element hmem (by simp [htype])
  · intro element hmem htype
    exact happ element hmem (by simp [htype])

theorem wireDecode_toBlock {written : MetaInfo} (prior : MetaInfo)
    (hencodable : written.IsEncodable) (hsize : written.toBlock.wire.length < 2 ^ 64) :
    prior.wireDecode written.toBlock = .ok (prior.overwrite written) := by
  have hparse : Block.parse written.toBlock.value = .ok written.elements :=
    parse_toBlock (fun block hblock ↦ (hencodable.appMetaInfo block hblock).1) hsize
  obtain ⟨htakeType, htakeFreshness, htakeFinal⟩ := takeIf_elements hencodable
  have htype : Block.decodeIfFound written.contentTypeElement Tlv.contentTypeBlob
      Block.readUInt32 = .ok (prior.overwrite written).type := by
    have hread : Block.readUInt32 (Block.ofValue Tlv.contentType
        (Tlv.prependNonNegativeInteger written.type)) = .ok written.type := by
      have hsmall := hencodable.type
      rw [Block.readUInt32, Block.readNonNegativeInteger_ofValue _ (by omega)]
      exact congrArg Except.ok (Nat.mod_eq_of_lt hsmall)
    rw [contentTypeElement, Block.decodeIfFound_presentIf fun _ ↦ hread]
    by_cases hblob : written.type = Tlv.contentTypeBlob
    · simp [hblob, overwrite]
    · simp [hblob, overwrite]
  have hfreshness : Block.decodeIfFound
      (integerElement Tlv.freshnessPeriod written.freshnessPeriod) millisecondsMin
        Block.readInt64 = .ok (prior.overwrite written).freshnessPeriod := by
    rw [Block.decodeIfFound_readInt64 millisecondsMin hencodable.freshnessPeriod]
    simp only [decide_eq_true_eq, overwrite]
  have hfinal : Block.decodeIfFound written.finalBlockIdElement Component.reset
      decodeFinalBlockId = .ok (prior.overwrite written).finalBlockId := by
    have hread : (!written.finalBlockId.isEmpty) = true →
        decodeFinalBlockId (Block.ofElements Tlv.finalBlockId [written.finalBlockId.toBlock]) =
          .ok written.finalBlockId := by
      intro hpresent
      apply decodeFinalBlockId_toBlock (hencodable.finalBlockId (by simpa using hpresent))
      have helement : (Block.ofElements Tlv.finalBlockId
          [written.finalBlockId.toBlock]).wire.length < 2 ^ 64 := by
        apply Block.length_wire_lt_of_mem hsize
        simp [elements, finalBlockIdElement, presentIf, hpresent]
      exact Block.length_wire_lt_of_mem helement (by simp)
    rw [finalBlockIdElement, Block.decodeIfFound_presentIf hread]
    cases hempty : written.finalBlockId.isEmpty <;> simp [overwrite, hempty]
  simp only [wireDecode, hparse, bind, Except.bind, htakeType, htakeFreshness, htakeFinal, htype,
    hfreshness, hfinal, pure, Except.pure, List.map_map]
  rfl

end MetaInfo

end Packet

end NdnCxx
