import NdnCxx.Packet.MetaInfo
import NdnCxx.Packet.SignatureInfo

/-!
# The wire of a Data packet

`wireEncode` of a Data packet reads the packet back from the wire it has just made. The elements are
found by their types. MetaInfo is decoded into the object that is there, the signature information
into a new one, and a signature value that the wire does not have stays as it was.
-/

namespace NdnCxx

/-- A block that has a wire, where one without may stand. -/
def Block.toUnencoded (block : Block) : Block.Unencoded :=
  ⟨block.type, .wire block.value block.wire, []⟩

namespace Packet

/-- `Data` with its members. The content is a default `Block()` if only a name was given. -/
structure Data where
  name : Name := []
  metaInfo : MetaInfo := {}
  content : Block.Unencoded := ⟨2 ^ 32 - 1, .empty, []⟩
  signature : Signature := {}
  fullName : Name := []
  wire : Option Bytes := none
  deriving DecidableEq

namespace Data

def getContent (data : Data) : Except Error Block :=
  if data.content.type = 2 ^ 32 - 1 then Block.makeEmptyBlock Tlv.content else data.content.encode

/-- `Data::wireEncode(EncodingImpl<TAG>&)`; the elements are prepended last to first. -/
def wireEncodeInto (data : Data) : Except Error Bytes :=
  if data.signature.info.type = -1 then
    .error ⟨.tlv, "Requested wire format, but data packet has not been signed yet"⟩
  else do
    let value ← data.signature.value.encode
    let info ← data.signature.info.wireEncode
    let content ← data.getContent
    return Tlv.prependByteArrayBlock Tlv.data
      (data.name.wireEncode ++ (data.metaInfo.wireEncodeInto ++ (Block.prependWire content.wire ++
        (Block.prependWire info.1 ++ Block.prependWire value.wire))))

/-- `Data::wireDecode`; the type of the wire is not looked at. -/
def wireDecode (data : Data) (wire : Block) : Except Error Data := do
  let elements ← Block.parse wire.value
  let name ← Name.wireDecode (← Block.get elements Tlv.name)
  let metaInfo ← data.metaInfo.wireDecode (← Block.get elements Tlv.metaInfo)
  let content ← Block.get elements Tlv.content
  let unvalued ← data.signature.setInfo (← Block.get elements Tlv.signatureInfo)
  let signature ← Block.decodeIfFound (Block.find elements Tlv.signatureValue) unvalued
    fun value ↦ unvalued.setValue value.toUnencoded
  return {
    name := name
    metaInfo := metaInfo
    content := content.toUnencoded
    signature := signature
    fullName := []
    wire := some wire.wire }

variable {block : Block}

theorem wire_of_wireDecode {prior data : Data} (hdecode : prior.wireDecode block = .ok data) :
    data.wire = some block.wire := by
  simp only [wireDecode, bind_eq_ok_iff] at hdecode
  obtain ⟨elements, -, nameBlock, -, name, -, metaInfoBlock, -, metaInfo, -, content, -, infoBlock,
    -, unvalued, -, signature, -, hdata⟩ := hdecode
  cases hdata
  rfl

/-- The content is the first element of its type. -/
theorem getContent_of_wireDecode {prior data : Data} (hdecode : prior.wireDecode block = .ok data) :
    ∃ elements content, Block.parse block.value = .ok elements ∧
      Block.get elements Tlv.content = .ok content ∧ data.getContent = .ok content := by
  simp only [wireDecode, bind_eq_ok_iff] at hdecode
  obtain ⟨elements, hparse, nameBlock, -, name, -, metaInfoBlock, -, metaInfo, -, content, hcontent,
    infoBlock, -, unvalued, -, signature, -, hdata⟩ := hdecode
  cases hdata
  have htype : content.toUnencoded.type ≠ 2 ^ 32 - 1 := by
    have hcontentType : content.toUnencoded.type = Tlv.content := (Block.mem_of_get hcontent).2
    rw [hcontentType]
    decide
  exact ⟨elements, content, hparse, hcontent, if_neg htype⟩

/-- Whether a packet is read with a signature value. -/
def hasSignatureValue (elements : List Block) : Bool :=
  (Block.find elements Tlv.signatureValue).isSome

/-- What was read into a fresh packet, with what stays of the packet that was there before: the blocks
of applications, and the signature value if the wire has none. -/
def keepFrom (fresh prior : Data) (hasValue : Bool) : Data :=
  { fresh with
    metaInfo := { fresh.metaInfo with
      appMetaInfo := prior.metaInfo.appMetaInfo ++ fresh.metaInfo.appMetaInfo }
    signature := { fresh.signature with
      value := if hasValue then fresh.signature.value else prior.signature.value } }

theorem wireDecode_eq_map (prior : Data) (block : Block) :
    prior.wireDecode block = (do
      let elements ← Block.parse block.value
      (keepFrom · prior (hasSignatureValue elements)) <$> wireDecode {} block) := by
  simp only [wireDecode, Signature.setInfo, map_bind, bind_pure_comp, bind_map_left,
    MetaInfo.wireDecode_eq_map prior.metaInfo]
  cases Block.parse block.value with
  | error error => rfl
  | ok elements =>
    have hread : ∀ next : List Block → Except Error Data, (Except.ok elements >>= next) =
        next elements := fun next ↦ rfl
    simp only [hread]
    refine bind_congr (m := Except Error) fun nameBlock ↦ ?_
    refine bind_congr (m := Except Error) fun name ↦ ?_
    refine bind_congr (m := Except Error) fun metaInfoBlock ↦ ?_
    refine bind_congr (m := Except Error) fun metaInfo ↦ ?_
    refine bind_congr (m := Except Error) fun content ↦ ?_
    refine bind_congr (m := Except Error) fun infoBlock ↦ ?_
    refine bind_congr (m := Except Error) fun info ↦ ?_
    cases hfind : Block.find elements Tlv.signatureValue with
    | none =>
      have hnone : hasSignatureValue elements = false := by rw [hasSignatureValue, hfind]; rfl
      simp only [keepFrom, hnone]
      rfl
    | some value =>
      have hsome : hasSignatureValue elements = true := by rw [hasSignatureValue, hfind]; rfl
      simp only [keepFrom, hsome, Block.decodeIfFound, Signature.setValue]
      split_ifs
      · rfl
      · rfl

theorem wireDecode_eq_ok_iff {prior data : Data} :
    prior.wireDecode block = .ok data ↔
      ∃ elements fresh, Block.parse block.value = .ok elements ∧ wireDecode {} block = .ok fresh ∧
        data = fresh.keepFrom prior (hasSignatureValue elements) := by
  rw [wireDecode_eq_map, bind_eq_ok_iff]
  cases wireDecode {} block with
  | error error => simp [Functor.map, Except.map]
  | ok fresh => simp [Functor.map, Except.map, eq_comm]

/-- The end of `wireEncode()`. `Signature::getValue` has encoded the value in its place before the
packet is read back. -/
def readBack (data : Data) (wire : Bytes) : Except Error Data := do
  let value ← data.signature.value.encode
  let signature := { data.signature with
    value := { data.signature.value with content := .wire value.value value.wire } }
  wireDecode { data with signature := signature } (← Block.fromWire wire)

def codes : CodeStore Data Bytes Error where
  encode data := data.wireEncodeInto >>= bufferBlock
  stored := Data.wire
  store := readBack

def wireEncode (data : Data) : Except Error (Bytes × Data) := codes.recallCode data

/-! ## Setters -/

def onChanged (data : Data) : Data := { data with wire := none, fullName := [] }

def setName (data : Data) (name : Name) : Data := { data.onChanged with name := name }

def setMetaInfo (data : Data) (metaInfo : MetaInfo) : Data :=
  { data.onChanged with metaInfo := metaInfo }

def setContentType (data : Data) (type : ℕ) : Data :=
  { data.onChanged with metaInfo := data.metaInfo.setType type }

def setFreshnessPeriod (data : Data) (freshnessPeriod : ℤ) : Data :=
  { data.onChanged with metaInfo := data.metaInfo.setFreshnessPeriod freshnessPeriod }

def setFinalBlockId (data : Data) (finalBlockId : Component) : Data :=
  { data.onChanged with metaInfo := data.metaInfo.setFinalBlockId finalBlockId }

/-- `Data::setContent(const uint8_t*, size_t)` -/
def setContentBytes (data : Data) (content : Bytes) : Except Error Data := do
  let block ← Block.makeBinaryBlock Tlv.content content
  return { data.onChanged with content := block.toUnencoded }

/-- `Data::setContent(const ConstBufferPtr&)`: not a real wire encoding yet -/
def setContentBuffer (data : Data) (contentValue : Bytes) : Data :=
  { data.onChanged with content := ⟨Tlv.content, .value contentValue, []⟩ }

/-- `Data::setContent(const Block&)`; a block of another type is put into a content block, and must
have a wire. -/
def setContent (data : Data) (content : Block.Unencoded) : Except Error Data :=
  if content.type = Tlv.content then .ok { data.onChanged with content := content }
  else
    match content.content with
    | .wire _ wire => .ok { data.onChanged with content := ⟨Tlv.content, .value wire, []⟩ }
    | _ => .error ⟨.block, "Underlying wire buffer is empty"⟩

def setSignature (data : Data) (signature : Signature) : Data :=
  { data.onChanged with signature := signature }

def setSignatureValue (data : Data) (value : Block.Unencoded) : Except Error Data := do
  let signature ← data.signature.setValue value
  return { data.onChanged with signature := signature }

/-! ## The written blocks -/

/-- The blocks of a packet are written one behind the other. -/
theorem wireEncodeInto_eq_of_blocks {data : Data} {answered : SignatureInfo}
    {content info value encoded : Block} (hsigned : data.signature.info.type ≠ -1)
    (hvalue : data.signature.value.encode = .ok encoded)
    (hsame : Block.prependWire encoded.wire = value.wire)
    (hinfo : data.signature.info.wireEncode = .ok (info.wire, answered))
    (hinfoFits : info.wire.length < 2 ^ 32) (hcontent : data.getContent = .ok content)
    (hcontentFits : content.wire.length < 2 ^ 32)
    (happ : ∀ block ∈ data.metaInfo.appMetaInfo, block.Fits) :
    data.wireEncodeInto = .ok (Block.ofElements Tlv.data
      [data.name.toBlock, data.metaInfo.toBlock, content, info, value]).wire := by
  rw [wireEncodeInto, if_neg hsigned, hvalue, hinfo, hcontent]
  simp only [bind, Except.bind, pure, Except.pure, Block.prependWire_eq hcontentFits,
    Block.prependWire_eq hinfoFits, hsame, Name.wireEncode_eq,
    MetaInfo.wireEncodeInto_eq_of_fits happ]
  simp only [Block.ofElements, List.flatMap_cons, List.flatMap_nil, List.append_nil]
  rfl

end Data

end Packet

end NdnCxx
