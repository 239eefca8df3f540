import NdnCxx.Mgmt.ControlParameters

/-!
# Face statuses

`FaceStatus` with the members of `FaceTraits` and its own. All but ExpirationPeriod are required: the
decoder takes the elements one after another and refuses a status in which one is missing.
-/

namespace NdnCxx.Mgmt

open Block (prependOptional takeOptional takeRequired)

def FaceScope.nonLocal : FaceScope := 0

def FacePersistency.persistent : FacePersistency := 0

def LinkType.pointToPoint : LinkType := 0

/-- `FaceStatus` with its members. -/
structure FaceStatus where
  faceId : UInt64 := 0
  remoteUri : Bytes := []
  localUri : Bytes := []
  expirationPeriod : Option Int64 := none
  faceScope : FaceScope := FaceScope.nonLocal
  facePersistency : FacePersistency := FacePersistency.persistent
  linkType : LinkType := LinkType.pointToPoint
  nInInterests : UInt64 := 0
  nInDatas : UInt64 := 0
  nInNacks : UInt64 := 0
  nOutInterests : UInt64 := 0
  nOutDatas : UInt64 := 0
  nOutNacks : UInt64 := 0
  nInBytes : UInt64 := 0
  nOutBytes : UInt64 := 0
  wire : Option Block := none
  deriving DecidableEq

namespace FaceStatus

/-- `FaceStatus::wireEncode(EncodingImpl<TAG>&)`; the elements are prepended last to first. -/
def wireEncodeInto (status : FaceStatus) : Bytes :=
  let nOutBytes := Block.prependNonNegativeIntegerBlock Tlv.Nfd.nOutBytes status.nOutBytes.toNat
  let nInBytes := Block.prependNonNegativeIntegerBlock Tlv.Nfd.nInBytes status.nInBytes.toNat
  let nOutNacks := Block.prependNonNegativeIntegerBlock Tlv.Nfd.nOutNacks status.nOutNacks.toNat
  let nOutDatas := Block.prependNonNegativeIntegerBlock Tlv.Nfd.nOutDatas status.nOutDatas.toNat
  let nOutInterests :=
    Block.prependNonNegativeIntegerBlock Tlv.Nfd.nOutInterests status.nOutInterests.toNat
  let nInNacks := Block.prependNonNegativeIntegerBlock Tlv.Nfd.nInNacks status.nInNacks.toNat
  let nInDatas := Block.prependNonNegativeIntegerBlock Tlv.Nfd.nInDatas status.nInDatas.toNat
  let nInInterests :=
    Block.prependNonNegativeIntegerBlock Tlv.Nfd.nInInterests status.nInInterests.toNat
  let linkType := Block.prependNonNegativeIntegerBlock Tlv.Nfd.linkType status.linkType.toNat
  let facePersistency :=
    Block.prependNonNegativeIntegerBlock Tlv.Nfd.facePersistency status.facePersistency.toNat
  let faceScope := Block.prependNonNegativeIntegerBlock Tlv.Nfd.faceScope status.faceScope.toNat
  let expirationPeriod := prependOptional status.expirationPeriod fun expirationPeriod ↦
    Block.prependNonNegativeIntegerBlock Tlv.Nfd.expirationPeriod
      (countMilliseconds expirationPeriod)
  let localUri := Tlv.prependByteArrayBlock Tlv.Nfd.localUri status.localUri
  let remoteUri := Tlv.prependByteArrayBlock Tlv.Nfd.uri status.remoteUri
  let faceId := Block.prependNonNegativeIntegerBlock Tlv.Nfd.faceId status.faceId.toNat
  Tlv.prependByteArrayBlock Tlv.Nfd.faceStatus
    (faceId ++ (remoteUri ++ (localUri ++ (expirationPeriod ++ (faceScope ++ (facePersistency ++
      (linkType ++ (nInInterests ++ (nInDatas ++ (nInNacks ++ (nOutInterests ++ (nOutDatas ++
        (nOutNacks ++ (nInBytes ++ nOutBytes))))))))))))))

def codes : CodeStore FaceStatus Block Error where
  encode status := Block.fromWire status.wireEncodeInto
  stored := FaceStatus.wire
  store status wire := .ok { status with wire := some wire }

def wireEncode (status : FaceStatus) : Except Error (Block × FaceStatus) := codes.recallCode status

def missing (field : String) : Error := ⟨.tlv, "missing required " ++ field ++ " field"⟩

def wireDecode (_status : FaceStatus) (block : Block) : Except Error FaceStatus := do
  if block.type ≠ Tlv.Nfd.faceStatus then throw ⟨.tlv, "expecting FaceStatus block"⟩
  let val ← Block.parse block.value
  let (faceId, val) ← takeRequired Tlv.Nfd.faceId Block.readUInt64 (missing "FaceId") val
  let (remoteUri, val) ← takeRequired Tlv.Nfd.uri Block.readString (missing "Uri") val
  let (localUri, val) ← takeRequired Tlv.Nfd.localUri Block.readString (missing "LocalUri") val
  let (expirationPeriod, val) ← takeOptional Tlv.Nfd.expirationPeriod Block.readMilliseconds val
  let (faceScope, val) ← takeRequired Tlv.Nfd.faceScope Block.readEnum8 (missing "FaceScope") val
  let (facePersistency, val) ←
    takeRequired Tlv.Nfd.facePersistency Block.readEnum8 (missing "FacePersistency") val
  let (linkType, val) ← takeRequired Tlv.Nfd.linkType Block.readEnum8 (missing "LinkType") val
  let (nInInterests, val) ←
    takeRequired Tlv.Nfd.nInInterests Block.readUInt64 (missing "NInInterests") val
  let (nInDatas, val) ← takeRequired Tlv.Nfd.nInDatas Block.readUInt64 (missing "NInDatas") val
  let (nInNacks, val) ← takeRequired Tlv.Nfd.nInNacks Block.readUInt64 (missing "NInNacks") val
  let (nOutInterests, val) ←
    takeRequired Tlv.Nfd.nOutInterests Block.readUInt64 (missing "NOutInterests") val
  let (nOutDatas, val) ← takeRequired Tlv.Nfd.nOutDatas Block.readUInt64 (missing "NOutDatas") val
  let (nOutNacks, val) ← takeRequired Tlv.Nfd.nOutNacks Block.readUInt64 (missing "NOutNacks") val
  let (nInBytes, val) ← takeRequired Tlv.Nfd.nInBytes Block.readUInt64 (missing "NInBytes") val
  let (nOutBytes, _) ← takeRequired Tlv.Nfd.nOutBytes Block.readUInt64 (missing "NOutBytes") val
  return {
    faceId := faceId
    remoteUri := remoteUri
    localUri := localUri
    expirationPeriod := expirationPeriod
    faceScope := faceScope
    facePersistency := facePersistency
    linkType := linkType
    nInInterests := nInInterests
    nInDatas := nInDatas
    nInNacks := nInNacks
    nOutInterests := nOutInterests
    nOutDatas := nOutDatas
    nOutNacks := nOutNacks
    nInBytes := nInBytes
    nOutBytes := nOutBytes
    wire := some block }

/-! ## Setters -/

/-- The calls of the setters; there are no unsetters. -/
inductive Call
  | setFaceId (faceId : UInt64)
  | setRemoteUri (remoteUri : Bytes)
  | setLocalUri (localUri : Bytes)
  | setExpirationPeriod (expirationPeriod : Int64)
  | setFaceScope (faceScope : FaceScope)
  | setFacePersistency (facePersistency : FacePersistency)
  | setLinkType (linkType : LinkType)
  | setNInInterests (nInInterests : UInt64)
  | setNInDatas (nInDatas : UInt64)
  | setNInNacks (nInNacks : UInt64)
  | setNOutInterests (nOutInterests : UInt64)
  | setNOutDatas (nOutDatas : UInt64)
  | setNOutNacks (nOutNacks : UInt64)
  | setNInBytes (nInBytes : UInt64)
  | setNOutBytes (nOutBytes : UInt64)
  deriving DecidableEq

/-- The setters; each of them resets `m_wire`, those of `FaceTraits` through `wireReset`. -/
def call (status : FaceStatus) : Call → FaceStatus
  | .setFaceId faceId => { status with faceId := faceId, wire := none }
  | .setRemoteUri remoteUri => { status with remoteUri := remoteUri, wire := none }
  | .setLocalUri localUri => { status with localUri := localUri, wire := none }
  | .setExpirationPeriod expirationPeriod =>
      { status with expirationPeriod := some expirationPeriod, wire := none }
  | .setFaceScope faceScope => { status with faceScope := faceScope, wire := none }
  | .setFacePersistency facePersistency =>
      { status with facePersistency := facePersistency, wire := none }
  | .setLinkType linkType => { status with linkType := linkType, wire := none }
  | .setNInInterests nInInterests => { status with nInInterests := nInInterests, wire := none }
  | .setNInDatas nInDatas => { status with nInDatas := nInDatas, wire := none }
  | .setNInNacks nInNacks => { status with nInNacks := nInNacks, wire := none }
  | .setNOutInterests nOutInterests => { status with nOutInterests := nOutInterests, wire := none }
  | .setNOutDatas nOutDatas => { status with nOutDatas := nOutDatas, wire := none }
  | .setNOutNacks nOutNacks => { status with nOutNacks := nOutNacks, wire := none }
  | .setNInBytes nInBytes => { status with nInBytes := nInBytes, wire := none }
  | .setNOutBytes nOutBytes => { status with nOutBytes := nOutBytes, wire := none }

/-- The setters return normally. -/
def perform (status : FaceStatus) (call : Call) : Option FaceStatus := some (status.call call)

/-! ## Reading back what was written -/

def fields (status : FaceStatus) : List (ℕ × Option Block) :=
  [(Tlv.Nfd.faceId, some (Block.ofNumber Tlv.Nfd.faceId status.faceId.toNat)),
    (Tlv.Nfd.uri, some (Block.ofValue Tlv.Nfd.uri status.remoteUri)),
    (Tlv.Nfd.localUri, some (Block.ofValue Tlv.Nfd.localUri status.localUri)),
    (Tlv.Nfd.expirationPeriod, status.expirationPeriod.map fun expirationPeriod ↦
      Block.ofNumber Tlv.Nfd.expirationPeriod (countMilliseconds expirationPeriod)),
    (Tlv.Nfd.faceScope, some (Block.ofNumber Tlv.Nfd.faceScope status.faceScope.toNat)),
    (Tlv.Nfd.facePersistency,
      some (Block.ofNumber Tlv.Nfd.facePersistency status.facePersistency.toNat)),
    (Tlv.Nfd.linkType, some (Block.ofNumber Tlv.Nfd.linkType status.linkType.toNat)),
    (Tlv.Nfd.nInInterests, some (Block.ofNumber Tlv.Nfd.nInInterests status.nInInterests.toNat)),
    (Tlv.Nfd.nInDatas, some (Block.ofNumber Tlv.Nfd.nInDatas status.nInDatas.toNat)),
    (Tlv.Nfd.nInNacks, some (Block.ofNumber Tlv.Nfd.nInNacks status.nInNacks.toNat)),
    (Tlv.Nfd.nOutInterests,
      some (Block.ofNumber Tlv.Nfd.nOutInterests status.nOutInterests.toNat)),
    (Tlv.Nfd.nOutDatas, some (Block.ofNumber Tlv.Nfd.nOutDatas status.nOutDatas.toNat)),
    (Tlv.Nfd.nOutNacks, some (Block.ofNumber Tlv.Nfd.nOutNacks status.nOutNacks.toNat)),
    (Tlv.Nfd.nInBytes, some (Block.ofNumber Tlv.Nfd.nInBytes status.nInBytes.toNat)),
    (Tlv.Nfd.nOutBytes, some (Block.ofNumber Tlv.Nfd.nOutBytes status.nOutBytes.toNat))]

def elements (status : FaceStatus) : List Block := Block.fieldElements status.fields

def toBlock (status : FaceStatus) : Block :=
  Block.ofElements Tlv.Nfd.faceStatus status.elements

theorem wireEncodeInto_eq (status : FaceStatus) :
    status.wireEncodeInto = status.toBlock.wire := by
  simp only [wireEncodeInto, toBlock, Block.ofElements, elements, Block.fieldElements, fields,
    List.flatMap_cons, List.flatMap_nil, List.flatMap_append, Block.flatMap_wire_map,
    Option.toList_some, List.append_nil]
  rfl

theorem isRecord_fields (status : FaceStatus) : Block.IsRecord status.fields where
  elements := by
    simp only [fields, List.forall_mem_cons, List.not_mem_nil, false_implies, implies_true, and_true,
      Block.forall_mem_map, Option.mem_some_iff, forall_eq']
    exact ⟨⟨_, rfl⟩, ⟨_, rfl⟩, ⟨_, rfl⟩, fun _ _ ↦ ⟨_, rfl⟩, ⟨_, rfl⟩, ⟨_, rfl⟩, ⟨_, rfl⟩, ⟨_, rfl⟩,
      ⟨_, rfl⟩, ⟨_, rfl⟩, ⟨_, rfl⟩, ⟨_, rfl⟩, ⟨_, rfl⟩, ⟨_, rfl⟩, ⟨_, rfl⟩⟩
  small := of_decide_eq_true rfl
  distinct := of_decide_eq_true rfl

theorem wireDecode_toBlock {written : FaceStatus} (prior : FaceStatus)
    (hsize : written.toBlock.wire.length < 2 ^ 64) :
    prior.wireDecode written.toBlock = .ok { written with wire := some written.toBlock } := by
  have hparse : Block.parse written.toBlock.value = .ok (Block.fieldElements written.fields) :=
    written.isRecord_fields.parse_eq hsize
  have htype : written.toBlock.type = Tlv.Nfd.faceStatus := rfl
  -- what is left of the record in front of each member is a record again
  have hfaceId := written.isRecord_fields
  have hremoteUri := hfaceId.tail
  have hlocalUri := hremoteUri.tail
  have hexpirationPeriod := hlocalUri.tail
  have hfaceScope := hexpirationPeriod.tail
  have hfacePersistency := hfaceScope.tail
  have hlinkType := hfacePersistency.tail
  have hnInInterests := hlinkType.tail
  have hnInDatas := hnInInterests.tail
  have hnInNacks := hnInDatas.tail
  have hnOutInterests := hnInNacks.tail
  have hnOutDatas := hnOutInterests.tail
  have hnOutNacks := hnOutDatas.tail
  have hnInBytes := hnOutNacks.tail
  have hnOutBytes := hnInBytes.tail
  replace hfaceId := hfaceId.takeRequired_eq (missing "FaceId") (Block.readUInt64_ofNumber _ _)
  replace hremoteUri := hremoteUri.takeRequired_eq (missing "Uri") (Block.readString_ofValue _ _)
  replace hlocalUri := hlocalUri.takeRequired_eq (missing "LocalUri") (Block.readString_ofValue _ _)
  replace hexpirationPeriod := hexpirationPeriod.takeOptional_eq fun _ _ ↦
    Block.readMilliseconds_ofNumber _ _
  replace hfaceScope := hfaceScope.takeRequired_eq (missing "FaceScope")
    (Block.readEnum8_ofNumber _ _)
  replace hfacePersistency := hfacePersistency.takeRequired_eq (missing "FacePersistency")
    (Block.readEnum8_ofNumber _ _)
  replace hlinkType := hlinkType.takeRequired_eq (missing "LinkType") (Block.readEnum8_ofNumber _ _)
  replace hnInInterests := hnInInterests.takeRequired_eq (missing "NInInterests")
    (Block.readUInt64_ofNumber _ _)
  replace hnInDatas := hnInDatas.takeRequired_eq (missing "NInDatas")
    (Block.readUInt64_ofNumber _ _)
  replace hnInNacks := hnInNacks.takeRequired_eq (missing "NInNacks")
    (Block.readUInt64_ofNumber _ _)
  replace hnOutInterests := hnOutInterests.takeRequired_eq (missing "NOutInterests")
    (Block.readUInt64_ofNumber _ _)
  replace hnOutDatas := hnOutDatas.takeRequired_eq (missing "NOutDatas")
    (Block.readUInt64_ofNumber _ _)
  replace hnOutNacks := hnOutNacks.takeRequired_eq (missing "NOutNacks")
    (Block.readUInt64_ofNumber _ _)
  replace hnInBytes := hnInBytes.takeRequired_eq (missing "NInBytes")
    (Block.readUInt64_ofNumber _ _)
  replace hnOutBytes := hnOutBytes.takeRequired_eq (missing "NOutBytes")
    (Block.readUInt64_ofNumber _ _)
  simp only [wireDecode, if_neg (not_not.mpr htype), hparse, fields, hfaceId, hremoteUri, hlocalUri,
    hexpirationPeriod, hfaceScope, hfacePersistency, hlinkType, hnInInterests, hnInDatas, hnInNacks,
    hnOutInterests, hnOutDatas, hnOutNacks, hnInBytes, hnOutBytes, bind, Except.bind, pure,
    Except.pure]

/-! ## Runs of setters -/

theorem discards : codes.Discards perform where
  stored_perform := by
    rintro object call next hnext
    cases hnext
    cases call <;> rfl
  stored_store := by
    rintro object code next hstore
    cases hstore
    rfl
  encode_store := by
    rintro object code next hstore
    cases hstore
    rfl
  store_stored := by
    rintro object code hstored
    simp only [codes] at hstored ⊢
    rw [← hstored]

variable {status : FaceStatus}

theorem encode_eq (hsize : status.wireEncodeInto.length < 2 ^ 64) :
    codes.encode status = .ok status.toBlock := by
  rw [wireEncodeInto_eq] at hsize
  simp only [codes, wireEncodeInto_eq]
  exact Block.fromWire_ofElements (by decide) hsize

theorem readsBack (hfresh : codes.IsFresh status) (hsize : status.wireEncodeInto.length < 2 ^ 64) :
    codes.ReadsBack wireDecode status := by
  apply discards.readsBack hfresh (encode_eq hsize) rfl
  intro prior
  rw [wireEncodeInto_eq] at hsize
  exact wireDecode_toBlock prior hsize

end FaceStatus

end NdnCxx.Mgmt
