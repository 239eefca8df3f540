import NdnCxx.Mgmt.ControlParameters

/-!
# Face query filters

`FaceQueryFilter` with its seven members, each of which may be absent. The decoder goes through the
elements once: an element that stands out of order ends it, and the members behind are absent.
-/

namespace NdnCxx.Mgmt

open Block (prependOptional takeOptional)

/-- `FaceQueryFilter` with its members. -/
structure FaceQueryFilter where
  faceId : Option UInt64 := none
  uriScheme : Option Bytes := none
  remoteUri : Option Bytes := none
  localUri : Option Bytes := none
  faceScope : Option FaceScope := none
  facePersistency : Option FacePersistency := none
  linkType : Option LinkType := none
  wire : Option Block := none
  deriving DecidableEq

namespace FaceQueryFilter

/-- `FaceQueryFilter::wireEncode(EncodingImpl<TAG>&)`; the elements are prepended last to first. -/
def wireEncodeInto (filter : FaceQueryFilter) : Bytes :=
  let linkType := prependOptional filter.linkType fun linkType ↦
    Block.prependNonNegativeIntegerBlock Tlv.Nfd.linkType linkType.toNat
  let facePersistency := prependOptional filter.facePersistency fun facePersistency ↦
    Block.prependNonNegativeIntegerBlock Tlv.Nfd.facePersistency facePersistency.toNat
  let faceScope := prependOptional filter.faceScope fun faceScope ↦
    Block.prependNonNegativeIntegerBlock Tlv.Nfd.faceScope faceScope.toNat
  let localUri := prependOptional filter.localUri (Tlv.prependByteArrayBlock Tlv.Nfd.localUri)
  let remoteUri := prependOptional filter.remoteUri (Tlv.prependByteArrayBlock Tlv.Nfd.uri)
  let uriScheme := prependOptional filter.uriScheme (Tlv.prependByteArrayBlock Tlv.Nfd.uriScheme)
  let faceId := prependOptional filter.faceId fun faceId ↦
    Block.prependNonNegativeIntegerBlock Tlv.Nfd.faceId faceId.toNat
  Tlv.prependByteArrayBlock Tlv.Nfd.faceQueryFilter
    (faceId ++ (uriScheme ++ (remoteUri ++ (localUri ++ (faceScope ++ (facePersistency ++
      linkType))))))

def codes : CodeStore FaceQueryFilter Block Error where
  encode filter := Block.fromWire filter.wireEncodeInto
  stored := FaceQueryFilter.wire
  store filter wire := .ok { filter with wire := some wire }

def wireEncode (filter : FaceQueryFilter) : Except Error (Block × FaceQueryFilter) :=
  codes.recallCode filter

/-- `FaceQueryFilter::wireDecode`; all fields are optional. -/
def wireDecode (_filter : FaceQueryFilter) (block : Block) : Except Error FaceQueryFilter := do
  if block.type ≠ Tlv.Nfd.faceQueryFilter then
    throw ⟨.tlv, "expecting FaceQueryFilter block"⟩
  let val ← Block.parse block.value
  let (faceId, val) ← takeOptional Tlv.Nfd.faceId Block.readUInt64 val
  let (uriScheme, val) ← takeOptional Tlv.Nfd.uriScheme Block.readString val
  let (remoteUri, val) ← takeOptional Tlv.Nfd.uri Block.readString val
  let (localUri, val) ← takeOptional Tlv.Nfd.localUri Block.readString val
  let (faceScope, val) ← takeOptional Tlv.Nfd.faceScope Block.readEnum8 val
  let (facePersistency, val) ← takeOptional Tlv.Nfd.facePersistency Block.readEnum8 val
  let (linkType, _) ← takeOptional Tlv.Nfd.linkType Block.readEnum8 val
  return {
    faceId := faceId
    uriScheme := uriScheme
    remoteUri := remoteUri
    localUri := localUri
    faceScope := faceScope
    facePersistency := facePersistency
    linkType := linkType
    wire := some block }

/-! ## Setters -/

/-- The calls of the setters and the unsetters -/
inductive Call
  | setFaceId (faceId : UInt64)
  | unsetFaceId
  | setUriScheme (uriScheme : Bytes)
  | unsetUriScheme
  | setRemoteUri (remoteUri : Bytes)
  | unsetRemoteUri
  | setLocalUri (localUri : Bytes)
  | unsetLocalUri
  | setFaceScope (faceScope : FaceScope)
  | unsetFaceScope
  | setFacePersistency (facePersistency : FacePersistency)
  | unsetFacePersistency
  | setLinkType (linkType : LinkType)
  | unsetLinkType
  deriving DecidableEq

/-- The setters and unsetters; each of them resets `m_wire`. -/
def call (filter : FaceQueryFilter) : Call → FaceQueryFilter
  | .setFaceId faceId => { filter with faceId := some faceId, wire := none }
  | .unsetFaceId => { filter with faceId := none, wire := none }
  | .setUriScheme uriScheme => { filter with uriScheme := some uriScheme, wire := none }
  | .unsetUriScheme => { filter with uriScheme := none, wire := none }
  | .setRemoteUri remoteUri => { filter with remoteUri := some remoteUri, wire := none }
  | .unsetRemoteUri => { filter with remoteUri := none, wire := none }
  | .setLocalUri localUri => { filter with localUri := some localUri, wire := none }
  | .unsetLocalUri => { filter with localUri := none, wire := none }
  | .setFaceScope faceScope => { filter with faceScope := some faceScope, wire := none }
  | .unsetFaceScope => { filter with faceScope := none, wire := none }
  | .setFacePersistency facePersistency =>
      { filter with facePersistency := some facePersistency, wire := none }
  | .unsetFacePersistency => { filter with facePersistency := none, wire := none }
  | .setLinkType linkType => { filter with linkType := some linkType, wire := none }
  | .unsetLinkType => { filter with linkType := none, wire := none }

/-- The setters return normally. -/
def perform (filter : FaceQueryFilter) (call : Call) : Option FaceQueryFilter :=
  some (filter.call call)

/-! ## Reading back what was written -/

def fields (filter : FaceQueryFilter) : List (ℕ × Option Block) :=
  [(Tlv.Nfd.faceId, filter.faceId.map fun faceId ↦ Block.ofNumber Tlv.Nfd.faceId faceId.toNat),
    (Tlv.Nfd.uriScheme, filter.uriScheme.map (Block.ofValue Tlv.Nfd.uriScheme)),
    (Tlv.Nfd.uri, filter.remoteUri.map (Block.ofValue Tlv.Nfd.uri)),
    (Tlv.Nfd.localUri, filter.localUri.map (Block.ofValue Tlv.Nfd.localUri)),
    (Tlv.Nfd.faceScope, filter.faceScope.map fun faceScope ↦
      Block.ofNumber Tlv.Nfd.faceScope faceScope.toNat),
    (Tlv.Nfd.facePersistency, filter.facePersistency.map fun facePersistency ↦
      Block.ofNumber Tlv.Nfd.facePersistency facePersistency.toNat),
    (Tlv.Nfd.linkType, filter.linkType.map fun linkType ↦
      Block.ofNumber Tlv.Nfd.linkType linkType.toNat)]

def elements (filter : FaceQueryFilter) : List Block := Block.fieldElements filter.fields

def toBlock (filter : FaceQueryFilter) : Block :=
  Block.ofElements Tlv.Nfd.faceQueryFilter filter.elements

theorem wireEncodeInto_eq (filter : FaceQueryFilter) :
    filter.wireEncodeInto = filter.toBlock.wire := by
  simp only [wireEncodeInto, toBlock, Block.ofElements, elements, Block.fieldElements, fields,
    List.flatMap_cons, List.flatMap_nil, List.flatMap_append, Block.flatMap_wire_map,
    List.append_nil]
  rfl

theorem isRecord_fields (filter : FaceQueryFilter) : Block.IsRecord filter.fields where
  elements := by
    simp only [fields, List.forall_mem_cons, List.not_mem_nil, false_implies, implies_true, and_true,
      Block.forall_mem_map]
    exact ⟨fun _ _ ↦ ⟨_, rfl⟩, fun _ _ ↦ ⟨_, rfl⟩, fun _ _ ↦ ⟨_, rfl⟩, fun _ _ ↦ ⟨_, rfl⟩,
      fun _ _ ↦ ⟨_, rfl⟩, fun _ _ ↦ ⟨_, rfl⟩, fun _ _ ↦ ⟨_, rfl⟩⟩
  small := of_decide_eq_true rfl
  distinct := of_decide_eq_true rfl

theorem wireDecode_toBlock {written : FaceQueryFilter} (prior : FaceQueryFilter)
    (hsize : written.toBlock.wire.length < 2 ^ 64) :
    prior.wireDecode written.toBlock = .ok { written with wire := some written.toBlock } := by
  have hparse : Block.parse written.toBlock.value = .ok (Block.fieldElements written.fields) :=
    written.isRecord_fields.parse_eq hsize
  have htype : written.toBlock.type = Tlv.Nfd.faceQueryFilter := rfl
  -- what is left of the record in front of each member is a record again
  have hfaceId := written.isRecord_fields
  have huriScheme := hfaceId.tail
  have hremoteUri := huriScheme.tail
  have hlocalUri := hremoteUri.tail
  have hfaceScope := hlocalUri.tail
  have hfacePersistency := hfaceScope.tail
  have hlinkType := hfacePersistency.tail
  replace hfaceId := hfaceId.takeOptional_eq fun _ _ ↦ Block.readUInt64_ofNumber _ _
  replace huriScheme := huriScheme.takeOptional_eq fun _ _ ↦ Block.readString_ofValue _ _
  replace hremoteUri := hremoteUri.takeOptional_eq fun _ _ ↦ Block.readString_ofValue _ _
  replace hlocalUri := hlocalUri.takeOptional_eq fun _ _ ↦ Block.readString_ofValue _ _
  replace hfaceScope := hfaceScope.takeOptional_eq fun _ _ ↦ Block.readEnum8_ofNumber _ _
  replace hfacePersistency := hfacePersistency.takeOptional_eq fun _ _ ↦
    Block.readEnum8_ofNumber _ _
  replace hlinkType := hlinkType.takeOptional_eq fun _ _ ↦ Block.readEnum8_ofNumber _ _
  simp only [wireDecode, if_neg (not_not.mpr htype), hparse, fields, hfaceId, huriScheme,
    hremoteUri, hlocalUri, hfaceScope, hfacePersistency, hlinkType, bind, Except.bind, pure,
    Except.pure]

/-! ## Runs of setters -/

theorem discards : codes.Discards perform where
  stored_perform := by
    rintro object call next hnext
    cases hnext
    cases call <;> rfl
  stored_store := by
    rintro object code next hstore
    cases hstore
    rfl
  encode_store := by
    rintro object code next hstore
    cases hstore
    rfl
  store_stored := by
    rintro object code hstored
    simp only [codes] at hstored ⊢
    rw [← hstored]

variable {filter : FaceQueryFilter}

theorem encode_eq (hsize : filter.wireEncodeInto.length < 2 ^ 64) :
    codes.encode filter = .ok filter.toBlock := by
  rw [wireEncodeInto_eq] at hsize
  simp only [codes, wireEncodeInto_eq]
  exact Block.fromWire_ofElements (by decide) hsize

theorem readsBack (hfresh : codes.IsFresh filter) (hsize : filter.wireEncodeInto.length < 2 ^ 64) :
    codes.ReadsBack wireDecode filter := by
  apply discards.readsBack hfresh (encode_eq hsize) rfl
  intro prior
  rw [wireEncodeInto_eq] at hsize
  exact wireDecode_toBlock prior hsize

end FaceQueryFilter

end NdnCxx.Mgmt
