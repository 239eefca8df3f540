import NdnCxx.Encoding.Elements

/-!
# Fields of link protocol packets

The declared fields with their TLV-TYPEs, locations and values, the way a value is written to and
read from an element, and `FieldInfo`, which classifies any TLV-TYPE. No declared field is repeatable,
and an unknown field is one that cannot be repeated either.
-/

namespace NdnCxx.Lp

namespace Tlv

def lpPacket : ℕ := 100
def fragment : ℕ := 80
def sequence : ℕ := 81
def fragIndex : ℕ := 82
def fragCount : ℕ := 83
def nack : ℕ := 800
def nackReason : ℕ := 801
def nextHopFaceId : ℕ := 816
def incomingFaceId : ℕ := 817
def cachePolicy : ℕ := 820
def cachePolicyType : ℕ := 821

def header3Min : ℕ := 800

def header3Max : ℕ := 959

end Tlv

/-- The exceptions of `lp::Packet` and of its fields, and an access outside a container, whose
behaviour is undefined. -/
inductive Fault
  | packet (what : String)
  | cachePolicy (what : String)
  | tlv (error : Error)
  | lengthError (what : String)
  | outOfRange (what : String)
  | undefinedBehaviour
  deriving DecidableEq

def ofTlv {Value : Type} : Except Error Value → Except Fault Value
  | .ok value => .ok value
  | .error error => .error (.tlv error)

/-! ## Declared fields -/

/-- `field_location_tags` -/
inductive FieldLocation
  | header
  | fragment
  deriving DecidableEq

def FieldLocation.sortOrder : FieldLocation → ℕ
  | header => 1
  | fragment => 2

/-- The fields of `FieldSet` -/
inductive Field
  | fragment
  | sequence
  | fragIndex
  | fragCount
  | nack
  | nextHopFaceId
  | cachePolicy
  | incomingFaceId
  deriving DecidableEq

namespace Field

def fieldSet : List Field :=
  [fragment, sequence, fragIndex, fragCount, nack, nextHopFaceId, cachePolicy, incomingFaceId]

def tlvType : Field → ℕ
  | fragment => Tlv.fragment
  | sequence => Tlv.sequence
  | fragIndex => Tlv.fragIndex
  | fragCount => Tlv.fragCount
  | nack => Tlv.nack
  | nextHopFaceId => Tlv.nextHopFaceId
  | cachePolicy => Tlv.cachePolicy
  | incomingFaceId => Tlv.incomingFaceId

def location : Field → FieldLocation
  | fragment => .fragment
  | sequence | fragIndex | fragCount | nack | nextHopFaceId | cachePolicy | incomingFaceId => .header

/-- `IsRepeatable`, which no declaration sets -/
def isRepeatable (_ : Field) : Bool := false

end Field

/-- `FieldInfo` -/
structure FieldInfo where
  tlvType : ℕ
  isRecognized : Bool := false
  canIgnore : Bool := false
  isRepeatable : Bool := false
  locationSortOrder : ℕ := FieldLocation.header.sortOrder
  deriving DecidableEq

namespace FieldInfo

def extract (info : FieldInfo) (field : Field) : FieldInfo :=
  if field.tlvType ≠ info.tlvType then info
  else
    { info with
      isRecognized := true
      canIgnore := false
      isRepeatable := field.isRepeatable
      locationSortOrder := field.location.sortOrder }

def ofType (tlvType : ℕ) : FieldInfo :=
  let info := Field.fieldSet.foldl extract { tlvType := tlvType }
  if !info.isRecognized then
    { info with
      canIgnore :=
        Tlv.header3Min ≤ tlvType && tlvType ≤ Tlv.header3Max && tlvType % 2 == 1 }
  else info

def compareFieldSortOrder (first second : FieldInfo) : Bool :=
  first.locationSortOrder < second.locationSortOrder ||
    first.locationSortOrder == second.locationSortOrder && first.tlvType < second.tlvType

end FieldInfo

/-! ## Values -/

/-- `NackHeader`, with any code for a reason -/
structure NackHeader where
  reason : UInt32
  deriving DecidableEq

def NackHeader.wireEncode (header : NackHeader) : Bytes :=
  Tlv.prependByteArrayBlock Tlv.nack
    (Block.prependNonNegativeIntegerBlock Tlv.nackReason header.reason.toNat)

/-- `NackHeader::wireDecode`; without an element the reason is `NONE`. -/
def NackHeader.wireDecode (wire : Block) : Except Fault NackHeader :=
  if wire.type ≠ Tlv.nack then .error (.tlv ⟨.tlv, "expecting Nack block"⟩)
  else do
    match ← ofTlv (Block.parse wire.value) with
    | [] => return ⟨0⟩
    | first :: _ =>
        if first.type = Tlv.nackReason then
          return ⟨UInt32.ofNat (← ofTlv first.readNonNegativeInteger)⟩
        else .error (.tlv ⟨.tlv, "expecting NackReason block"⟩)

/-- `CachePolicy`, with any code for a policy; 0 is `NONE`. -/
structure CachePolicy where
  policy : UInt32
  deriving DecidableEq

def CachePolicy.noCache : UInt32 := 1

def CachePolicy.wireEncode (cachePolicy : CachePolicy) : Except Fault Bytes :=
  if cachePolicy.policy = 0 then .error (.cachePolicy "CachePolicyType must be set")
  else
    .ok (Tlv.prependByteArrayBlock Tlv.cachePolicy
      (Block.prependNonNegativeIntegerBlock Tlv.cachePolicyType cachePolicy.policy.toNat))

def CachePolicy.wireDecode (wire : Block) : Except Fault CachePolicy :=
  if wire.type ≠ Tlv.cachePolicy then .error (.cachePolicy "expecting CachePolicy block")
  else do
    match ← ofTlv (Block.parse wire.value) with
    | [] => .error (.cachePolicy "expecting CachePolicyType block")
    | first :: _ =>
        if first.type = Tlv.cachePolicyType then
          let policy := UInt32.ofNat (← ofTlv first.readNonNegativeInteger)
          if policy = noCache then return ⟨policy⟩
          else .error (.cachePolicy "unknown CachePolicyType")
        else .error (.cachePolicy "expecting CachePolicyType block")

namespace Field

def Value : Field → Type
  | fragment => Bytes
  | nack => NackHeader
  | cachePolicy => CachePolicy
  | sequence | fragIndex | fragCount | nextHopFaceId | incomingFaceId => UInt64

def encodeNumber (field : Field) (value : UInt64) : Except Fault Bytes :=
  .ok (Block.prependNonNegativeIntegerBlock field.tlvType value.toNat)

def encode : (field : Field) → field.Value → Except Fault Bytes
  | fragment, range => .ok (Tlv.prependByteArrayBlock Tlv.fragment range)
  | nack, header => .ok (NackHeader.wireEncode header)
  | cachePolicy, policy => CachePolicy.wireEncode policy
  | sequence, value => encodeNumber sequence value
  | fragIndex, value => encodeNumber fragIndex value
  | fragCount, value => encodeNumber fragCount value
  | nextHopFaceId, value => encodeNumber nextHopFaceId value
  | incomingFaceId, value => encodeNumber incomingFaceId value

def decodeNumber (wire : Block) : Except Fault UInt64 := do
  return UInt64.ofNat (← ofTlv wire.readNonNegativeInteger)

def decodeRange (wire : Block) : Except Fault Bytes :=
  if wire.value.isEmpty then
    .error (.tlv ⟨.tlv, toString wire.type ++ " must not be empty"⟩)
  else .ok wire.value

def decodeHelper : (field : Field) → Block → Except Fault field.Value
  | fragment, wire => decodeRange wire
  | nack, wire => NackHeader.wireDecode wire
  | cachePolicy, wire => CachePolicy.wireDecode wire
  | sequence, wire => decodeNumber wire
  | fragIndex, wire => decodeNumber wire
  | fragCount, wire => decodeNumber wire
  | nextHopFaceId, wire => decodeNumber wire
  | incomingFaceId, wire => decodeNumber wire

def decode (field : Field) (wire : Block) : Except Fault field.Value :=
  if wire.type ≠ field.tlvType then
    .error (.tlv ⟨.tlv, "Unexpected TLV type " ++ toString wire.type⟩)
  else field.decodeHelper wire

end Field

end NdnCxx.Lp
