import NdnCxx.Encoding.Block
import NdnCxx.Name.Name

/-!
# Data packets

Signed packets as the receiving side sees them: a `Data` always has a wire, from which its implicit
digest is computed. The digest function is outside the repository and enters as the parameter
`sha256`.
-/

namespace NdnCxx

/-- `Name::wireDecode`; the components are the sub-elements, of whatever type. -/
def Name.wireDecode (wire : Block) : Except Error Name :=
  if wire.type ≠ Tlv.name then throw ⟨.tlv, "Unexpected TLV type when decoding Name"⟩
  else do return (← Block.parse wire.value).map fun element ↦ ⟨element.type, element.value⟩

theorem Name.wireDecode_onlyTlvErrors (wire : Block) : OnlyTlvErrors (Name.wireDecode wire) :=
  .ite (.throw rfl) (.bind (Block.parse_onlyTlvErrors _) fun _ ↦ .ok _)

/-! ## Key locators and signature information -/

/-- `KeyLocator::Type`, with the element the type announces. -/
inductive KeyLocator.Content
  | none
  | name (name : Name)
  | keyDigest (keyDigest : Block)
  | unknown
  deriving DecidableEq

/-- A `KeyLocator` together with the bytes `wireEncode` returns for it. -/
structure KeyLocator where
  content : KeyLocator.Content
  wire : Bytes
  deriving DecidableEq

namespace KeyLocator

def isEmpty (keyLocator : KeyLocator) : Bool := keyLocator.content == .none

def getName (keyLocator : KeyLocator) : Except Error Name :=
  match keyLocator.content with
  | .name name => .ok name
  | _ => .error ⟨.keyLocator, "KeyLocator type is not Name"⟩

def wireDecode (wire : Block) : Except Error KeyLocator :=
  if wire.type ≠ Tlv.keyLocator then
    throw ⟨.keyLocator, "Unexpected TLV type during KeyLocator decoding"⟩
  else do
    match ← Block.parse wire.value with
    | [] => return ⟨.none, wire.wire⟩
    | first :: _ =>
        if first.type = Tlv.name then return ⟨.name (← Name.wireDecode first), wire.wire⟩
        else if first.type = Tlv.keyDigest then return ⟨.keyDigest first, wire.wire⟩
        else return ⟨.unknown, wire.wire⟩

theorem wireDecode_onlyTlvErrors (wire : Block) : OnlyTlvErrors (wireDecode wire) := by
  refine .ite (.throw rfl) (.bind (Block.parse_onlyTlvErrors _) fun elements ↦ ?_)
  cases elements with
  | nil => exact .ok _
  | cons first rest =>
    exact .ite (.bind (Name.wireDecode_onlyTlvErrors first) fun _ ↦ .ok _) (.ite (.ok _) (.ok _))

end KeyLocator

/-- `SignatureInfo`, as laid out by `wireDecode`: the type, the key locator if it stands second, and
the remaining sub-TLVs. -/
structure SignatureInfo where
  type : ℕ
  keyLocator : Option KeyLocator
  otherTlvs : List Block
  deriving DecidableEq

namespace SignatureInfo

def hasKeyLocator (info : SignatureInfo) : Bool := info.keyLocator.isSome

def getKeyLocator (info : SignatureInfo) : Except Error KeyLocator :=
  match info.keyLocator with
  | some keyLocator => .ok keyLocator
  | none => .error ⟨.signatureInfo, "KeyLocator does not exist"⟩

/-- `getInfo().find(tlv::KeyLocator)`: the bytes of the first sub-element of that type. A key
locator behind another sub-TLV is found here, although `hasKeyLocator` does not see it. -/
def findKeyLocator (info : SignatureInfo) : Option Bytes :=
  match info.keyLocator with
  | some keyLocator => some keyLocator.wire
  | none => (info.otherTlvs.find? fun block ↦ block.type == Tlv.keyLocator).map Block.wire

/-- `SignatureInfo::wireDecode`. The number is stored as `int32_t` and read back by
`Signature::getType` as `uint32_t`. -/
def wireDecode (wire : Block) : Except Error SignatureInfo := do
  let elements ← Block.parse wire.value
  if wire.type ≠ Tlv.signatureInfo then throw ⟨.tlv, "Unexpected TLV type when decoding Name"⟩
  else
    match elements with
    | [] => throw missingSignatureType
    | first :: rest =>
        if first.type ≠ Tlv.signatureType then throw missingSignatureType
        else
          let type ← Tlv.readNonNegativeInteger first.value.length first.value
          match rest with
          | [] => return ⟨type % 2 ^ 32, none, []⟩
          | second :: others =>
              -- the second block could be KeyLocator
              if second.type = Tlv.keyLocator then
                return ⟨type % 2 ^ 32, some (← KeyLocator.wireDecode second), others⟩
              else return ⟨type % 2 ^ 32, none, second :: others⟩
where
  missingSignatureType : Error :=
    ⟨.signatureInfo,
      "SignatureInfo does not have sub-TLV or the first sub-TLV is not SignatureType"⟩

/-- The signature of a signed Interest, decoded from the last two components of its name. The value
takes part in the verification only. -/
def ofInterestName (name : Name) : Except Error SignatureInfo := do
  let info ← Block.blockFromValue ((name.get (-2)).getD Component.empty).value
  let _value ← Block.blockFromValue ((name.get (-1)).getD Component.empty).value
  wireDecode info

theorem wireDecode_onlyTlvErrors (wire : Block) : OnlyTlvErrors (wireDecode wire) := by
  refine .bind (Block.parse_onlyTlvErrors _) fun elements ↦ .ite (.throw rfl) ?_
  cases elements with
  | nil => exact .throw rfl
  | cons first rest =>
    refine .ite (.throw rfl) (.bind (Tlv.readNonNegativeInteger_onlyTlvErrors _ _) fun _ ↦ ?_)
    cases rest with
    | nil => exact .ok _
    | cons second others =>
      exact .ite (.bind (KeyLocator.wireDecode_onlyTlvErrors second) fun _ ↦ .ok _) (.ok _)

theorem ofInterestName_onlyTlvErrors (name : Name) : OnlyTlvErrors (ofInterestName name) :=
  .bind (Block.blockFromValue_onlyTlvErrors _) fun _ ↦
    .bind (Block.blockFromValue_onlyTlvErrors _) fun _ ↦ wireDecode_onlyTlvErrors _

end SignatureInfo

/-! ## Data -/

/-- A `Data` packet that has a wire; the FinalBlockId is that of its MetaInfo. -/
structure Data where
  name : Name
  finalBlockId : Component := Component.empty
  content : Bytes := []
  signatureInfo : SignatureInfo
  wire : Bytes
  deriving DecidableEq

/-- `Data::getFullName`: the name followed by the implicit digest of the wire. -/
def Data.getFullName (sha256 : Bytes → Bytes) (data : Data) : Name :=
  data.name ++ [⟨Tlv.implicitSha256DigestComponent, sha256 data.wire⟩]

@[simp]
theorem Data.length_getFullName (sha256 : Bytes → Bytes) (data : Data) :
    (data.getFullName sha256).length = data.name.length + 1 := by
  simp [getFullName]

end NdnCxx
