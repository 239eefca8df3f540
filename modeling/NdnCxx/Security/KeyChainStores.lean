import NdnCxx.Packet.SignedPortion
import NdnCxx.Security.CertificateNames
import NdnCxx.Security.SecTpm
import NdnCxx.Security.SigningInfo

/-!
# A key chain over its two stores

`KeyChain` creates, uses and deletes keys in two stores at once: the public information in
`m_pib` and the key files in `m_tpm`. Its functions call the stores one after the other, and an exception
of either one leaves what was done before. Some of the exceptions of the PIB are handled, and then a key
or a certificate that was not found is made.

The certificates that a key chain makes are signed, and the bytes that are signed enter as a reading,
because a library outside of the repository writes them.
-/

namespace NdnCxx

open SecPublicInfo (Thrown)
open Validation (KeyType PublicKeyInfo)

namespace KeyChain

/-- `m_pib` and `m_tpm` -/
structure Stores where
  pib : SecPublicInfo
  tpm : SecTpm

/-- What a call reads from the clock and from the random pools: the times and random numbers of its
first and its second key, the time of its certificate and the bytes of it that are signed, a random word,
and the random numbers for signatures. -/
structure Readings where
  keyTime : ℕ
  keyRandom : ℕ
  nextKeyTime : ℕ
  nextKeyRandom : ℕ
  certTime : ℕ
  unsignedPortion : SecPublicInfo.Certificate → Bytes
  word : Bytes
  random : ℕ

abbrev Task (Value : Type) := Throwing Stores Thrown Value

namespace Stores

def initial : Stores := ⟨.initial, .empty⟩

def onPib {Value : Type} (call : SecPublicInfo.Call Value) : Task Value :=
  call.onPart Stores.pib fun pib stores ↦ { stores with pib := pib }

def onTpm {Value : Type} (call : Throwing SecTpm Thrown Value) : Task Value :=
  call.onPart Stores.tpm fun tpm stores ↦ { stores with tpm := tpm }

/-- `catch (const SecPublicInfo::Error&)` -/
def catchPublicInfo {Value : Type} (call handler : Task Value) : Task Value :=
  tryCatch call fun exception ↦
    match exception with
    | .publicInfo _ => handler
    | _ => throw exception

variable (library : KeyLibrary) (sha256 : Bytes → Bytes)

/-! ## Keys and certificates -/

/-- `KeyChain::generateKeyPair`; the name of the key is read again from its URI. -/
@[irreducible] def generateKeyPair (identityName : Name) (isKsk : Bool) (params : KeyParams)
    (keyTime keyRandom : ℕ) : Task Name := do
  let keyName ← .reads fun stores ↦
    stores.pib.getNewKeyName identityName isKsk (toUnixTimestamp keyTime)
  let tpmName ← .reads fun _ ↦ SecPublicInfo.readName keyName.toUri
  onTpm (SecTpm.generateKeyPairInTpm library tpmName params keyRandom)
  let pubKey ← .reads fun stores ↦ stores.tpm.getPublicKeyFromTpm tpmName
  modify fun stores ↦ { stores with pib := stores.pib.addKey keyName pubKey }
  return keyName

/-- `KeyChain::generateRsaKeyPairAsDefault` and `KeyChain::generateEcdsaKeyPairAsDefault` -/
@[irreducible] def generateKeyPairAsDefault (identityName : Name) (isKsk : Bool) (params : KeyParams)
    (keyTime keyRandom : ℕ) : Task Name := do
  let keyName ← generateKeyPair library identityName isKsk params keyTime keyRandom
  onPib (SecPublicInfo.setDefaultKeyNameForIdentity keyName)
  return keyName

def pureSign (stores : Stores) (buffer : Bytes) (keyName : Name) (random : ℕ) :
    Except Thrown Block.Unencoded :=
  if keyName.equals digestSha256Identity then
    .ok ⟨Tlv.signatureValue, .value (sha256 buffer), []⟩
  else stores.tpm.signInTpm library buffer keyName random

/-- `KeyChain::selfSign(IdentityCertificate&)` -/
@[irreducible] def selfSignCertificate (certificate : SecPublicInfo.Certificate)
    (readings : Readings) : Task Unit := do
  if !(← get).tpm.doesKeyExistInTpm certificate.publicKeyName .privateClass then
    throw (.tpm "Private key does not exist")
  else
    let _ ← .reads fun stores ↦ stores.pureSign library sha256
      (readings.unsignedPortion certificate) certificate.publicKeyName readings.random

/-- `KeyChain::selfSign`; `none` is its `nullptr`. -/
@[irreducible] def selfSign (keyName : Name) (readings : Readings) :
    Task (Option SecPublicInfo.Certificate) := do
  match (← get).pib.getPublicKey keyName with
  | .error (.publicInfo _) => return none
  | .error exception => throw exception
  | .ok pubKey =>
      match keyName.get (-1) with
      | none => throw .undefined
      | some keyId =>
          let certificateName := keyName.getPrefix (-1) ++ [keyComponent] ++ [keyId] ++
            [idCertComponent, .fromVersion (toUnixTimestamp readings.certTime)]
          match hnamed : Validation.IdentityCertificate.publicKeyNameOf certificateName with
          | .error error => throw (.error error)
          | .ok publicKeyName =>
              let certificate : SecPublicInfo.Certificate :=
                ⟨certificateName, publicKeyName, pubKey, some (certificateName.getPrefix (-1)), none,
                  hnamed⟩
              selfSignCertificate library sha256 certificate readings
              return some certificate

/-- A certificate that is signed by its own key and becomes the default; without one, a null pointer is
followed. -/
@[irreducible] def addSelfSigned (keyName : Name) (readings : Readings) :
    Task SecPublicInfo.Certificate := do
  match ← selfSign library sha256 keyName readings with
  | none => throw .undefined
  | some selfCert =>
      onPib (SecPublicInfo.addCertificateAsIdentityDefault selfCert)
      return selfCert

@[irreducible] def createIdentity (identityName : Name) (params : KeyParams) (readings : Readings) :
    Task Name := do
  modify fun stores ↦ { stores with pib := stores.pib.addIdentity identityName }
  let keyName ← catchPublicInfo
    (do
      let keyName ← .reads fun stores ↦ stores.pib.getDefaultKeyNameForIdentity identityName
      let key ← .reads fun stores ↦ stores.pib.getPublicKey keyName
      if some key.keyType ≠ params.keyType then
        generateKeyPairAsDefault library identityName true params readings.keyTime readings.keyRandom
      else return keyName)
    (generateKeyPairAsDefault library identityName true params readings.nextKeyTime
      readings.nextKeyRandom)
  catchPublicInfo (.reads fun stores ↦ stores.pib.getDefaultCertificateNameForKey keyName)
    (do return (← addSelfSigned library sha256 keyName readings).name)

/-! ## Signing -/

def getDefaultKeyParamsForIdentity (stores : Stores) (identityName : Name) :
    Except Thrown KeyParams :=
  match stores.pib.getDefaultKeyNameForIdentity identityName with
  | .error (.publicInfo _) => .ok (.rsa 2048)
  | .error exception => .error exception
  | .ok keyName =>
      match stores.pib.getPublicKeyType keyName with
      | some .rsa => .ok (.rsa 2048)
      | some .ecdsa => .ok (.ecdsa 256)
      | none => .ok (.rsa 2048)

@[irreducible] def setDefaultCertificateInternal (readings : Readings) : Task Unit := do
  onPib SecPublicInfo.refreshDefaultCertificate
  if (← get).pib.defaultCertificate.isNone then
    let defaultIdentity ← catchPublicInfo (.reads fun stores ↦ stores.pib.getDefaultIdentity)
      (pure [.generic ("tmp-identity".toList.map fun char ↦ UInt8.ofNat char.toNat),
        .generic readings.word])
    let _ ← createIdentity library sha256 defaultIdentity (.rsa 2048) readings
    onPib (SecPublicInfo.setDefaultIdentity defaultIdentity)
    onPib SecPublicInfo.refreshDefaultCertificate

/-- `KeyChain::getDefaultCertificate`; `none` is its `nullptr`. -/
@[irreducible] def getDefaultCertificate (readings : Readings) :
    Task (Option SecPublicInfo.Certificate) := do
  if (← get).pib.defaultCertificate.isNone then
    setDefaultCertificateInternal library sha256 readings
  return (← get).pib.defaultCertificate

/-- The certificate that `prepareSignatureInfo` chooses for a signer; the digest has none. -/
@[irreducible] def signingCertificate (params : SigningInfo) (readings : Readings) :
    Task (Option SecPublicInfo.Certificate) := do
  match params.signerType with
  | .null =>
      match ← getDefaultCertificate library sha256 readings with
      | none => throw .undefined
      | some signingCert => return some signingCert
  | .id =>
      let signingCertName ← catchPublicInfo
        (.reads fun stores ↦ stores.pib.getDefaultCertificateNameForIdentity params.signerName)
        (do
          let keyParams ← .reads fun stores ↦
            stores.getDefaultKeyParamsForIdentity params.signerName
          createIdentity library sha256 params.signerName keyParams readings)
      return some (← .reads fun stores ↦ stores.pib.getCertificate signingCertName)
  | .key =>
      let signingCertName ← catchPublicInfo
        (.reads fun stores ↦ stores.pib.getDefaultCertificateNameForKey params.signerName)
        (throw (.keyChain "signing certificate does not exist"))
      return some (← .reads fun stores ↦ stores.pib.getCertificate signingCertName)
  | .cert => return some (← .reads fun stores ↦ stores.pib.getCertificate params.signerName)
  | .sha256 => return none

def getSignatureType : KeyType → ℕ
  | .rsa => Tlv.signatureSha256WithRsa
  | .ecdsa => Tlv.signatureSha256WithEcdsa

/-- The key and the signature information for a chosen certificate -/
def signatureInfoOf (params : SigningInfo) :
    Option SecPublicInfo.Certificate → Name × Packet.SignatureInfo
  | none => (digestSha256Identity, params.signatureInfo.setSignatureType Tlv.digestSha256)
  | some signingCert =>
      let sigInfo :=
        params.signatureInfo.setSignatureType (getSignatureType signingCert.publicKeyInfo.keyType)
      (signingCert.publicKeyName,
        sigInfo.setKeyLocator { type := .name, name := signingCert.name.getPrefix (-1) })

def prepareSignatureInfo (params : SigningInfo) (readings : Readings) :
    Task (Name × Packet.SignatureInfo) := do
  return signatureInfoOf params (← signingCertificate library sha256 params readings)

def signPacketWrapper (data : Packet.Data) (signature : Packet.Signature) (keyName : Name)
    (random : ℕ) : Task Packet.Data := do
  let unsigned := data.setSignature signature
  let (_, encoder) ← .reads fun _ ↦
    (unsigned.wireEncodeOn true (Encoder.make 8800 400)).mapError Thrown.error
  let sigValue ← .reads fun stores ↦
    stores.pureSign library sha256 encoder.content keyName random
  .reads fun _ ↦ (unsigned.wireEncodeSigned encoder sigValue).mapError Thrown.error

/-- `KeyChain::sign(const uint8_t*, size_t, const SigningInfo&)` -/
def signBuffer (buffer : Bytes) (params : SigningInfo) (readings : Readings) :
    Task Block.Unencoded := do
  let (keyName, _) ← prepareSignatureInfo library sha256 params readings
  .reads fun stores ↦ stores.pureSign library sha256 buffer keyName readings.random

def sign (data : Packet.Data) (params : SigningInfo) (readings : Readings) : Task Packet.Data := do
  let (keyName, sigInfo) ← prepareSignatureInfo library sha256 params readings
  signPacketWrapper library sha256 data { info := sigInfo } keyName readings.random

/-! ## Deleting -/

def deleteKey (keyName : Name) : Task Unit := do
  modify fun stores ↦ { stores with pib := stores.pib.deletePublicKeyInfo keyName }
  modify fun stores ↦ { stores with tpm := stores.tpm.deleteKeyPairInTpm keyName }

def deleteIdentity (identity : Name) : Task Unit := do
  let defaultNames ← .reads fun stores ↦ stores.pib.getAllKeyNamesOfIdentity identity true
  let otherNames ← .reads fun stores ↦ stores.pib.getAllKeyNamesOfIdentity identity false
  modify fun stores ↦ { stores with pib := stores.pib.deleteIdentityInfo identity }
  modify fun stores ↦
    { stores with tpm := (defaultNames ++ otherNames).foldl SecTpm.deleteKeyPairInTpm stores.tpm }

end Stores

end KeyChain

end NdnCxx
