import NdnCxx.Foundation.MarkedTable
import NdnCxx.Foundation.Throwing
import NdnCxx.Name.UriRoundTrip
import NdnCxx.Security.IdentityCertificate

/-!
# The public information of a key chain

`SecPublicInfoSqlite3` keeps identities, keys and certificates in three tables, under the URIs of their
names. No table refers to another one, and the default rows are marked by pairs of statements, so what
holds the tables together is the order in which the functions write them. The base class keeps the
default certificate of the system in a member, which only some of its functions bring up to date.

A column that holds the DER text of a key is represented by the key, and a column that holds the wire
of a certificate by the certificate.
-/

namespace NdnCxx

open Validation

/-- The thrown classes that some handler tells apart: `SecPublicInfo::Error`, `SecTpm::Error`,
`KeyChain::Error`, those of `Error`, and others that no handler names. What has no defined behaviour,
such as a read behind the end of a name, ends a call as well. -/
inductive SecPublicInfo.Thrown
  | publicInfo (what : String)
  | tpm (what : String)
  | keyChain (what : String)
  | error (error : Error)
  | other (what : String)
  | undefined
  deriving DecidableEq

/-- An `IdentityCertificate`. The name of its signer is `none` where the signature has no key locator
with a name, so that asking for it throws a `tlv::Error`. What `wireEncode` throws, where it does, is
`wireError`: a certificate that no type of signature was set on has no wire. -/
structure SecPublicInfo.Certificate where
  name : Name
  publicKeyName : Name
  publicKeyInfo : PublicKeyInfo
  signerName : Option Name
  wireError : Option Error
  named : IdentityCertificate.publicKeyNameOf name = .ok publicKeyName
  deriving DecidableEq

/-- `SecPublicInfoSqlite3`, with the member of its base class. The owner of a key is the URI of its
identity, and the owner of a certificate is its key. -/
structure SecPublicInfo where
  tpmLocator : Option String
  identities : MarkedTable Unit String Unit
  keys : MarkedTable String (String × String) PublicKeyInfo
  certificates : MarkedTable (String × String) String SecPublicInfo.Certificate
  defaultCertificate : Option SecPublicInfo.Certificate

namespace SecPublicInfo

abbrev Call (Value : Type) := Throwing SecPublicInfo Thrown Value

/-- What ends the insertion of a certificate: the wire is asked for after the name of the signer. -/
def Certificate.fault (certificate : Certificate) : Option Error :=
  certificate.signerName.bind fun _ ↦ certificate.wireError

def Certificate.isStorable (certificate : Certificate) : Bool :=
  certificate.signerName.isSome && certificate.wireError.isNone

/-- The tables that `SecPublicInfoSqlite3::SecPublicInfoSqlite3` creates in a new file -/
def initial : SecPublicInfo := ⟨none, .empty, .empty, .empty, none⟩

/-- The columns of a key: the URI of its identity, and that of the last component of its name -/
def keyColumns (keyName : Name) : Option (String × String) :=
  (keyName.get (-1)).map fun keyId ↦ ((keyName.getPrefix (-1)).toUri, String.ofList keyId.toUri)

def readName (uri : String) : Except Thrown Name := (Name.fromUri uri.toList).mapError Thrown.error

variable (pib : SecPublicInfo)

/-! ## The TPM of the key chain -/

def getTpmLocator : Except Thrown String :=
  match pib.tpmLocator with
  | some tpmLocator => .ok tpmLocator
  | none => .error (.publicInfo "TPM info does not exist")

def setTpmLocatorInternal (tpmLocator : String) (needReset : Bool) : SecPublicInfo :=
  if needReset then
    { pib with
      tpmLocator := some tpmLocator
      identities := .empty
      keys := .empty
      certificates := .empty }
  else { pib with tpmLocator := some tpmLocator }

def setTpmLocator (tpmLocator : String) : SecPublicInfo :=
  match pib.getTpmLocator with
  | .error _ => pib.setTpmLocatorInternal tpmLocator false
  | .ok currentTpm =>
      if currentTpm = tpmLocator then pib else pib.setTpmLocatorInternal tpmLocator true

/-! ## Identities -/

def doesIdentityExist (identityName : Name) : Bool :=
  (pib.identities.row? identityName.toUri).isSome

def addIdentity (identityName : Name) : SecPublicInfo :=
  if pib.doesIdentityExist identityName then pib
  else { pib with identities := pib.identities.insertOrReplace () identityName.toUri () }

/-! ## Keys -/

def doesPublicKeyExist (keyName : Name) : Except Thrown Bool :=
  match keyColumns keyName with
  | none => .error (.publicInfo ("Incorrect key name " ++ keyName.toUri))
  | some columns => .ok (pib.keys.row? columns).isSome

def addKey (keyName : Name) (publicKey : PublicKeyInfo) : SecPublicInfo :=
  match keyColumns keyName with
  | none => pib
  | some columns =>
      if (pib.keys.row? columns).isSome then pib
      else
        let added := pib.addIdentity (keyName.getPrefix (-1))
        { added with keys := added.keys.insertOrReplace columns.1 columns publicKey }

def getPublicKey (keyName : Name) : Except Thrown PublicKeyInfo :=
  match keyColumns keyName with
  | none => .error (.publicInfo "SecPublicInfoSqlite3::getPublicKey  Empty keyName")
  | some columns =>
      match pib.keys.row? columns with
      | none => .error (.publicInfo "SecPublicInfoSqlite3::getPublicKey  public key does not exist")
      | some row => .ok row.value

/-- `SecPublicInfoSqlite3::getPublicKeyType`; `none` is `KEY_TYPE_NULL`. -/
def getPublicKeyType (keyName : Name) : Option KeyType :=
  (keyColumns keyName).bind fun columns ↦ (pib.keys.row? columns).map fun row ↦ row.value.keyType

/-! ## Certificates -/

def doesCertificateExist (certificateName : Name) : Bool :=
  (pib.certificates.row? certificateName.toUri).isSome

/-- The statement of `SecPublicInfoSqlite3::addCertificate`, which is left unfinished where the signer
has no name -/
def insertCertificate (certificate : Certificate) (columns : String × String) : SecPublicInfo :=
  if certificate.signerName.isNone then pib
  else
    { pib with
      certificates := pib.certificates.insertOrReplace columns certificate.name.toUri certificate }

def addCertificate (certificate : Certificate) : Call Unit := do
  let keyName ← .reads fun _ ↦
    (certificateNameToPublicKeyName certificate.name).mapError Thrown.error
  modify fun pib ↦ pib.addKey keyName certificate.publicKeyInfo
  if (← get).doesCertificateExist certificate.name then return
  match keyColumns keyName with
  | none => throw .undefined
  | some columns =>
      match certificate.fault with
      | some error => throw (.error error)
      | none => modify fun pib ↦ pib.insertCertificate certificate columns

def getCertificate (certificateName : Name) : Except Thrown Certificate :=
  match pib.certificates.row? certificateName.toUri with
  | none =>
      .error (.publicInfo "SecPublicInfoSqlite3::getCertificate  certificate does not exist")
  | some row => .ok row.value

/-! ## Defaults -/

def getDefaultIdentity : Except Thrown Name :=
  match pib.identities.marked? () with
  | none => .error (.publicInfo "SecPublicInfoSqlite3::getDefaultIdentity  no default identity")
  | some row => readName row.key

def setDefaultIdentityInternal (identityName : Name) : SecPublicInfo :=
  let added := pib.addIdentity identityName
  { added with identities := (added.identities.unmark ()).mark () identityName.toUri }

/-- `SecPublicInfoSqlite3::getDefaultKeyNameForIdentity`, which appends the key identifier as a name -/
def getDefaultKeyNameForIdentity (identityName : Name) : Except Thrown Name :=
  match pib.keys.marked? identityName.toUri with
  | none =>
      .error (.publicInfo "SecPublicInfoSqlite3::getDefaultKeyNameForIdentity key not found")
  | some row => (readName row.key.2).map (identityName ++ ·)

def setDefaultKeyNameForIdentityInternal (keyName : Name) : Call Unit := do
  if !(← Throwing.reads fun pib ↦ pib.doesPublicKeyExist keyName) then
    throw (.publicInfo ("Key does not exist:" ++ keyName.toUri))
  match keyColumns keyName with
  | none => throw .undefined
  | some columns =>
      modify fun pib ↦
        { pib with keys := (pib.keys.unmark columns.1).mark columns.1 columns }

def getDefaultCertificateNameForKey (keyName : Name) : Except Thrown Name :=
  match keyColumns keyName with
  | none =>
      .error (.publicInfo "SecPublicInfoSqlite3::getDefaultCertificateNameForKey wrong key")
  | some columns =>
      match pib.certificates.marked? columns with
      | none => .error (.publicInfo "certificate not found")
      | some row => readName row.key

def setDefaultCertificateNameForKeyInternal (certificateName : Name) : Call Unit := do
  if !(← get).doesCertificateExist certificateName then
    throw (.publicInfo ("certificate does not exist:" ++ certificateName.toUri))
  let keyName ← .reads fun _ ↦ (certificateNameToPublicKeyName certificateName).mapError Thrown.error
  match keyColumns keyName with
  | none => throw .undefined
  | some columns =>
      modify fun pib ↦
        { pib with
          certificates :=
            (pib.certificates.unmark columns).mark columns certificateName.toUri }

/-! ## Lists -/

/-- `SecPublicInfoSqlite3::getAllKeyNamesOfIdentity`, with the names it appends -/
def getAllKeyNamesOfIdentity (identity : Name) (isDefault : Bool) : Except Thrown (List Name) :=
  (pib.keys.rows.filter fun row ↦
    row.isMarked == isDefault && row.owner = identity.toUri).mapM fun row ↦
      (readName row.key.2).map (identity ++ ·)

/-! ## Deletion -/

def deleteCertificateInfo (certName : Name) : SecPublicInfo :=
  if certName.isEmpty then pib
  else
    { pib with certificates := pib.certificates.deleteWhere fun row ↦ row.key = certName.toUri }

def deletePublicKeyInfo (keyName : Name) : SecPublicInfo :=
  match keyColumns keyName with
  | none => pib
  | some columns =>
      { pib with
        certificates := pib.certificates.deleteWhere fun row ↦ row.owner = columns
        keys := pib.keys.deleteWhere fun row ↦ row.key = columns }

def deleteIdentityInfo (identityName : Name) : SecPublicInfo :=
  { pib with
    certificates := pib.certificates.deleteWhere fun row ↦ row.owner.1 = identityName.toUri
    keys := pib.keys.deleteWhere fun row ↦ row.owner = identityName.toUri
    identities := pib.identities.deleteWhere fun row ↦ row.key = identityName.toUri }

/-! ## The default certificate of the system -/

def getDefaultCertificateNameForIdentity (identityName : Name) : Except Thrown Name := do
  pib.getDefaultCertificateNameForKey (← pib.getDefaultKeyNameForIdentity identityName)

/-- The certificate that `SecPublicInfo::refreshDefaultCertificate` reads -/
def storedDefaultCertificate : Except Thrown Certificate := do
  let certName ← pib.getDefaultCertificateNameForIdentity (← pib.getDefaultIdentity)
  pib.getCertificate certName

def refreshDefaultCertificate : Call Unit := do
  match (← get).storedDefaultCertificate with
  | .ok certificate => modify fun pib ↦ { pib with defaultCertificate := some certificate }
  | .error (.publicInfo _) => modify fun pib ↦ { pib with defaultCertificate := none }
  | .error exception => throw exception

def setDefaultIdentity (identityName : Name) : Call Unit := do
  modify fun pib ↦ pib.setDefaultIdentityInternal identityName
  refreshDefaultCertificate

def setDefaultKeyNameForIdentity (keyName : Name) : Call Unit := do
  setDefaultKeyNameForIdentityInternal keyName
  refreshDefaultCertificate

def setDefaultCertificateNameForKey (certificateName : Name) : Call Unit := do
  setDefaultCertificateNameForKeyInternal certificateName
  refreshDefaultCertificate

def getDefaultCertificateName : Call Name := do
  if (← get).defaultCertificate.isNone then
    refreshDefaultCertificate
  match (← get).defaultCertificate with
  | none => throw (.publicInfo "No default certificate is set")
  | some certificate => return certificate.name

/-- `SecPublicInfo::getNewKeyName`, with the reading of the clock in milliseconds -/
def getNewKeyName (identityName : Name) (useKsk : Bool) (timestamp : ℕ) : Except Thrown Name := do
  let keyId := (if useKsk then "ksk-" else "dsk-") ++ toString timestamp
  let keyName ← (readName keyId).map (identityName ++ ·)
  if ← pib.doesPublicKeyExist keyName then
    throw (.publicInfo ("Key name already exists: " ++ keyName.toUri))
  return keyName

def addCertificateAsKeyDefault (certificate : Certificate) : Call Unit := do
  addCertificate certificate
  setDefaultCertificateNameForKeyInternal certificate.name
  refreshDefaultCertificate

def addCertificateAsIdentityDefault (certificate : Certificate) : Call Unit := do
  addCertificate certificate
  let keyName ← .reads fun _ ↦
    (certificateNameToPublicKeyName certificate.name).mapError Thrown.error
  setDefaultKeyNameForIdentityInternal keyName
  setDefaultCertificateNameForKeyInternal certificate.name
  refreshDefaultCertificate

def addCertificateAsSystemDefault (certificate : Certificate) : Call Unit := do
  addCertificate certificate
  let keyName ← .reads fun _ ↦
    (certificateNameToPublicKeyName certificate.name).mapError Thrown.error
  modify fun pib ↦ pib.setDefaultIdentityInternal (keyName.getPrefix (-1))
  setDefaultKeyNameForIdentityInternal keyName
  setDefaultCertificateNameForKeyInternal certificate.name
  refreshDefaultCertificate

end SecPublicInfo

end NdnCxx
