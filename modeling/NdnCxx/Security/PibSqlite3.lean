import NdnCxx.Foundation.DefaultTable
import NdnCxx.Name.StoredName
import NdnCxx.Security.PibMemory

/-!
# The public information base in a database

`PibSqlite3` keeps identities, keys and certificates in three tables. The keys of an identity and the
certificates of a key are connected by foreign keys, which are fields of the database, so that the
deletion of a row takes the rows that refer to it with it. Statements that violate a constraint leave
the tables unchanged, and their result is not looked at.

A column is bound to `wireEncode()` of a name, which is the wire that the name was read from as long as
it is kept. Two columns are equal if the bytes are, so that one name may be in a table twice. A column
that holds the wire of a certificate is represented by the certificate.
-/

namespace NdnCxx

open DefaultTable

/-! ## Names and their wires -/

/-- A name that is given to a PIB, or its column: the components, and the wire that `wireEncode`
returns where it is not the one that the components are encoded to. -/
structure WiredName where
  name : Name
  keptWire : Option Bytes
  deriving DecidableEq

/-- A name that keeps no wire -/
def WiredName.of (name : Name) : WiredName := ⟨name, none⟩

theorem WiredName.of_injective : Function.Injective WiredName.of :=
  fun _ _ hsame ↦ congrArg WiredName.name hsame

theorem WiredName.eq_of {name : WiredName} (hplain : name.keptWire = none) :
    name = .of name.name := by
  cases name
  subst hplain
  rfl

namespace StoredName

def wired (name : StoredName) : WiredName where
  name := name.components
  keptWire :=
    if name.encoded.wire = name.components.toBlock.wire then none else some name.encoded.wire

theorem map_encodedElements (name : StoredName) :
    name.encodedElements.map (fun element ↦ Component.mk element.type element.value) =
      name.components := by
  unfold encodedElements
  split_ifs
  · rfl
  · rw [List.map_map]
    exact List.map_id _

/-- Two names are equal with their wires exactly if the bytes of `wireEncode` are equal. -/
theorem wired_eq_iff {name other : StoredName} (hfits : name.Fits) (hfits' : other.Fits) :
    name.wired = other.wired ↔ name.encoded.wire = other.encoded.wire := by
  constructor
  · intro hsame
    obtain ⟨hcomponents, hkept⟩ := WiredName.mk.inj hsame
    rw [hcomponents] at hkept
    split_ifs at hkept with hplain hplain'
    · rw [hplain, hplain']
    · exact Option.some.inj hkept
  · intro hsame
    have helements := (encodedElements_eq_of_wire hfits hfits' hsame).2
    have hcomponents : name.components = other.components := by
      rw [← map_encodedElements, helements, map_encodedElements]
    rw [wired, wired, hsame, hcomponents]

end StoredName

/-- A certificate that is given to a PIB: its name as it is kept, and whether `wireEncode` finds a wire
or a signature type. -/
structure Pib.GivenCertificate where
  name : WiredName
  certificate : IdentityCertificate
  isSigned : Bool
  named : name.name = certificate.name
  deriving DecidableEq

/-- An operation on a PIB with the names as they are kept -/
inductive Pib.Call
  | addIdentity (identity : WiredName)
  | removeIdentity (identity : WiredName)
  | setDefaultIdentity (identity : WiredName)
  | addKey (identity : WiredName) (keyId : Component) (publicKey : Bytes)
  | removeKey (identity : WiredName) (keyId : Component)
  | setDefaultKeyOfIdentity (identity : WiredName) (keyId : Component)
  | addCertificate (given : Pib.GivenCertificate)
  | removeCertificate (certName : WiredName)
  | setDefaultCertificateOfKey (identity : WiredName) (keyId : Component) (certName : WiredName)
  deriving DecidableEq

/-- What `PibMemory` sees of an operation: it compares names by their components and stores a
certificate whether or not it is signed. -/
def Pib.Call.event : Pib.Call → Pib.Event
  | .addIdentity identity => .addIdentity identity.name
  | .removeIdentity identity => .removeIdentity identity.name
  | .setDefaultIdentity identity => .setDefaultIdentity identity.name
  | .addKey identity keyId publicKey => .addKey identity.name keyId publicKey
  | .removeKey identity keyId => .removeKey identity.name keyId
  | .setDefaultKeyOfIdentity identity keyId => .setDefaultKeyOfIdentity identity.name keyId
  | .addCertificate given => .addCertificate given.certificate
  | .removeCertificate certName => .removeCertificate certName.name
  | .setDefaultCertificateOfKey identity keyId certName =>
      .setDefaultCertificateOfKey identity.name keyId certName.name

/-- `PibSqlite3` -/
structure PibSqlite3 where
  identities : DefaultTable Unit WiredName Unit
  keys : DefaultTable ℕ WiredName Bytes
  certificates : DefaultTable ℕ WiredName IdentityCertificate
  identity_id : ∀ row ∈ keys.rows, ∃ owner ∈ identities.rows, owner.id = row.owner
  key_id : ∀ row ∈ certificates.rows, ∃ owner ∈ keys.rows, owner.id = row.owner

namespace PibSqlite3

open Pib

/-- The tables that `PibSqlite3::PibSqlite3` creates -/
def initial : PibSqlite3 where
  identities := .empty
  keys := .empty
  certificates := .empty
  identity_id := nofun
  key_id := nofun

variable (pib : PibSqlite3)

/-! ## Foreign keys -/

/-- `keys JOIN identities ON keys.identity_id=identities.id WHERE identities.identity=?` -/
def isKeyOf (identity : WiredName) (row : Row ℕ WiredName Bytes) : Bool :=
  pib.identities.rows.any fun owner ↦ owner.id = row.owner && owner.key = identity

/-- `certificates JOIN keys ON certificates.key_id=keys.id WHERE keys.key_name=?` -/
def isCertificateOf (keyName : WiredName) (row : Row ℕ WiredName IdentityCertificate) : Bool :=
  pib.keys.rows.any fun owner ↦ owner.id = row.owner && owner.key = keyName

/-! ## Identities -/

def hasIdentity (identity : WiredName) : Bool := (pib.identities.row? identity).isSome

def addIdentity (identity : WiredName) : PibSqlite3 where
  identities := pib.identities.insert () identity ()
  keys := pib.keys
  certificates := pib.certificates
  identity_id := by
    intro row hrow
    obtain ⟨owner, howner, hid⟩ := pib.identity_id row hrow
    exact ⟨owner, mem_insert_of_mem howner () identity (), hid⟩
  key_id := pib.key_id

/-- `PibSqlite3::removeIdentity`: the keys of the identity go with it, and their certificates with
them. -/
def removeIdentity (identity : WiredName) : PibSqlite3 where
  identities := pib.identities.deleteWhere fun row ↦ row.key = identity
  keys := pib.keys.deleteWhere (pib.isKeyOf identity)
  certificates := pib.certificates.deleteWhere fun row ↦
    pib.keys.rows.any fun key ↦ key.id = row.owner && pib.isKeyOf identity key
  identity_id := by
    intro row hrow
    obtain ⟨hold, hkept⟩ := (mem_deleteWhere _).mp hrow
    obtain ⟨owner, howner, hid⟩ := pib.identity_id row hold
    refine ⟨owner, (mem_deleteWhere _).mpr ⟨howner, decide_eq_false fun hkey ↦ ?_⟩, hid⟩
    have hgone := List.any_eq_false.mp hkept owner howner
    simp [hkey, hid] at hgone
  key_id := by
    intro row hrow
    obtain ⟨hold, hkept⟩ := (mem_deleteWhere _).mp hrow
    obtain ⟨key, hkey, hid⟩ := pib.key_id row hold
    refine ⟨key, (mem_deleteWhere _).mpr ⟨hkey, ?_⟩, hid⟩
    have hgone := List.any_eq_false.mp hkept key hkey
    simpa [hid] using hgone

def getIdentities : NameMap Unit := .ofKeys (pib.identities.rows.map (·.key.name))

def setDefaultIdentity (identityName : WiredName) : PibSqlite3 where
  identities := pib.identities.setDefault identityName
  keys := pib.keys
  certificates := pib.certificates
  identity_id := fun row hrow ↦
    (exists_mem_setDefault_iff fun id _ _ _ ↦ id = row.owner).mpr
      (pib.identity_id row hrow)
  key_id := pib.key_id

def getDefaultIdentity : Except Thrown Name :=
  match pib.identities.rows.find? Row.isDefault with
  | none => .error (.pib "No default identity")
  | some row => .ok row.key.name

/-! ## Keys -/

/-- The column of `getKeyName`, which appends to the identity and so keeps no wire -/
def keyColumn (identity : WiredName) (keyId : Component) : WiredName :=
  .of (getKeyName identity.name keyId)

def hasKey (identity : WiredName) (keyId : Component) : Bool :=
  (pib.keys.row? (keyColumn identity keyId)).isSome

/-- The insertion of `PibSqlite3::addKey`. The identity is looked up by the statement, and a public key
without bits has no data that could be bound; the columns may not be null. -/
def insertKey (identity keyName : WiredName) (publicKey : Bytes) : PibSqlite3 :=
  match howner : pib.identities.row? identity with
  | none => pib
  | some owner =>
      if publicKey = [] then pib
      else
        { pib with
          keys := pib.keys.insert owner.id keyName publicKey
          identity_id := by
            intro row hrow
            rcases owner_of_mem_insert hrow with hold | hnew
            · exact pib.identity_id row hold
            · exact ⟨owner, (row?_eq_some_iff.mp howner).1, hnew.symm⟩
          key_id := by
            intro row hrow
            obtain ⟨key, hkey, hid⟩ := pib.key_id row hrow
            exact ⟨key, mem_insert_of_mem hkey owner.id keyName publicKey, hid⟩ }

def addKey (identity : WiredName) (keyId : Component) (publicKey : Bytes) : PibSqlite3 :=
  if pib.hasKey identity keyId then pib
  else (pib.addIdentity identity).insertKey identity (keyColumn identity keyId) publicKey

/-- `PibSqlite3::removeKey`: the certificates of the key go with it. -/
def removeKey (identity : WiredName) (keyId : Component) : PibSqlite3 where
  identities := pib.identities
  keys := pib.keys.deleteWhere fun row ↦ row.key = keyColumn identity keyId
  certificates := pib.certificates.deleteWhere (pib.isCertificateOf (keyColumn identity keyId))
  identity_id := fun row hrow ↦ pib.identity_id row ((mem_deleteWhere _).mp hrow).1
  key_id := by
    intro row hrow
    obtain ⟨hold, hkept⟩ := (mem_deleteWhere _).mp hrow
    obtain ⟨key, hkey, hid⟩ := pib.key_id row hold
    refine ⟨key, (mem_deleteWhere _).mpr ⟨hkey, decide_eq_false fun hname ↦ ?_⟩, hid⟩
    have hgone := List.any_eq_false.mp hkept key hkey
    simp [hname, hid] at hgone

def getKeyBits (identity : WiredName) (keyId : Component) : Except Thrown Bytes :=
  match pib.keys.row? (keyColumn identity keyId) with
  | none => .error (.pib "Key does not exist")
  | some row => .ok row.value

def getKeysOfIdentity (identity : WiredName) : OrderedMap Component Unit (· < ·) :=
  .ofKeys ((pib.keys.rows.filter (pib.isKeyOf identity)).filterMap fun row ↦
    row.key.name.get (-1))

def setDefaultKeyOfIdentity (identity : WiredName) (keyId : Component) :
    PibSqlite3 × Option Thrown :=
  if !pib.hasKey identity keyId then (pib, some (.pib "No such key"))
  else
    ({ pib with
        keys := pib.keys.setDefault (keyColumn identity keyId)
        identity_id := by
          intro row hrow
          obtain ⟨old, hold, howner⟩ :=
            (exists_mem_setDefault_iff fun _ owner _ _ ↦ owner = row.owner).mp ⟨row, hrow, rfl⟩
          exact howner ▸ pib.identity_id old hold
        key_id := fun row hrow ↦
          (exists_mem_setDefault_iff fun id _ _ _ ↦ id = row.owner).mpr
            (pib.key_id row hrow) }, none)

def getDefaultKeyOfIdentity (identity : WiredName) : Except Thrown Component :=
  if !pib.hasIdentity identity then .error (.pib "Identity does not exist")
  else
    match pib.keys.rows.find? fun row ↦ pib.isKeyOf identity row && row.isDefault with
    | none => .error (.pib "No default key")
    | some row => .ok ((row.key.name.get (-1)).getD Component.empty)

/-! ## Certificates -/

def hasCertificate (certName : WiredName) : Bool :=
  (pib.certificates.row? certName).isSome

/-- The insertion of `PibSqlite3::addCertificate`, which looks the key up. The name of the key is made
of components and keeps no wire. -/
def insertCertificate (certName : WiredName) (certificate : IdentityCertificate) : PibSqlite3 :=
  match howner : pib.keys.row? (.of certificate.publicKeyName) with
  | none => pib
  | some owner =>
      { pib with
        certificates := pib.certificates.insert owner.id certName certificate
        key_id := by
          intro row hrow
          rcases owner_of_mem_insert hrow with hold | hnew
          · exact pib.key_id row hold
          · exact ⟨owner, (row?_eq_some_iff.mp howner).1, hnew.symm⟩ }

/-- `PibSqlite3::addCertificate`; there is no last component of an empty key name. The wire of the
certificate is asked for when the key has been added. -/
def addCertificate (given : GivenCertificate) : Option (PibSqlite3 × Option Thrown) :=
  let certificate := given.certificate
  (certificate.publicKeyName.get (-1)).map fun keyId ↦
    let ensured := pib.addKey (.of (certificate.publicKeyName.getPrefix (-1))) keyId
      certificate.publicKeyInfo
    if given.isSigned then (ensured.insertCertificate given.name certificate, none)
    else (ensured, some (.data
      "Requested wire format, but data packet has not been signed yet"))

def removeCertificate (certName : WiredName) : PibSqlite3 where
  identities := pib.identities
  keys := pib.keys
  certificates := pib.certificates.deleteWhere fun row ↦ row.key = certName
  identity_id := pib.identity_id
  key_id := fun row hrow ↦ pib.key_id row ((mem_deleteWhere _).mp hrow).1

def getCertificate (certName : WiredName) : Except Thrown IdentityCertificate :=
  match pib.certificates.row? certName with
  | none => .error (.pib "Certificate does not exit")
  | some row => .ok row.value

def getCertificatesOfKey (identity : WiredName) (keyId : Component) : NameMap Unit :=
  .ofKeys ((pib.certificates.rows.filter
    (pib.isCertificateOf (keyColumn identity keyId))).map (·.key.name))

/-- `PibSqlite3::setDefaultCertificateOfKey`, which does not use the key -/
def setDefaultCertificateOfKey (_identity : WiredName) (_keyId : Component)
    (certName : WiredName) : PibSqlite3 × Option Thrown :=
  if !pib.hasCertificate certName then (pib, some (.pib "Certificate does not exist"))
  else
    ({ pib with
        certificates := pib.certificates.setDefault certName
        key_id := by
          intro row hrow
          obtain ⟨old, hold, howner⟩ :=
            (exists_mem_setDefault_iff fun _ owner _ _ ↦ owner = row.owner).mp ⟨row, hrow, rfl⟩
          exact howner ▸ pib.key_id old hold }, none)

def getDefaultCertificateOfKey (identity : WiredName) (keyId : Component) :
    Except Thrown IdentityCertificate :=
  match pib.certificates.rows.find? fun row ↦
      row.isDefault && pib.isCertificateOf (keyColumn identity keyId) row with
  | none => .error (.pib "Certificate does not exit")
  | some row => .ok row.value

/-! ## Operations -/

/-- The PIB after an operation, and the exception; `none` where the operation is undefined. -/
def perform : Pib.Call → Option (PibSqlite3 × Option Thrown)
  | .addIdentity identity => some (pib.addIdentity identity, none)
  | .removeIdentity identity => some (pib.removeIdentity identity, none)
  | .setDefaultIdentity identity => some (pib.setDefaultIdentity identity, none)
  | .addKey identity keyId publicKey => some (pib.addKey identity keyId publicKey, none)
  | .removeKey identity keyId => some (pib.removeKey identity keyId, none)
  | .setDefaultKeyOfIdentity identity keyId => some (pib.setDefaultKeyOfIdentity identity keyId)
  | .addCertificate given => pib.addCertificate given
  | .removeCertificate certName => some (pib.removeCertificate certName, none)
  | .setDefaultCertificateOfKey identity keyId certName =>
      some (pib.setDefaultCertificateOfKey identity keyId certName)

def step (call : Pib.Call) : Option PibSqlite3 := (pib.perform call).map Prod.fst

end PibSqlite3

end NdnCxx
