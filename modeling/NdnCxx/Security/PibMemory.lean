import NdnCxx.Security.ValidatorConfig

/-!
# The in-memory public information base

`PibMemory` keeps identities, keys and certificates in containers ordered by the canonical order of
names, and the default identity, keys and certificates in tables of their own. The loops over the keys
of an identity and over the certificates of a key select with `Name::operator==`, which does not look
at the types of components, and erase by the order, which does. An exception leaves what was done
before it, so every operation returns the state together with the exception.
-/

namespace NdnCxx

/-- The keys of a `std::set` filled from a list -/
def OrderedMap.ofKeys {Key : Type*} {lt : Key → Key → Prop} [DecidableRel lt]
    [IsStrictTotalOrder Key lt] (keys : List Key) : OrderedMap Key Unit lt :=
  keys.foldl (fun container key ↦ container.insert key ()) .empty

theorem OrderedMap.mem_ofKeys {Key : Type*} {lt : Key → Key → Prop} [DecidableRel lt]
    [IsStrictTotalOrder Key lt] {keys : List Key} {entry : Key × Unit} :
    entry ∈ (ofKeys keys : OrderedMap Key Unit lt) ↔ entry.1 ∈ keys := by
  suffices hfold : ∀ container : OrderedMap Key Unit lt,
      entry ∈ keys.foldl (fun container key ↦ container.insert key ()) container ↔
        entry ∈ container ∨ entry.1 ∈ keys by
    exact (hfold .empty).trans (or_iff_right (not_mem_empty entry))
  induction keys with
  | nil => simp
  | cons key keys ih =>
    intro container
    rw [List.foldl_cons, ih, mem_insert]
    constructor
    · rintro ((hold | ⟨rfl, -⟩) | hlater)
      · exact .inl hold
      · exact .inr List.mem_cons_self
      · exact .inr (List.mem_cons_of_mem key hlater)
    · rintro (hold | hkey)
      · exact .inl (.inl hold)
      · rcases List.mem_cons.mp hkey with rfl | hlater
        · by_cases hpresent : ∀ old ∈ container, old.1 ≠ entry.1
          · exact .inl (.inr ⟨rfl, hpresent⟩)
          · push Not at hpresent
            obtain ⟨old, hold, hsame⟩ := hpresent
            exact .inl (.inl (by rwa [show entry = old from Prod.ext hsame.symm rfl]))
        · exact .inr hlater

theorem OrderedMap.mem_map_fst {Key : Type*} {lt : Key → Key → Prop}
    {container : OrderedMap Key Unit lt} {key : Key} :
    key ∈ container.entries.map Prod.fst ↔ (key, ()) ∈ container := by
  rw [mem_def, List.mem_map]
  exact ⟨fun ⟨entry, hentry, hname⟩ ↦ hname ▸ hentry, fun hmem ↦ ⟨_, hmem, rfl⟩⟩

/-- An `IdentityCertificate` made from a packet: `setPublicKeyName` has accepted the name. -/
structure IdentityCertificate where
  name : Name
  publicKeyName : Name
  publicKeyInfo : Bytes
  wire : Bytes
  named : certificateNameToPublicKeyName name = .ok publicKeyName
  deriving DecidableEq

/-- The exceptions of a PIB -/
inductive Pib.Thrown
  | pib (what : String)
  | identityCertificate (error : Error)
  | data (what : String)
  deriving DecidableEq

abbrev NameMap (Value : Type) := OrderedMap Name Value (· < ·)

/-- `PibMemory` -/
structure PibMemory where
  identities : NameMap Unit
  hasDefaultIdentity : Bool
  defaultIdentity : Name
  keys : NameMap Bytes
  defaultKey : NameMap Name
  certs : NameMap IdentityCertificate
  defaultCert : NameMap Name

def Pib.getKeyName (identity : Name) (keyId : Component) : Name := identity ++ [keyId]

namespace PibMemory

open Pib

def initial : PibMemory :=
  { identities := .empty
    hasDefaultIdentity := false
    defaultIdentity := []
    keys := .empty
    defaultKey := .empty
    certs := .empty
    defaultCert := .empty }

variable (pib : PibMemory)

/-! ## Identities -/

def hasIdentity (identity : Name) : Bool := (pib.identities.find identity).isSome

def addIdentity (identity : Name) : PibMemory :=
  let inserted := { pib with identities := pib.identities.insert identity () }
  if !pib.hasDefaultIdentity then
    { inserted with defaultIdentity := identity, hasDefaultIdentity := true }
  else inserted

def getIdentities : NameMap Unit := pib.identities

def setDefaultIdentity (identityName : Name) : PibMemory :=
  { pib.addIdentity identityName with
    defaultIdentity := identityName, hasDefaultIdentity := true }

def getDefaultIdentity : Except Thrown Name :=
  if pib.hasDefaultIdentity then .ok pib.defaultIdentity
  else .error (.pib "No default identity")

/-! ## Keys and certificates -/

def hasKey (identity : Name) (keyId : Component) : Bool :=
  (pib.keys.find (getKeyName identity keyId)).isSome

def addKey (identity : Name) (keyId : Component) (publicKey : Bytes) : PibMemory :=
  let ensured := pib.addIdentity identity
  let keyName := getKeyName identity keyId
  let stored := { ensured with keys := ensured.keys.assign keyName publicKey }
  if stored.defaultKey.find identity = none then
    { stored with defaultKey := stored.defaultKey.assign identity keyName }
  else stored

def getKeyBits (identity : Name) (keyId : Component) : Except Thrown Bytes :=
  match pib.keys.find (getKeyName identity keyId) with
  | none => .error (.pib "No key")
  | some bits => .ok bits

def getKeysOfIdentity (identity : Name) : OrderedMap Component Unit (· < ·) :=
  .ofKeys ((pib.keys.entries.map Prod.fst).filterMap fun keyName ↦
    if identity.equals (keyName.getPrefix (-1)) then keyName.get (-1) else none)

def setDefaultKeyOfIdentity (identity : Name) (keyId : Component) : PibMemory × Option Thrown :=
  if !pib.hasKey identity keyId then (pib, some (.pib "No key"))
  else ({ pib with defaultKey := pib.defaultKey.assign identity (getKeyName identity keyId) }, none)

def getDefaultKeyOfIdentity (identity : Name) : Except Thrown Component :=
  match pib.defaultKey.find identity with
  | none => .error (.pib "No default key")
  | some keyName => .ok ((keyName.get (-1)).getD Component.empty)

def hasCertificate (certName : Name) : Bool := (pib.certs.find certName).isSome

/-- `PibMemory::addCertificate`; there is no last component of an empty key name. -/
def addCertificate (certificate : IdentityCertificate) : Option PibMemory :=
  (certificate.publicKeyName.get (-1)).map fun keyId ↦
    let ensured := pib.addKey (certificate.publicKeyName.getPrefix (-1)) keyId
      certificate.publicKeyInfo
    let stored := { ensured with certs := ensured.certs.assign certificate.name certificate }
    if stored.defaultCert.find certificate.publicKeyName = none then
      { stored with
        defaultCert := stored.defaultCert.assign certificate.publicKeyName certificate.name }
    else stored

def removeCertificate (certName : Name) : PibMemory × Option Thrown :=
  let erased := { pib with certs := pib.certs.eraseKey certName }
  match certificateNameToPublicKeyName certName with
  | .error error => (erased, some (.identityCertificate error))
  | .ok keyName => ({ erased with defaultCert := erased.defaultCert.eraseKey keyName }, none)

def getCertificate (certName : Name) : Except Thrown IdentityCertificate :=
  match pib.certs.find certName with
  | none => .error (.pib "No cert")
  | some certificate => .ok certificate

def getCertificatesOfKey (identity : Name) (keyId : Component) : NameMap Unit :=
  .ofKeys (pib.certs.entries.filterMap fun entry ↦
    if entry.2.publicKeyName.equals (getKeyName identity keyId) then some entry.1 else none)

def setDefaultCertificateOfKey (identity : Name) (keyId : Component) (certName : Name) :
    PibMemory × Option Thrown :=
  if !pib.hasCertificate certName then (pib, some (.pib "No cert"))
  else ({ pib with defaultCert := pib.defaultCert.assign (getKeyName identity keyId) certName }, none)

def getDefaultCertificateOfKey (identity : Name) (keyId : Component) :
    Except Thrown IdentityCertificate :=
  match pib.defaultCert.find (getKeyName identity keyId) with
  | none => .error (.pib "No default certificate")
  | some certName =>
      match pib.certs.find certName with
      | none => .error (.pib "No default certificate")
      | some certificate => .ok certificate

/-! ## Cascading removal -/

/-- A loop whose calls may throw -/
def forEach {Item : Type} (call : PibMemory → Item → PibMemory × Option Thrown) :
    PibMemory → List Item → PibMemory × Option Thrown
  | pib, [] => (pib, none)
  | pib, item :: items =>
      match call pib item with
      | (next, none) => forEach call next items
      | (next, some thrown) => (next, some thrown)

def removeKey (identity : Name) (keyId : Component) : PibMemory × Option Thrown :=
  let erased :=
    { pib with
      keys := pib.keys.eraseKey (getKeyName identity keyId)
      defaultKey := pib.defaultKey.eraseKey identity }
  forEach removeCertificate erased
    ((erased.getCertificatesOfKey identity keyId).entries.map Prod.fst)

def removeIdentity (identity : Name) : PibMemory × Option Thrown :=
  let erased :=
    { pib with
      identities := pib.identities.eraseKey identity
      hasDefaultIdentity :=
        if identity.equals pib.defaultIdentity then false else pib.hasDefaultIdentity }
  forEach (fun pib keyId ↦ pib.removeKey identity keyId) erased
    ((erased.getKeysOfIdentity identity).entries.map Prod.fst)

end PibMemory

/-- An operation on a PIB -/
inductive Pib.Event
  | addIdentity (identity : Name)
  | removeIdentity (identity : Name)
  | setDefaultIdentity (identity : Name)
  | addKey (identity : Name) (keyId : Component) (publicKey : Bytes)
  | removeKey (identity : Name) (keyId : Component)
  | setDefaultKeyOfIdentity (identity : Name) (keyId : Component)
  | addCertificate (certificate : IdentityCertificate)
  | removeCertificate (certName : Name)
  | setDefaultCertificateOfKey (identity : Name) (keyId : Component) (certName : Name)
  deriving DecidableEq

namespace PibMemory

open Pib

/-- The PIB after an operation, and the exception; `none` where the operation is undefined. -/
def perform (pib : PibMemory) : Event → Option (PibMemory × Option Thrown)
  | .addIdentity identity => some (pib.addIdentity identity, none)
  | .removeIdentity identity => some (pib.removeIdentity identity)
  | .setDefaultIdentity identity => some (pib.setDefaultIdentity identity, none)
  | .addKey identity keyId publicKey => some (pib.addKey identity keyId publicKey, none)
  | .removeKey identity keyId => some (pib.removeKey identity keyId)
  | .setDefaultKeyOfIdentity identity keyId => some (pib.setDefaultKeyOfIdentity identity keyId)
  | .addCertificate certificate => (pib.addCertificate certificate).map fun next ↦ (next, none)
  | .removeCertificate certName => some (pib.removeCertificate certName)
  | .setDefaultCertificateOfKey identity keyId certName =>
      some (pib.setDefaultCertificateOfKey identity keyId certName)

def step (pib : PibMemory) (event : Event) : Option PibMemory := (pib.perform event).map Prod.fst

end PibMemory

end NdnCxx
