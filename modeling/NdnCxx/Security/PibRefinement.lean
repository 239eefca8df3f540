import NdnCxx.Foundation.TableMaps
import NdnCxx.Security.PibLinks
import NdnCxx.Security.PibSqlite3

/-!
# The two public information bases compared

The tables of the database represent the maps in memory: identities without an owner, keys held by the
identity that their names begin with, and certificates held by their keys.

The two implementations part where one of them adds what the other leaves, where the one in memory erases
a default that the trigger keeps, and where it takes names for equal that differ in a component type or
in the wire that one of them keeps; and the database asks a certificate for its wire. `Portable` and
`IsPlain` exclude these calls, and every other call keeps the representation.
-/

namespace NdnCxx

open DefaultTable

namespace PibMemory

open Pib

/-! ## The calls that both serve alike -/

/-- A key is added to an existing identity only while a default identity is set; an existing key is added
only as it is and while its identity has a default key, a new one has bits. -/
def KeyPortable (pib : PibMemory) (identity : Name) (keyId : Component) (publicKey : Bytes) : Prop :=
  (pib.hasIdentity identity = true → pib.hasDefaultIdentity = true) ∧
    (pib.keys.find (getKeyName identity keyId) = none → publicKey ≠ []) ∧
    ∀ bits ∈ pib.keys.find (getKeyName identity keyId),
      bits = publicKey ∧ (pib.defaultKey.find identity).isSome = true

instance (pib : PibMemory) (identity : Name) (keyId : Component) (publicKey : Bytes) :
    Decidable (pib.KeyPortable identity keyId publicKey) :=
  inferInstanceAs (Decidable (_ ∧ _ ∧ ∀ bits ∈ pib.keys.find (getKeyName identity keyId), _ ∧ _))

/-- The calls that both implementations serve alike -/
def Portable (pib : PibMemory) : Event → Prop
  | .addIdentity identity => pib.hasIdentity identity = true → pib.hasDefaultIdentity = true
  | .removeIdentity identity =>
      (pib.hasDefaultIdentity = true → identity.equals pib.defaultIdentity = true →
        identity = pib.defaultIdentity) ∧
      ∀ entry ∈ pib.certs.entries, identity.equals (entry.2.publicKeyName.getPrefix (-1)) = true →
        identity = entry.2.publicKeyName.getPrefix (-1)
  | .setDefaultIdentity identity => pib.hasIdentity identity = true
  | .addKey identity keyId publicKey => pib.KeyPortable identity keyId publicKey
  | .removeKey identity keyId =>
      (∀ keyName ∈ pib.defaultKey.find identity, keyName = getKeyName identity keyId) ∧
      ∀ entry ∈ pib.certs.entries, entry.2.publicKeyName.equals (getKeyName identity keyId) = true →
        entry.2.publicKeyName = getKeyName identity keyId
  | .setDefaultKeyOfIdentity _ _ => True
  | .addCertificate certificate =>
      (∀ keyId ∈ certificate.publicKeyName.get (-1),
        pib.KeyPortable (certificate.publicKeyName.getPrefix (-1)) keyId
          certificate.publicKeyInfo) ∧
      ∀ stored ∈ pib.certs.find certificate.name,
        stored = certificate ∧ (pib.defaultCert.find certificate.publicKeyName).isSome = true
  | .removeCertificate certName =>
      ∀ keyName ∈ (certificateNameToPublicKeyName certName).toOption,
        ∀ default ∈ pib.defaultCert.find keyName, default = certName
  | .setDefaultCertificateOfKey identity keyId certName =>
      ∀ certificate ∈ pib.certs.find certName,
        certificate.publicKeyName = getKeyName identity keyId

instance (pib : PibMemory) : (event : Event) → Decidable (pib.Portable event)
  | .addIdentity _ => inferInstanceAs (Decidable (_ → _))
  | .removeIdentity _ =>
      inferInstanceAs (Decidable ((_ → _ → _) ∧ ∀ entry ∈ pib.certs.entries, _ → _))
  | .setDefaultIdentity _ => inferInstanceAs (Decidable (_ = _))
  | .addKey identity keyId publicKey =>
      inferInstanceAs (Decidable (pib.KeyPortable identity keyId publicKey))
  | .removeKey identity _ =>
      inferInstanceAs (Decidable ((∀ keyName ∈ pib.defaultKey.find identity, _) ∧
        ∀ entry ∈ pib.certs.entries, _ → _))
  | .setDefaultKeyOfIdentity _ _ => isTrue trivial
  | .addCertificate certificate =>
      inferInstanceAs (Decidable ((∀ keyId ∈ certificate.publicKeyName.get (-1), _) ∧
        ∀ stored ∈ pib.certs.find certificate.name, _ ∧ _))
  | .removeCertificate certName =>
      inferInstanceAs (Decidable (∀ keyName ∈ (certificateNameToPublicKeyName certName).toOption,
        ∀ default ∈ pib.defaultCert.find keyName, _))
  | .setDefaultCertificateOfKey _ _ certName =>
      inferInstanceAs (Decidable (∀ certificate ∈ pib.certs.find certName, _))

theorem Portable.ofKey {pib : PibMemory} {event : Event} (hportable : pib.Portable event) :
    pib.CertificateOfKey event := by
  cases event with
  | setDefaultCertificateOfKey identity keyId certName => exact hportable
  | _ => trivial

end PibMemory

/-- The names that the database looks up keep no wire of their own, and a certificate has a wire. -/
def Pib.Call.IsPlain : Pib.Call → Prop
  | .addIdentity identity | .removeIdentity identity | .setDefaultIdentity identity
  | .addKey identity _ _ => identity.keptWire = none
  | .removeKey _ _ | .setDefaultKeyOfIdentity _ _ => True
  | .addCertificate given => given.name.keptWire = none ∧ given.isSigned = true
  | .removeCertificate certName | .setDefaultCertificateOfKey _ _ certName =>
      certName.keptWire = none

instance : (call : Pib.Call) → Decidable call.IsPlain
  | .addIdentity identity | .removeIdentity identity | .setDefaultIdentity identity
  | .addKey identity _ _ => inferInstanceAs (Decidable (identity.keptWire = none))
  | .removeKey _ _ | .setDefaultKeyOfIdentity _ _ => isTrue trivial
  | .addCertificate given =>
      inferInstanceAs (Decidable (given.name.keptWire = none ∧ given.isSigned = true))
  | .removeCertificate certName | .setDefaultCertificateOfKey _ _ certName =>
      inferInstanceAs (Decidable (certName.keptWire = none))

namespace PibSqlite3

open Pib WiredName

/-! ## The representation -/

def keyHolder (keyName : Name) (_ : Bytes) : Name := keyName.getPrefix (-1)

def certificateHolder (_ : Name) (certificate : IdentityCertificate) : Name :=
  certificate.publicKeyName

/-- The tables of the database represent the maps in memory. -/
structure Represents (database : PibSqlite3) (pib : PibMemory) : Prop where
  identities : database.identities.Represents WiredName.of (fun _ _ ↦ ()) (fun _ _ ↦ True)
    pib.identities.find fun _ ↦ pib.getDefaultIdentity.toOption
  keys : database.keys.Represents WiredName.of keyHolder (database.identities.Identifies .of)
    pib.keys.find pib.defaultKey.find
  certificates : database.certificates.Represents WiredName.of certificateHolder
    (database.keys.Identifies .of) pib.certs.find pib.defaultCert.find

theorem represents_initial : initial.Represents .initial :=
  ⟨represents_empty, represents_empty, represents_empty⟩

/-- Databases with the same tables are the same. -/
theorem eq_of_tables {first second : PibSqlite3} (hidentities : first.identities = second.identities)
    (hkeys : first.keys = second.keys) (hcertificates : first.certificates = second.certificates) :
    first = second := by
  cases first
  cases second
  simp only [mk.injEq]
  exact ⟨hidentities, hkeys, hcertificates⟩

section Represents

variable {database : PibSqlite3} {pib : PibMemory}

/-! ## Lookups -/

theorem Represents.hasIdentity_eq (hrepresents : database.Represents pib) (identity : Name) :
    database.hasIdentity (.of identity) = pib.hasIdentity identity := by
  rw [hasIdentity, PibMemory.hasIdentity, ← hrepresents.identities.row?_eq, Option.isSome_map]

theorem Represents.hasKey_eq (hrepresents : database.Represents pib) (identity : WiredName)
    (keyId : Component) : database.hasKey identity keyId = pib.hasKey identity.name keyId := by
  rw [hasKey, PibMemory.hasKey, ← hrepresents.keys.row?_eq, Option.isSome_map, keyColumn]

theorem Represents.hasCertificate_eq (hrepresents : database.Represents pib) (certName : Name) :
    database.hasCertificate (.of certName) = pib.hasCertificate certName := by
  rw [hasCertificate, PibMemory.hasCertificate, ← hrepresents.certificates.row?_eq,
    Option.isSome_map]

variable {identity : Name} {keyName certName : Name} {next : PibMemory}

/-- The join with the identities selects the keys whose names begin with the identity. -/
theorem Represents.isKeyOf_iff (hrepresents : database.Represents pib) {row : Row ℕ WiredName Bytes}
    (hrow : row ∈ database.keys.rows) (hkey : row.key = .of keyName) :
    database.isKeyOf (.of identity) row = true ↔ keyName.getPrefix (-1) = identity := by
  have hjoin : database.isKeyOf (.of identity) row = true ↔
      database.identities.Identifies .of row.owner identity := by
    simp [isKeyOf, Identifies]
  rw [hjoin]
  exact IsPairing.iff (isPairing_identifies of_injective)
    (hrepresents.keys.owns_of_mem of_injective hrow hkey)

/-- The join with the keys selects the certificates of the key. -/
theorem Represents.isCertificateOf_iff (hrepresents : database.Represents pib)
    {row : Row ℕ WiredName IdentityCertificate} (hrow : row ∈ database.certificates.rows) :
    database.isCertificateOf (.of keyName) row = true ↔ row.value.publicKeyName = keyName := by
  have hjoin : database.isCertificateOf (.of keyName) row = true ↔
      database.keys.Identifies .of row.owner keyName := by
    simp [isCertificateOf, Identifies]
  obtain ⟨certName, -, howner⟩ := hrepresents.certificates.owner row hrow
  rw [hjoin]
  exact IsPairing.iff (isPairing_identifies of_injective) howner

/-! ## Additions -/

theorem isPairing_unit : IsPairing fun (_ _ : Unit) ↦ True := fun _ _ ↦ ⟨fun _ ↦ rfl, fun _ ↦ rfl⟩

theorem Represents.addIdentity (hrepresents : database.Represents pib)
    (hdefault : pib.hasIdentity identity = true → pib.hasDefaultIdentity = true) :
    (database.addIdentity (.of identity)).Represents (pib.addIdentity identity) := by
  cases hfind : pib.identities.find identity with
  | some present =>
    obtain ⟨row, hrow, hkey, -⟩ := hrepresents.identities.entry.mp hfind
    have hpresent : pib.hasIdentity identity = true := by rw [PibMemory.hasIdentity, hfind]; rfl
    have hsame : database.addIdentity (.of identity) = database := by
      rw [← hkey]
      exact eq_of_tables (insert_eq_self hrow () ()) rfl rfl
    rw [PibMemory.addIdentity_eq_self hpresent (hdefault hpresent), hsame]
    exact hrepresents
  | none =>
    rw [PibMemory.addIdentity_eq]
    refine ⟨hrepresents.identities.insert of_injective isPairing_unit hfind trivial ?_ ?_,
      hrepresents.keys.mono fun hidentifies ↦ hidentifies.insert () _ (), hrepresents.certificates⟩
    · intro other
      simp [OrderedMap.find_insert, hfind]
    · intro _
      cases hhas : pib.hasDefaultIdentity <;>
        simp [PibMemory.getDefaultIdentity, hhas, Except.toOption]

/-- A default is assigned where there is none. -/
theorem find_assign_of_none (defaults : NameMap Name) (key value other : Name) :
    (if defaults.find key = none then defaults.assign key value else defaults).find other =
      if other = key ∧ defaults.find other = none then some value else defaults.find other := by
  by_cases hsame : other = key
  · subst hsame
    cases hfind : defaults.find other <;> simp [OrderedMap.find_assign, hfind]
  · split_ifs <;> simp_all [OrderedMap.find_assign]

/-- A new key of an existing identity -/
theorem Represents.insertKey (hrepresents : database.Represents pib) (keyId : Component)
    {publicKey : Bytes} (hidentity : pib.hasIdentity identity = true)
    (hnew : pib.keys.find (getKeyName identity keyId) = none) (hbits : publicKey ≠ []) :
    (database.insertKey (.of identity) (.of (getKeyName identity keyId)) publicKey).Represents
      { pib with
        keys := pib.keys.assign (getKeyName identity keyId) publicKey
        defaultKey :=
          if pib.defaultKey.find identity = none then
            pib.defaultKey.assign identity (getKeyName identity keyId)
          else pib.defaultKey } := by
  unfold PibSqlite3.insertKey
  split
  · rename_i hnone
    have hhas := hrepresents.hasIdentity_eq identity
    rw [hidentity, hasIdentity, hnone] at hhas
    cases hhas
  · rename_i owner howner
    obtain ⟨hmem, hkey⟩ := row?_eq_some_iff.mp howner
    have hholder : keyHolder (getKeyName identity keyId) publicKey = identity :=
      PibMemory.getPrefix_getKeyName identity keyId
    have howns : database.identities.Identifies WiredName.of owner.id
        (keyHolder (getKeyName identity keyId) publicKey) := ⟨owner, hmem, rfl, by rw [hholder, hkey]⟩
    rw [if_neg hbits]
    refine ⟨hrepresents.identities, hrepresents.keys.insert of_injective
      (isPairing_identifies of_injective) hnew howns (fun other ↦ ?_) fun held ↦ ?_,
      hrepresents.certificates.mono fun hidentifies ↦ hidentifies.insert _ _ _⟩
    · rw [OrderedMap.find_assign]
    · rw [hholder, find_assign_of_none]

variable {keyId : Component}

theorem Represents.addKey (hrepresents : database.Represents pib) (hlinked : pib.Linked)
    {publicKey : Bytes} (hportable : pib.KeyPortable identity keyId publicKey) :
    (database.addKey (.of identity) keyId publicKey).Represents
      (pib.addKey identity keyId publicKey) := by
  obtain ⟨hdefault, hnew, hexisting⟩ := hportable
  unfold PibSqlite3.addKey
  rw [hrepresents.hasKey_eq, PibMemory.hasKey, WiredName.of]
  cases hfind : pib.keys.find (getKeyName identity keyId) with
  | some bits =>
    obtain ⟨rfl, hdefaultKey⟩ := hexisting bits hfind
    obtain ⟨owner, ownedId, hname, howner⟩ := hlinked.identity_of_key hfind
    rw [← (PibMemory.getKeyName_inj.mp hname).1] at howner
    rw [PibMemory.addKey_eq_self hlinked hfind (hdefault howner) hdefaultKey]
    exact hrepresents
  | none =>
    have hadded := hrepresents.addIdentity hdefault
    have hkeys : (pib.addIdentity identity).keys = pib.keys := by rw [PibMemory.addIdentity_eq]
    have hdefaults : (pib.addIdentity identity).defaultKey = pib.defaultKey := by
      rw [PibMemory.addIdentity_eq]
    have hinserted := hadded.insertKey keyId
      (PibMemory.hasIdentity_addIdentity.mpr (.inl rfl)) (by rw [hkeys, hfind]) (hnew hfind)
    rw [hkeys, hdefaults] at hinserted
    rw [PibMemory.addKey_eq]
    exact hinserted

/-- A certificate of an existing key -/
theorem Represents.insertCertificate (hrepresents : database.Represents pib)
    (certificate : IdentityCertificate)
    (hkey : (pib.keys.find certificate.publicKeyName).isSome = true)
    (hexisting : ∀ stored ∈ pib.certs.find certificate.name, stored = certificate ∧
      (pib.defaultCert.find certificate.publicKeyName).isSome = true) :
    (database.insertCertificate (.of certificate.name) certificate).Represents
      { pib with
        certs := pib.certs.assign certificate.name certificate
        defaultCert :=
          if pib.defaultCert.find certificate.publicKeyName = none then
            pib.defaultCert.assign certificate.publicKeyName certificate.name
          else pib.defaultCert } := by
  obtain ⟨bits, hbits⟩ := Option.isSome_iff_exists.mp hkey
  unfold PibSqlite3.insertCertificate
  split
  · rename_i hnone
    obtain ⟨row, hrow, hname, -⟩ := hrepresents.keys.entry.mp hbits
    exact absurd hname (row?_eq_none_iff.mp hnone row hrow)
  · rename_i owner howner
    obtain ⟨hownerRow, hownerKey⟩ := row?_eq_some_iff.mp howner
    cases hfind : pib.certs.find certificate.name with
    | some stored =>
      -- the unique index refuses the row, and the maps are written as they are
      obtain ⟨rfl, hdefault⟩ := hexisting stored hfind
      obtain ⟨default, hdefault⟩ := Option.isSome_iff_exists.mp hdefault
      obtain ⟨found, hfound, hfoundKey, -⟩ := hrepresents.certificates.entry.mp hfind
      have hrefused : database.certificates.insert owner.id (.of stored.name) stored =
          database.certificates := by
        rw [← hfoundKey]
        exact insert_eq_self hfound owner.id stored
      rw [OrderedMap.assign_eq_self hfind, hdefault, if_neg (Option.some_ne_none default)]
      convert hrepresents using 1
      exact eq_of_tables rfl rfl hrefused
    | none =>
      refine ⟨hrepresents.identities, hrepresents.keys,
        hrepresents.certificates.insert of_injective (isPairing_identifies of_injective) hfind
          ⟨owner, hownerRow, rfl, hownerKey⟩ (fun other ↦ ?_) fun held ↦ ?_⟩
      · rw [OrderedMap.find_assign]
      · rw [certificateHolder, find_assign_of_none]

theorem Represents.addCertificate (hrepresents : database.Represents pib) (hlinked : pib.Linked)
    {given : GivenCertificate} (hportable : pib.Portable (.addCertificate given.certificate))
    (hplain : given.name.keptWire = none) (hsigned : given.isSigned = true)
    (hnext : pib.addCertificate given.certificate = some next) :
    ∃ matching, database.addCertificate given = some (matching, none) ∧
      matching.Represents next := by
  obtain ⟨hkeys, hexisting⟩ := hportable
  obtain ⟨keyId, hlast, rfl⟩ := PibMemory.addCertificate_eq_some hnext
  have hname : given.name = .of given.certificate.name := by
    rw [WiredName.eq_of hplain, given.named]
  refine ⟨_, by rw [PibSqlite3.addCertificate, hlast, hsigned, hname]; rfl, ?_⟩
  have hadded := hrepresents.addKey hlinked (hkeys keyId hlast)
  have hcerts : (pib.addKey (given.certificate.publicKeyName.getPrefix (-1)) keyId
      given.certificate.publicKeyInfo).certs = pib.certs := by
    rw [PibMemory.addKey_eq, PibMemory.addIdentity_eq]
  have hdefaults : (pib.addKey (given.certificate.publicKeyName.getPrefix (-1)) keyId
      given.certificate.publicKeyInfo).defaultCert = pib.defaultCert := by
    rw [PibMemory.addKey_eq, PibMemory.addIdentity_eq]
  have hinserted := hadded.insertCertificate given.certificate (by
    rw [PibMemory.addKey_eq, PibMemory.getKeyName_of_get hlast, OrderedMap.find_assign,
      if_pos rfl]
    rfl) (by rw [hcerts, hdefaults]; exact hexisting)
  rw [hcerts, hdefaults] at hinserted
  exact hinserted

/-! ## Removals -/

theorem Represents.removeCertificate (hrepresents : database.Represents pib) (hlinked : pib.Linked)
    (hportable : pib.Portable (.removeCertificate certName)) :
    (database.removeCertificate (.of certName)).Represents (pib.removeCertificate certName).1 := by
  have hcerts : (pib.removeCertificate certName).1.certs = pib.certs.eraseKey certName := by
    unfold PibMemory.removeCertificate
    cases certificateNameToPublicKeyName certName <;> rfl
  -- a default that is erased is the certificate removed, and the other way round
  have hdefaults : ∀ {keyName stored},
      (pib.removeCertificate certName).1.defaultCert.find keyName = some stored ↔
        pib.defaultCert.find keyName = some stored ∧ stored ≠ certName := by
    intro keyName stored
    have hparse : pib.defaultCert.find keyName = some certName →
        certificateNameToPublicKeyName certName = .ok keyName := by
      intro hfind
      obtain ⟨certificate, hcertificate, rfl⟩ := hlinked.default_certificate hfind
      rw [← hlinked.name_of_certificate hcertificate, certificate.named]
    unfold PibMemory.removeCertificate
    cases hname : certificateNameToPublicKeyName certName with
    | error error =>
      refine (and_iff_left_of_imp ?_).symm
      rintro hfind rfl
      rw [hparse hfind] at hname
      cases hname
    | ok removedKey =>
      rw [OrderedMap.find_eraseKey]
      split_ifs with hsame
      · refine iff_of_false (by simp) fun hboth ↦ hboth.2 ?_
        exact hportable removedKey (by rw [hname]; rfl) stored (hsame ▸ hboth.1)
      · refine (and_iff_left_of_imp ?_).symm
        rintro hfind rfl
        rw [hparse hfind] at hname
        exact hsame (Except.ok.inj hname)
  have hframe : (pib.removeCertificate certName).1 =
      { pib with
        certs := (pib.removeCertificate certName).1.certs
        defaultCert := (pib.removeCertificate certName).1.defaultCert } := by
    unfold PibMemory.removeCertificate
    cases certificateNameToPublicKeyName certName <;> rfl
  rw [hframe]
  refine ⟨hrepresents.identities, hrepresents.keys,
    hrepresents.certificates.deleteWhere (fun stored _ ↦ stored = certName) ?_ ?_ ?_
      fun _ howns ↦ howns⟩
  · intro row _ stored hkey
    rw [decide_eq_true_iff, hkey, of_injective.eq_iff]
  · intro stored certificate
    rw [hcerts, OrderedMap.find_eraseKey]
    split_ifs with hsame <;> simp [hsame]
  · intro keyName stored
    rw [hdefaults]
    refine and_congr_right fun hdefault ↦ ⟨fun hother _ _ ↦ hother, fun hkept ↦ ?_⟩
    obtain ⟨certificate, hcertificate, -⟩ := hrepresents.certificates.entry_of_default hdefault
    exact hkept certificate hcertificate

/-- Both take the certificates of the same keys, if those that `==` takes for them are stored. -/
theorem Represents.deleteCertificates (hrepresents : database.Represents pib)
    (removed gone : Name → Prop) {condition : Row ℕ WiredName IdentityCertificate → Bool}
    {owns : ℕ → Name → Prop} (hcondition : ∀ row ∈ database.certificates.rows,
      (condition row = true ↔ removed row.value.publicKeyName))
    (hgone : ∀ {certName certificate}, pib.certs.find certName = some certificate →
      (gone certificate.publicKeyName ↔ removed certificate.publicKeyName))
    (hcerts : ∀ {certName certificate}, next.certs.find certName = some certificate ↔
      pib.certs.find certName = some certificate ∧ ¬ gone certificate.publicKeyName)
    (hdefaults : ∀ {keyName certName}, next.defaultCert.find keyName = some certName ↔
      pib.defaultCert.find keyName = some certName ∧ ¬ gone keyName)
    (howns : ∀ {id keyName}, ¬ removed keyName → database.keys.Identifies WiredName.of id keyName →
      owns id keyName) :
    (database.certificates.deleteWhere condition).Represents WiredName.of certificateHolder owns
      next.certs.find next.defaultCert.find := by
  refine hrepresents.certificates.deleteWhere
    (fun _ certificate ↦ removed certificate.publicKeyName) (fun row hrow _ _ ↦ hcondition row hrow)
    ?_ ?_ howns
  · intro certName certificate
    rw [hcerts]
    exact and_congr_right fun hfind ↦ not_congr (hgone hfind)
  · intro keyName certName
    rw [hdefaults]
    refine and_congr_right fun hdefault ↦ ?_
    obtain ⟨certificate, hcertificate, rfl⟩ := hrepresents.certificates.entry_of_default hdefault
    rw [certificateHolder, hgone hcertificate]
    simp [hcertificate]

theorem Represents.removeKey (hrepresents : database.Represents pib) (hlinked : pib.Linked)
    {identity : WiredName} (hportable : pib.Portable (.removeKey identity.name keyId)) :
    (database.removeKey identity keyId).Represents (pib.removeKey identity.name keyId).1 := by
  obtain ⟨hdefault, hcerts⟩ := hportable
  obtain ⟨next, hcall, hkeys, hdefaults, hremoved⟩ :=
    hlinked.certified.removeKey identity.name keyId
  rw [hcall]
  refine ⟨?_, ?_, hrepresents.deleteCertificates (· = getKeyName identity.name keyId) _
    (fun row hrow ↦ hrepresents.isCertificateOf_iff hrow) (fun {certName certificate} hfind ↦ ?_)
    hremoved.certs hremoved.defaultCert fun {id keyName} hother hidentifies ↦ ?_⟩
  · simp only [PibMemory.getDefaultIdentity, hremoved.identities, hremoved.hasDefaultIdentity,
      hremoved.defaultIdentity]
    exact hrepresents.identities
  · refine hrepresents.keys.deleteWhere (fun keyName _ ↦ keyName = getKeyName identity.name keyId)
      (fun row _ keyName hkey ↦ ?_) (fun {keyName bits} ↦ ?_) (fun {other keyName} ↦ ?_)
      fun _ howns ↦ howns
    · rw [decide_eq_true_iff, hkey, keyColumn, of_injective.eq_iff]
    · rw [hkeys, OrderedMap.find_eraseKey]
      split_ifs with hsame <;> simp [hsame]
    · rw [hdefaults, OrderedMap.find_eraseKey]
      split_ifs with hsame
      · subst hsame
        refine iff_of_false (by simp) ?_
        rintro ⟨hold, hkept⟩
        obtain ⟨bits, hbits, -⟩ := hrepresents.keys.entry_of_default hold
        exact hkept bits hbits (hdefault keyName hold)
      · refine (and_iff_left_of_imp fun hold bits _ hkey ↦ hsame ?_).symm
        obtain ⟨_, _, hholder⟩ := hrepresents.keys.entry_of_default hold
        rw [← hholder, hkey, keyHolder, PibMemory.getPrefix_getKeyName]
  · refine ⟨hcerts _ (OrderedMap.find_eq_some_iff.mp hfind), fun hsame ↦ ?_⟩
    rw [hsame, Name.equals_iff]
  · refine hidentifies.deleteWhere fun row _ hkey ↦ decide_eq_false fun hcolumn ↦ hother ?_
    exact of_injective (hkey.symm.trans hcolumn)

/-- The stored keys that are removed one after the other are those of the identity. -/
theorem getPrefix_eq_iff (hlinked : pib.Linked) {bits : Bytes}
    (hfind : pib.keys.find keyName = some bits) :
    keyName.getPrefix (-1) = identity ↔
      ∃ keyId ∈ (pib.getKeysOfIdentity identity).entries.map Prod.fst,
        keyName = getKeyName identity keyId := by
  constructor
  · rintro rfl
    obtain ⟨identity, keyId, rfl, -⟩ := hlinked.identity_of_key hfind
    rw [PibMemory.getPrefix_getKeyName]
    exact ⟨keyId, PibMemory.mem_getKeysOfIdentity_of_hasKey
      (Option.isSome_iff_exists.mpr ⟨bits, hfind⟩), rfl⟩
  · rintro ⟨keyId, -, rfl⟩
    exact PibMemory.getPrefix_getKeyName identity keyId

/-- A stored certificate of a key that `==` takes for a key of the identity is of the identity. -/
theorem exists_equals_iff (hlinked : pib.Linked) {certificate : IdentityCertificate}
    (hfind : pib.certs.find certName = some certificate)
    (hown : identity.equals (certificate.publicKeyName.getPrefix (-1)) = true →
      identity = certificate.publicKeyName.getPrefix (-1)) :
    (∃ keyId ∈ (pib.getKeysOfIdentity identity).entries.map Prod.fst,
      certificate.publicKeyName.equals (getKeyName identity keyId) = true) ↔
      certificate.publicKeyName.getPrefix (-1) = identity := by
  obtain ⟨bits, hbits⟩ := Option.isSome_iff_exists.mp (hlinked.key_of_certificate hfind)
  constructor
  · rintro ⟨keyId, -, hequals⟩
    obtain ⟨owner, ownedId, hname, -⟩ := hlinked.identity_of_key hbits
    rw [hname, PibMemory.getPrefix_getKeyName] at hown ⊢
    rw [hname, getKeyName, getKeyName, Name.equals_iff, List.map_append, List.map_append] at hequals
    exact (hown (Name.equals_iff.mpr (List.append_inj' hequals rfl).1.symm)).symm
  · intro hprefix
    obtain ⟨keyId, hlisted, hname⟩ := (getPrefix_eq_iff hlinked hbits).mp hprefix
    exact ⟨keyId, hlisted, by rw [hname, Name.equals_iff]⟩

theorem getDefaultIdentity_eq_some_iff :
    pib.getDefaultIdentity.toOption = some identity ↔
      pib.hasDefaultIdentity = true ∧ pib.defaultIdentity = identity := by
  cases hhas : pib.hasDefaultIdentity <;>
    simp [PibMemory.getDefaultIdentity, hhas, Except.toOption]

/-- The identity itself, without its keys -/
theorem Represents.deleteIdentity (hrepresents : database.Represents pib)
    (hdefault : pib.hasDefaultIdentity = true → identity.equals pib.defaultIdentity = true →
      identity = pib.defaultIdentity) :
    (database.removeIdentity (.of identity)).identities.Represents WiredName.of (fun _ _ ↦ ())
      (fun _ _ ↦ True) (pib.withoutIdentity identity).identities.find
      fun _ ↦ (pib.withoutIdentity identity).getDefaultIdentity.toOption := by
  refine hrepresents.identities.deleteWhere (fun name _ ↦ name = identity)
    (fun row _ name hkey ↦ ?_) (fun {name value} ↦ ?_) (fun {_ name} ↦ ?_) fun _ _ ↦ trivial
  · rw [decide_eq_true_iff, hkey, of_injective.eq_iff]
  · rw [PibMemory.withoutIdentity, OrderedMap.find_eraseKey]
    split_ifs with hsame <;> simp [hsame]
  · rw [getDefaultIdentity_eq_some_iff, getDefaultIdentity_eq_some_iff]
    simp only [PibMemory.withoutIdentity]
    constructor
    · rintro ⟨hhas, rfl⟩
      split_ifs at hhas with hequals
      exact ⟨⟨hhas, rfl⟩, fun _ _ hsame ↦ hequals (by rw [hsame, Name.equals_iff])⟩
    · rintro ⟨⟨hhas, rfl⟩, hkept⟩
      obtain ⟨value, hvalue, -⟩ := @Represents.entry_of_default _ _ _ _ _ _ _ _ _ _ _ _
        hrepresents.identities () (getDefaultIdentity_eq_some_iff.mpr ⟨hhas, rfl⟩)
      have hother := hkept value hvalue
      rw [if_neg fun hequals ↦ hother (hdefault hhas hequals).symm]
      exact ⟨hhas, rfl⟩

theorem Represents.removeIdentity (hrepresents : database.Represents pib) (hlinked : pib.Linked)
    (hportable : pib.Portable (.removeIdentity identity)) :
    (database.removeIdentity (.of identity)).Represents (pib.removeIdentity identity).1 := by
  obtain ⟨hdefault, hcerts⟩ := hportable
  obtain ⟨next, hcall, hkeys, hdefaults, hremoved⟩ := hlinked.certified.removeIdentity identity
  rw [hcall]
  refine ⟨?_, ?_, hrepresents.deleteCertificates (·.getPrefix (-1) = identity) _
    (fun row hrow ↦ ?_) (fun {certName certificate} hfind ↦ exists_equals_iff hlinked hfind
      (hcerts _ (OrderedMap.find_eq_some_iff.mp hfind))) hremoved.certs hremoved.defaultCert
    fun {id keyName} hother hidentifies ↦ ?_⟩
  · simp only [PibMemory.getDefaultIdentity, hremoved.identities, hremoved.hasDefaultIdentity,
      hremoved.defaultIdentity]
    exact hrepresents.deleteIdentity hdefault
  · refine hrepresents.keys.deleteWhere (fun keyName _ ↦ keyName.getPrefix (-1) = identity)
      (fun row hrow keyName hkey ↦ hrepresents.isKeyOf_iff hrow hkey) (fun {keyName bits} ↦ ?_)
      (fun {other keyName} ↦ ?_) fun {owner keyName bits} hother howns ↦ ?_
    · rw [hkeys]
      refine and_congr_right fun hfind ↦ ?_
      rw [getPrefix_eq_iff hlinked hfind]
      simp
    · rw [hdefaults]
      refine and_congr_right fun hold ↦ ?_
      obtain ⟨bits, hbits, rfl⟩ := hrepresents.keys.entry_of_default hold
      constructor
      · intro hkept _ _ howner
        obtain ⟨keyId, hlisted, -⟩ := (getPrefix_eq_iff hlinked hbits).mp howner
        exact hkept ⟨howner, List.ne_nil_of_mem hlisted⟩
      · exact fun hkept hboth ↦ hkept bits hbits hboth.1
    · refine howns.deleteWhere fun row _ hkey ↦ decide_eq_false fun hcolumn ↦ hother ?_
      exact of_injective (hkey.symm.trans hcolumn)
  · obtain ⟨_, -, key, hkey, hid, hname⟩ := hrepresents.certificates.owner row hrow
    have hjoin := @Represents.isKeyOf_iff _ _ identity _ hrepresents _ hkey hname
    rw [certificateHolder] at hjoin
    rw [← hjoin]
    simp only [List.any_eq_true, Bool.and_eq_true, decide_eq_true_eq]
    refine ⟨?_, fun hgone ↦ ⟨key, hkey, hid, hgone⟩⟩
    rintro ⟨other, hother, hotherId, hgone⟩
    rwa [row_eq_of_id_eq hkey hother (hid.trans hotherId.symm)]
  · refine hidentifies.deleteWhere fun row hrow hkey ↦ Bool.eq_false_iff.mpr fun hgone ↦ hother ?_
    exact (hrepresents.isKeyOf_iff hrow hkey).mp hgone

/-! ## Defaults -/

theorem Represents.setDefaultIdentity (hrepresents : database.Represents pib)
    (hpresent : pib.hasIdentity identity = true) :
    (database.setDefaultIdentity (.of identity)).Represents (pib.setDefaultIdentity identity) := by
  have hself : pib.setDefaultIdentity identity =
      { pib with defaultIdentity := identity, hasDefaultIdentity := true } := by
    unfold PibMemory.setDefaultIdentity
    rw [PibMemory.addIdentity_eq, OrderedMap.insert_eq_self () hpresent]
  obtain ⟨_, hentry⟩ := Option.isSome_iff_exists.mp hpresent
  rw [hself]
  exact ⟨hrepresents.identities.setDefault of_injective isPairing_unit hentry fun _ ↦ by simp; rfl,
    hrepresents.keys.mono identifies_setDefault_iff.mpr, hrepresents.certificates⟩

theorem Represents.setDefaultKeyOfIdentity (hrepresents : database.Represents pib)
    (identity : WiredName) (keyId : Component) :
    (database.setDefaultKeyOfIdentity identity keyId).1.Represents
      (pib.setDefaultKeyOfIdentity identity.name keyId).1 := by
  unfold PibSqlite3.setDefaultKeyOfIdentity PibMemory.setDefaultKeyOfIdentity
  rw [hrepresents.hasKey_eq]
  split_ifs with habsent
  · exact hrepresents
  · have hpresent : pib.hasKey identity.name keyId = true := by simpa using habsent
    obtain ⟨bits, hbits⟩ := Option.isSome_iff_exists.mp hpresent
    refine ⟨hrepresents.identities, hrepresents.keys.setDefault of_injective
      (isPairing_identifies of_injective) hbits fun held ↦ ?_,
      hrepresents.certificates.mono identifies_setDefault_iff.mpr⟩
    rw [OrderedMap.find_assign, keyHolder, PibMemory.getPrefix_getKeyName]

theorem Represents.setDefaultCertificateOfKey (hrepresents : database.Represents pib)
    {identity : WiredName} (hown : ∀ certificate ∈ pib.certs.find certName,
      certificate.publicKeyName = getKeyName identity.name keyId) :
    (database.setDefaultCertificateOfKey identity keyId (.of certName)).1.Represents
      (pib.setDefaultCertificateOfKey identity.name keyId certName).1 := by
  unfold PibSqlite3.setDefaultCertificateOfKey PibMemory.setDefaultCertificateOfKey
  rw [hrepresents.hasCertificate_eq]
  split_ifs with habsent
  · exact hrepresents
  · have hpresent : pib.hasCertificate certName = true := by simpa using habsent
    obtain ⟨certificate, hfind⟩ := Option.isSome_iff_exists.mp hpresent
    refine ⟨hrepresents.identities, hrepresents.keys, hrepresents.certificates.setDefault
      of_injective (isPairing_identifies of_injective) hfind fun held ↦ ?_⟩
    rw [OrderedMap.find_assign, certificateHolder, hown certificate hfind]

/-! ## Runs -/

theorem Represents.step (hrepresents : database.Represents pib) (hlinked : pib.Linked)
    {call : Pib.Call} (hportable : pib.Portable call.event) (hplain : call.IsPlain)
    (hnext : pib.step call.event = some next) :
    ∃ matching, database.step call = some matching ∧ matching.Represents next := by
  obtain ⟨outcome, houtcome, rfl⟩ := Option.map_eq_some_iff.mp hnext
  cases call with
  | addIdentity identity =>
    obtain rfl := Option.some.inj houtcome
    rw [WiredName.eq_of hplain]
    exact ⟨_, rfl, hrepresents.addIdentity hportable⟩
  | removeIdentity identity =>
    obtain rfl := Option.some.inj houtcome
    rw [WiredName.eq_of hplain]
    exact ⟨_, rfl, hrepresents.removeIdentity hlinked hportable⟩
  | setDefaultIdentity identity =>
    obtain rfl := Option.some.inj houtcome
    rw [WiredName.eq_of hplain]
    exact ⟨_, rfl, hrepresents.setDefaultIdentity hportable⟩
  | addKey identity keyId publicKey =>
    obtain rfl := Option.some.inj houtcome
    rw [WiredName.eq_of hplain]
    exact ⟨_, rfl, hrepresents.addKey hlinked hportable⟩
  | removeKey identity keyId =>
    obtain rfl := Option.some.inj houtcome
    exact ⟨_, rfl, hrepresents.removeKey hlinked hportable⟩
  | setDefaultKeyOfIdentity identity keyId =>
    obtain rfl := Option.some.inj houtcome
    exact ⟨_, rfl, hrepresents.setDefaultKeyOfIdentity identity keyId⟩
  | addCertificate given =>
    obtain ⟨added, hadded, rfl⟩ := Option.map_eq_some_iff.mp houtcome
    obtain ⟨matching, hmatching, hnextRepresents⟩ :=
      hrepresents.addCertificate hlinked hportable hplain.1 hplain.2 hadded
    exact ⟨matching, by simp [PibSqlite3.step, perform, hmatching], hnextRepresents⟩
  | removeCertificate certName =>
    obtain rfl := Option.some.inj houtcome
    rw [WiredName.eq_of hplain]
    exact ⟨_, rfl, hrepresents.removeCertificate hlinked hportable⟩
  | setDefaultCertificateOfKey identity keyId certName =>
    obtain rfl := Option.some.inj houtcome
    rw [WiredName.eq_of hplain]
    exact ⟨_, rfl, hrepresents.setDefaultCertificateOfKey hportable⟩

/-! ## Queries -/

/-- Every query gives the same result or fails in both. An identity or a certificate is asked for by a
name that keeps no wire of its own, and the lists of keys and certificates by names that equal a stored
name, component types aside, only if they are that name. -/
structure Indistinguishable (database : PibSqlite3) (pib : PibMemory) : Prop where
  hasIdentity : ∀ identity : WiredName, identity.keptWire = none →
    pib.hasIdentity identity.name = database.hasIdentity identity
  getIdentities : pib.getIdentities = database.getIdentities
  getDefaultIdentity : pib.getDefaultIdentity.toOption = database.getDefaultIdentity.toOption
  hasKey : ∀ identity keyId, pib.hasKey identity.name keyId = database.hasKey identity keyId
  getKeyBits : ∀ identity keyId,
    (pib.getKeyBits identity.name keyId).toOption = (database.getKeyBits identity keyId).toOption
  getKeysOfIdentity : ∀ identity : WiredName, identity.keptWire = none →
    (∀ entry ∈ pib.keys.entries, identity.name.equals (entry.1.getPrefix (-1)) = true →
      identity.name = entry.1.getPrefix (-1)) →
    pib.getKeysOfIdentity identity.name = database.getKeysOfIdentity identity
  getDefaultKeyOfIdentity : ∀ identity : WiredName, identity.keptWire = none →
    (pib.getDefaultKeyOfIdentity identity.name).toOption =
      (database.getDefaultKeyOfIdentity identity).toOption
  hasCertificate : ∀ certName : WiredName, certName.keptWire = none →
    pib.hasCertificate certName.name = database.hasCertificate certName
  getCertificate : ∀ certName : WiredName, certName.keptWire = none →
    (pib.getCertificate certName.name).toOption = (database.getCertificate certName).toOption
  getCertificatesOfKey : ∀ identity keyId,
    (∀ entry ∈ pib.certs.entries,
      entry.2.publicKeyName.equals (getKeyName identity.name keyId) = true →
        entry.2.publicKeyName = getKeyName identity.name keyId) →
    pib.getCertificatesOfKey identity.name keyId = database.getCertificatesOfKey identity keyId
  getDefaultCertificateOfKey : ∀ identity keyId,
    (pib.getDefaultCertificateOfKey identity.name keyId).toOption =
      (database.getDefaultCertificateOfKey identity keyId).toOption

section

variable (hrepresents : database.Represents pib)
include hrepresents

theorem Represents.getIdentities_eq : pib.getIdentities = database.getIdentities := by
  refine OrderedMap.eq_of_mem_iff fun ⟨identity, value⟩ ↦ ?_
  rw [PibSqlite3.getIdentities, OrderedMap.mem_ofKeys, List.mem_map, PibMemory.getIdentities,
    ← OrderedMap.find_eq_some_iff, hrepresents.identities.entry]
  constructor
  · rintro ⟨row, hrow, hkey, -⟩
    exact ⟨row, hrow, by rw [hkey, WiredName.of]⟩
  · rintro ⟨row, hrow, rfl⟩
    obtain ⟨name, hkey, -⟩ := hrepresents.identities.owner row hrow
    exact ⟨row, hrow, by rw [hkey]; rfl, rfl⟩

theorem Represents.getDefaultIdentity_eq :
    pib.getDefaultIdentity.toOption = database.getDefaultIdentity.toOption := by
  unfold PibSqlite3.getDefaultIdentity
  rcases hrepresents.identities.find?_default Row.isDefault () (fun row _ _ _ ↦ by simp) with ⟨hnone, hdefault⟩ | ⟨row, name, hsome, hkey, hdefault, -⟩
  · rw [hnone, hdefault]
    rfl
  · rw [hsome, hdefault]
    simp [hkey, WiredName.of, Except.toOption]

theorem Represents.getKeyBits_eq (identity : WiredName) (keyId : Component) :
    (pib.getKeyBits identity.name keyId).toOption =
      (database.getKeyBits identity keyId).toOption := by
  unfold PibMemory.getKeyBits PibSqlite3.getKeyBits
  rw [← hrepresents.keys.row?_eq, keyColumn]
  cases database.keys.row? (.of (getKeyName identity.name keyId)) <;> rfl

theorem Represents.getCertificate_eq (certName : Name) :
    (pib.getCertificate certName).toOption = (database.getCertificate (.of certName)).toOption := by
  unfold PibMemory.getCertificate PibSqlite3.getCertificate
  rw [← hrepresents.certificates.row?_eq]
  cases database.certificates.row? (.of certName) <;> rfl

theorem Represents.getKeysOfIdentity_eq
    (hown : ∀ entry ∈ pib.keys.entries, identity.equals (entry.1.getPrefix (-1)) = true →
      identity = entry.1.getPrefix (-1)) :
    pib.getKeysOfIdentity identity = database.getKeysOfIdentity (.of identity) := by
  refine OrderedMap.eq_of_mem_iff fun ⟨keyId, _⟩ ↦ ?_
  rw [← OrderedMap.mem_map_fst, PibMemory.mem_getKeysOfIdentity, PibSqlite3.getKeysOfIdentity,
    OrderedMap.mem_ofKeys, List.mem_filterMap]
  constructor
  · rintro ⟨keyName, bits, hfind, hequals, hlast⟩
    obtain ⟨row, hrow, hkey, -⟩ := hrepresents.keys.entry.mp hfind
    have hidentity := hown _ (OrderedMap.find_eq_some_iff.mp hfind) hequals
    exact ⟨row, List.mem_filter.mpr
      ⟨hrow, (hrepresents.isKeyOf_iff hrow hkey).mpr hidentity.symm⟩, by rw [hkey]; exact hlast⟩
  · rintro ⟨row, hmem, hlast⟩
    obtain ⟨hrow, hjoined⟩ := List.mem_filter.mp hmem
    obtain ⟨keyName, hkey, -⟩ := hrepresents.keys.owner row hrow
    refine ⟨keyName, row.value, hrepresents.keys.entry_of_mem hrow hkey, ?_, ?_⟩
    · rw [(hrepresents.isKeyOf_iff hrow hkey).mp hjoined, Name.equals_iff]
    · rwa [hkey] at hlast

theorem Represents.getDefaultKeyOfIdentity_eq (identity : Name) :
    (pib.getDefaultKeyOfIdentity identity).toOption =
      (database.getDefaultKeyOfIdentity (.of identity)).toOption := by
  unfold PibMemory.getDefaultKeyOfIdentity PibSqlite3.getDefaultKeyOfIdentity
  rw [hrepresents.hasIdentity_eq]
  rcases hrepresents.keys.find?_default
      (fun row ↦ database.isKeyOf (.of identity) row && row.isDefault) identity
      (fun row hrow keyName hkey ↦ by
        rw [Bool.and_eq_true, hrepresents.isKeyOf_iff hrow hkey, keyHolder, and_comm]) with
    ⟨hnone, hdefault⟩ | ⟨row, keyName, hsome, hkey, hdefault, hentry⟩
  · rw [hnone, hdefault]
    split_ifs <;> rfl
  · obtain ⟨_, hbits, hholder⟩ := hrepresents.keys.entry_of_default hdefault
    obtain ⟨stored, hstored, hname, -⟩ := hrepresents.keys.entry.mp hbits
    obtain ⟨owner, howner, -, hidentity⟩ :=
      hrepresents.keys.owns_of_mem of_injective hstored hname
    have hpresent : pib.hasIdentity identity = true := by
      rw [PibMemory.hasIdentity, hrepresents.identities.entry_of_mem howner
        (hidentity.trans (congrArg WiredName.of hholder))]
      rfl
    rw [hsome, hdefault, hpresent]
    change some ((keyName.get (-1)).getD Component.empty) =
      some ((row.key.name.get (-1)).getD Component.empty)
    rw [hkey]
    rfl

theorem Represents.getCertificatesOfKey_eq {identity : WiredName}
    (hown : ∀ entry ∈ pib.certs.entries,
      entry.2.publicKeyName.equals (getKeyName identity.name keyId) = true →
      entry.2.publicKeyName = getKeyName identity.name keyId) :
    pib.getCertificatesOfKey identity.name keyId =
      database.getCertificatesOfKey identity keyId := by
  refine OrderedMap.eq_of_mem_iff fun ⟨certName, _⟩ ↦ ?_
  rw [← OrderedMap.mem_map_fst, PibMemory.mem_getCertificatesOfKey,
    PibSqlite3.getCertificatesOfKey, OrderedMap.mem_ofKeys, List.mem_map]
  constructor
  · rintro ⟨certificate, hfind, hequals⟩
    obtain ⟨row, hrow, hname, rfl⟩ := hrepresents.certificates.entry.mp hfind
    have hkey := hown _ (OrderedMap.find_eq_some_iff.mp hfind) hequals
    exact ⟨row, List.mem_filter.mpr ⟨hrow, (hrepresents.isCertificateOf_iff hrow).mpr hkey⟩,
      by rw [hname, WiredName.of]⟩
  · rintro ⟨row, hmem, hname⟩
    obtain ⟨hrow, hjoined⟩ := List.mem_filter.mp hmem
    obtain ⟨stored, hkey, -⟩ := hrepresents.certificates.owner row hrow
    obtain rfl : stored = certName := by rwa [hkey] at hname
    refine ⟨row.value, hrepresents.certificates.entry_of_mem hrow hkey, ?_⟩
    rw [(hrepresents.isCertificateOf_iff hrow).mp hjoined, Name.equals_iff]

theorem Represents.getDefaultCertificateOfKey_eq (identity : WiredName) (keyId : Component) :
    (pib.getDefaultCertificateOfKey identity.name keyId).toOption =
      (database.getDefaultCertificateOfKey identity keyId).toOption := by
  unfold PibMemory.getDefaultCertificateOfKey PibSqlite3.getDefaultCertificateOfKey
  rcases hrepresents.certificates.find?_default (fun row ↦ row.isDefault &&
      database.isCertificateOf (.of (getKeyName identity.name keyId)) row)
      (getKeyName identity.name keyId) (fun row hrow _ _ ↦ by
        rw [Bool.and_eq_true, hrepresents.isCertificateOf_iff hrow, certificateHolder]) with
    ⟨hnone, hdefault⟩ | ⟨row, certName, hsome, -, hdefault, hentry⟩
  · rw [keyColumn, hnone, hdefault]
    rfl
  · rw [keyColumn, hsome, hdefault]
    simp only [hentry]

theorem Represents.indistinguishable :
    database.Indistinguishable pib where
  hasIdentity := by
    intro identity hplain
    rw [WiredName.eq_of hplain]
    exact (hrepresents.hasIdentity_eq identity.name).symm
  getIdentities := hrepresents.getIdentities_eq
  getDefaultIdentity := hrepresents.getDefaultIdentity_eq
  hasKey := fun identity keyId ↦ (hrepresents.hasKey_eq identity keyId).symm
  getKeyBits := hrepresents.getKeyBits_eq
  getKeysOfIdentity := by
    intro identity hplain hown
    rw [WiredName.eq_of hplain]
    exact hrepresents.getKeysOfIdentity_eq hown
  getDefaultKeyOfIdentity := by
    intro identity hplain
    rw [WiredName.eq_of hplain]
    exact hrepresents.getDefaultKeyOfIdentity_eq identity.name
  hasCertificate := by
    intro certName hplain
    rw [WiredName.eq_of hplain]
    exact (hrepresents.hasCertificate_eq certName.name).symm
  getCertificate := by
    intro certName hplain
    rw [WiredName.eq_of hplain]
    exact hrepresents.getCertificate_eq certName.name
  getCertificatesOfKey := fun _ _ ↦ hrepresents.getCertificatesOfKey_eq
  getDefaultCertificateOfKey := hrepresents.getDefaultCertificateOfKey_eq

end

end Represents

/-- An operation as the PIB in memory performs it -/
def inMemory (pib : PibMemory) (call : Pib.Call) : Option PibMemory := pib.step call.event

end PibSqlite3

end NdnCxx
