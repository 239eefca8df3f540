import NdnCxx.Security.CertificateNames
import NdnCxx.Security.DefaultRegistry
import NdnCxx.Security.SecPublicInfo

/-!
# The tables of the public information as registers

The three tables refer to each other by the texts in their columns, and nothing in the database checks
them. What the statements keep is stated here: no owner has two default rows, and the identity of every
key and the key of every certificate are in their tables. The tables that hold together stand for
registers of defaults, and each statement is an operation on the registers.
-/

namespace NdnCxx

open MarkedTable

/-! ## Texts of names -/

variable {other : Name}

namespace Name

/-- The texts of the components are read off the URI. -/
theorem splitComponents_drop_toUri (name : Name) :
    splitComponents (name.toUri.toList.drop 1) = name.map Component.toUri := by
  cases name with
  | nil => decide
  | cons component name =>
    rw [toUri, String.toList_ofList, if_neg (by simp), flatMap_toUri_eq, List.drop_one, List.tail_cons,
      splitComponents_intercalate]

theorem map_toUri_eq_of_toUri_eq {name : Name} (huri : name.toUri = other.toUri) :
    name.map Component.toUri = other.map Component.toUri := by
  rw [← splitComponents_drop_toUri, ← splitComponents_drop_toUri, huri]

theorem toUri_eq_of_map_toUri_eq {name : Name}
    (htexts : name.map Component.toUri = other.map Component.toUri) : name.toUri = other.toUri := by
  have hflat (name : Name) : name.flatMap (fun component ↦ '/' :: component.toUri) =
      (name.map Component.toUri).flatMap ('/' :: ·) := (List.flatMap_map ..).symm
  have hempty (name : Name) : name.isEmpty = (name.map Component.toUri).isEmpty := by
    cases name <;> rfl
  rw [toUri, toUri, hflat, hflat, hempty name, hempty other, htexts]

end Name

namespace SecPublicInfo

open Validation KeyChain

variable {keyName : Name}

/-- The columns are a matter of the texts of the components. -/
theorem keyColumns_eq_of_map_toUri_eq
    (htexts : keyName.map Component.toUri = other.map Component.toUri) :
    keyColumns keyName = keyColumns other := by
  have hlength : keyName.length = other.length := by simpa using congrArg List.length htexts
  have hfront : (keyName.getPrefix (-1)).toUri = (other.getPrefix (-1)).toUri := by
    apply Name.toUri_eq_of_map_toUri_eq
    simp only [Name.getPrefix, apply_ite (List.map Component.toUri), List.map_take, htexts, hlength]
  have hlast : (keyName.get (-1)).map Component.toUri = (other.get (-1)).map Component.toUri := by
    unfold Name.get
    simp only [hlength]
    split_ifs
    · rw [← List.getElem?_map, ← List.getElem?_map, htexts]
    · rw [← List.getElem?_map, ← List.getElem?_map, htexts]
    · rfl
  unfold keyColumns
  rw [hfront]
  cases hkey : keyName.get (-1) <;> cases hother : other.get (-1) <;> rw [hkey, hother] at hlast <;>
    simp_all

/-- The key of a certificate is a matter of its URI. -/
theorem keyColumns_certificate {name : Name} (huri : name.toUri = other.toUri)
    (hkey : certificateNameToPublicKeyName name = .ok keyName) :
    ∃ otherKey, certificateNameToPublicKeyName other = .ok otherKey ∧
      keyColumns otherKey = keyColumns keyName := by
  rw [certificateNameToPublicKeyName_eq_ok_iff] at hkey
  have htexts (name : Name) : (MarkedList.payload isKey isIdCert name).map (List.map Component.toUri) =
      MarkedList.payload (· = ['K', 'E', 'Y']) (· = ['I', 'D', '-', 'C', 'E', 'R', 'T'])
        (name.map Component.toUri) := by
    rw [MarkedList.payload_map]
    rfl
  have hsame := htexts name
  rw [Name.map_toUri_eq_of_toUri_eq huri, ← htexts other, hkey] at hsame
  obtain ⟨otherKey, hother, hmap⟩ := Option.map_eq_some_iff.mp hsame.symm
  exact ⟨otherKey, certificateNameToPublicKeyName_eq_ok_iff.mpr hother,
    keyColumns_eq_of_map_toUri_eq hmap⟩

namespace Certificate

theorem certificateNameToPublicKeyName_eq_ok (certificate : Certificate) :
    certificateNameToPublicKeyName certificate.name = .ok certificate.publicKeyName := by
  have hnamed := certificate.named
  unfold IdentityCertificate.publicKeyNameOf at hnamed
  split_ifs at hnamed
  exact hnamed

end Certificate

/-! ## The tables hold together -/

/-- What the database would have to check to refer from table to table: default rows are unique, the
identity of a key and the key of a certificate are there, and a certificate is kept under its own name
and key. -/
structure IsIntegral (pib : SecPublicInfo) : Prop where
  identities : pib.identities.IsMarkedOnce
  keys : pib.keys.IsMarkedOnce
  certificates : pib.certificates.IsMarkedOnce
  owner_of_key : ∀ row ∈ pib.keys.rows, row.owner = row.key.1
  identity_of_key : ∀ row ∈ pib.keys.rows, ∃ identity ∈ pib.identities.rows, identity.key = row.owner
  key_of_certificate : ∀ row ∈ pib.certificates.rows, ∃ key ∈ pib.keys.rows, key.key = row.owner
  name_of_certificate : ∀ row ∈ pib.certificates.rows,
    row.value.name.toUri = row.key ∧ keyColumns row.value.publicKeyName = some row.owner

theorem isIntegral_initial : initial.IsIntegral where
  identities := isMarkedOnce_empty
  keys := isMarkedOnce_empty
  certificates := isMarkedOnce_empty
  owner_of_key := fun row hrow ↦ absurd hrow (by simp [initial])
  identity_of_key := fun row hrow ↦ absurd hrow (by simp [initial])
  key_of_certificate := fun row hrow ↦ absurd hrow (by simp [initial])
  name_of_certificate := fun row hrow ↦ absurd hrow (by simp [initial])

variable {pib : SecPublicInfo}

namespace IsIntegral

theorem setTpmLocator (hpib : pib.IsIntegral) (tpmLocator : String) :
    (pib.setTpmLocator tpmLocator).IsIntegral := by
  have hlocated (locator : Option String) : { pib with tpmLocator := locator }.IsIntegral :=
    ⟨hpib.identities, hpib.keys, hpib.certificates, hpib.owner_of_key, hpib.identity_of_key,
      hpib.key_of_certificate, hpib.name_of_certificate⟩
  have hreset : (pib.setTpmLocatorInternal tpmLocator true).IsIntegral :=
    ⟨isIntegral_initial.identities, isIntegral_initial.keys, isIntegral_initial.certificates,
      isIntegral_initial.owner_of_key, isIntegral_initial.identity_of_key,
      isIntegral_initial.key_of_certificate, isIntegral_initial.name_of_certificate⟩
  unfold SecPublicInfo.setTpmLocator
  split
  · exact hlocated _
  · split_ifs
    · exact hpib
    · exact hreset

theorem addIdentity (hpib : pib.IsIntegral) (identityName : Name) :
    (pib.addIdentity identityName).IsIntegral := by
  unfold SecPublicInfo.addIdentity
  split_ifs with hexists
  · exact hpib
  · have hnew : pib.identities.row? identityName.toUri = none := by
      simpa [doesIdentityExist] using hexists
    refine ⟨hpib.identities.insertOrReplace hnew, hpib.keys, hpib.certificates, hpib.owner_of_key, ?_,
      hpib.key_of_certificate, hpib.name_of_certificate⟩
    intro row hrow
    obtain ⟨identity, hidentity, hname⟩ := hpib.identity_of_key row hrow
    exact ⟨identity, (mem_insertOrReplace hnew).mpr (.inl hidentity), hname⟩

end IsIntegral

/-- The identity is there afterwards, and the other tables are as before. -/
theorem addIdentity_spec (pib : SecPublicInfo) (identityName : Name) :
    (∃ row ∈ (pib.addIdentity identityName).identities.rows, row.key = identityName.toUri) ∧
      (pib.addIdentity identityName).keys = pib.keys ∧
      (pib.addIdentity identityName).certificates = pib.certificates ∧
      (pib.addIdentity identityName).defaultCertificate = pib.defaultCertificate := by
  unfold addIdentity
  split_ifs with hexists
  · exact ⟨isSome_row?_iff.mp hexists, rfl, rfl, rfl⟩
  · have hnew : pib.identities.row? identityName.toUri = none := by
      simpa [doesIdentityExist] using hexists
    exact ⟨⟨_, (mem_insertOrReplace hnew).mpr (.inr rfl), rfl⟩, rfl, rfl, rfl⟩

variable {columns : String × String} {certificate : Certificate}

namespace IsIntegral

theorem addKey (hpib : pib.IsIntegral) (keyName : Name) (publicKey : PublicKeyInfo) :
    (pib.addKey keyName publicKey).IsIntegral := by
  unfold SecPublicInfo.addKey
  split
  · exact hpib
  · rename_i columns hcolumns
    split_ifs with hexists
    · exact hpib
    · have hadded := hpib.addIdentity (keyName.getPrefix (-1))
      obtain ⟨hidentity, hkeys, -⟩ := pib.addIdentity_spec (keyName.getPrefix (-1))
      have hnew : (pib.addIdentity (keyName.getPrefix (-1))).keys.row? columns = none := by
        rw [hkeys]
        simpa using hexists
      have howner : (keyName.getPrefix (-1)).toUri = columns.1 := by
        obtain ⟨keyId, -, rfl⟩ := Option.map_eq_some_iff.mp hcolumns
        rfl
      refine ⟨hadded.identities, hadded.keys.insertOrReplace hnew, hadded.certificates, ?_, ?_, ?_,
        hadded.name_of_certificate⟩
      · intro row hrow
        rcases (mem_insertOrReplace hnew).mp hrow with hold | rfl
        · exact hadded.owner_of_key row hold
        · rfl
      · intro row hrow
        rcases (mem_insertOrReplace hnew).mp hrow with hold | rfl
        · exact hadded.identity_of_key row hold
        · exact howner ▸ hidentity
      · intro row hrow
        obtain ⟨key, hkey, hname⟩ := hadded.key_of_certificate row hrow
        exact ⟨key, (mem_insertOrReplace hnew).mpr (.inl hkey), hname⟩

/-- A certificate is added behind its key. -/
theorem insertCertificate (hpib : pib.IsIntegral)
    (hcolumns : keyColumns certificate.publicKeyName = some columns)
    (hkey : ∃ row ∈ pib.keys.rows, row.key = columns)
    (hnew : pib.doesCertificateExist certificate.name = false) :
    (pib.insertCertificate certificate columns).IsIntegral := by
  unfold SecPublicInfo.insertCertificate
  split_ifs
  · exact hpib
  · have hnone : pib.certificates.row? certificate.name.toUri = none := by
      simpa [doesCertificateExist] using hnew
    refine ⟨hpib.identities, hpib.keys, hpib.certificates.insertOrReplace hnone, hpib.owner_of_key,
      hpib.identity_of_key, ?_, ?_⟩
    · intro row hrow
      rcases (mem_insertOrReplace hnone).mp hrow with hold | rfl
      · exact hpib.key_of_certificate row hold
      · exact hkey
    · intro row hrow
      rcases (mem_insertOrReplace hnone).mp hrow with hold | rfl
      · exact hpib.name_of_certificate row hold
      · exact ⟨rfl, hcolumns⟩

end IsIntegral

/-! ## What the tables stand for -/

abbrev Registry := DefaultRegistry String String String String

def registry (pib : SecPublicInfo) : Registry where
  holder := pib.tpmLocator
  identities := {uri | ∃ row ∈ pib.identities.rows, row.key = uri}
  keys := {columns | ∃ row ∈ pib.keys.rows, row.key = columns}
  certificates := {entry | ∃ row ∈ pib.certificates.rows, (row.owner, row.key) = entry}
  defaultIdentity := (pib.identities.marked? ()).map Row.key
  defaultKey := fun identity ↦ (pib.keys.marked? identity).map fun row ↦ row.key.2
  defaultCertificate := fun columns ↦ (pib.certificates.marked? columns).map Row.key

theorem IsIntegral.registry_isClosed (hpib : pib.IsIntegral) : pib.registry.IsClosed where
  identity_of_key := by
    rintro _ ⟨row, hrow, rfl⟩
    exact hpib.owner_of_key row hrow ▸ hpib.identity_of_key row hrow
  key_of_certificate := by
    rintro _ ⟨row, hrow, rfl⟩
    exact hpib.key_of_certificate row hrow
  defaultIdentity := by
    intro identity hdefault
    obtain ⟨row, hmarked, rfl⟩ := Option.map_eq_some_iff.mp hdefault
    exact ⟨row, ((marked?_eq_some_iff hpib.identities).mp hmarked).1, rfl⟩
  defaultKey := by
    intro identity keyId hdefault
    obtain ⟨row, hmarked, rfl⟩ := Option.map_eq_some_iff.mp hdefault
    obtain ⟨hrow, -, rfl⟩ := (marked?_eq_some_iff hpib.keys).mp hmarked
    exact ⟨row, hrow, Prod.ext (hpib.owner_of_key row hrow).symm rfl⟩
  defaultCertificate := by
    intro key certificate hdefault
    obtain ⟨row, hmarked, rfl⟩ := Option.map_eq_some_iff.mp hdefault
    obtain ⟨hrow, -, rfl⟩ := (marked?_eq_some_iff hpib.certificates).mp hmarked
    exact ⟨row, hrow, rfl⟩

theorem registry_addIdentity (pib : SecPublicInfo) (identityName : Name) :
    (pib.addIdentity identityName).registry = pib.registry.addIdentity identityName.toUri := by
  unfold SecPublicInfo.addIdentity
  split_ifs with hexists
  · obtain ⟨row, hrow, hkey⟩ := isSome_row?_iff.mp hexists
    have hmem : identityName.toUri ∈ pib.registry.identities := ⟨row, hrow, hkey⟩
    rw [DefaultRegistry.addIdentity, Set.insert_eq_of_mem hmem]
  · have hnew : pib.identities.row? identityName.toUri = none := by
      simpa [doesIdentityExist] using hexists
    apply DefaultRegistry.ext
    · rfl
    · ext uri
      simp [registry, DefaultRegistry.addIdentity, mem_insertOrReplace hnew, or_and_right, exists_or,
        or_comm, eq_comm]
    · rfl
    · rfl
    · exact congrArg (Option.map Row.key) (marked?_insertOrReplace hnew)
    · rfl
    · rfl

theorem registry_setTpmLocator (pib : SecPublicInfo) (tpmLocator : String) :
    (pib.setTpmLocator tpmLocator).registry = pib.registry.setHolder tpmLocator := by
  have hblank (locator : Option String) :
      ({ pib with tpmLocator := locator, identities := .empty, keys := .empty,
                  certificates := .empty } : SecPublicInfo).registry = .blank locator := by
    apply DefaultRegistry.ext <;> simp [registry, DefaultRegistry.blank, marked?, empty]
  have hholder : pib.registry.holder = pib.tpmLocator := rfl
  unfold SecPublicInfo.setTpmLocator getTpmLocator DefaultRegistry.setHolder
  rw [hholder]
  cases pib.tpmLocator with
  | none => rfl
  | some currentTpm =>
    simp only [reduceCtorEq, if_false, Option.some.injEq]
    split_ifs with hsame
    · rfl
    · exact hblank (some tpmLocator)

theorem registry_insertCertificate (hsigner : certificate.signerName.isSome = true)
    (hnew : pib.doesCertificateExist certificate.name = false) :
    (pib.insertCertificate certificate columns).registry =
      pib.registry.addCertificate columns certificate.name.toUri := by
  have hnone : pib.certificates.row? certificate.name.toUri = none := by
    simpa [doesCertificateExist] using hnew
  rw [SecPublicInfo.insertCertificate, if_neg (by simpa [← Option.isSome_iff_ne_none] using hsigner)]
  apply DefaultRegistry.ext
  · rfl
  · rfl
  · rfl
  · ext entry
    simp [registry, DefaultRegistry.addCertificate, mem_insertOrReplace hnone, or_and_right, exists_or,
      or_comm, eq_comm]
  · rfl
  · rfl
  · funext key
    exact congrArg (Option.map Row.key) (marked?_insertOrReplace hnone)

namespace IsIntegral

theorem registry_addKey (hpib : pib.IsIntegral) (hcolumns : keyColumns keyName = some columns)
    (publicKey : PublicKeyInfo) :
    (pib.addKey keyName publicKey).registry = pib.registry.addKey columns := by
  have howner : (keyName.getPrefix (-1)).toUri = columns.1 := by
    obtain ⟨keyId, -, rfl⟩ := Option.map_eq_some_iff.mp hcolumns
    rfl
  simp only [SecPublicInfo.addKey, hcolumns]
  split_ifs with hexists
  · obtain ⟨row, hrow, hkey⟩ := isSome_row?_iff.mp hexists
    have hmem : columns ∈ pib.registry.keys := ⟨row, hrow, hkey⟩
    have hidentity : columns.1 ∈ pib.registry.identities :=
      hpib.registry_isClosed.identity_of_key columns hmem
    rw [DefaultRegistry.addKey, DefaultRegistry.addIdentity, Set.insert_eq_of_mem hmem,
      Set.insert_eq_of_mem hidentity]
  · have hadded := pib.registry_addIdentity (keyName.getPrefix (-1))
    rw [howner] at hadded
    have hnew : (pib.addIdentity (keyName.getPrefix (-1))).keys.row? columns = none := by
      rw [(pib.addIdentity_spec (keyName.getPrefix (-1))).2.1]
      simpa using hexists
    rw [DefaultRegistry.addKey, ← hadded]
    apply DefaultRegistry.ext
    · rfl
    · rfl
    · ext key
      have hkeys : pib.registry.keys = (pib.addIdentity (keyName.getPrefix (-1))).registry.keys := by
        rw [hadded]
        rfl
      rw [hkeys]
      simp [registry, mem_insertOrReplace hnew, or_and_right, exists_or, or_comm, eq_comm]
    · rfl
    · rfl
    · funext identity
      exact congrArg (Option.map _) (marked?_insertOrReplace hnew)
    · rfl

theorem mem_certificates_of_exists (hpib : pib.IsIntegral) {certificateName : Name}
    (hkey : certificateNameToPublicKeyName certificateName = .ok keyName)
    (hcolumns : keyColumns keyName = some columns)
    (hexists : pib.doesCertificateExist certificateName = true) :
    ∃ row ∈ pib.certificates.rows, row.owner = columns ∧ row.key = certificateName.toUri := by
  obtain ⟨row, hrow, hname⟩ := isSome_row?_iff.mp hexists
  obtain ⟨huri, howner⟩ := hpib.name_of_certificate row hrow
  obtain ⟨otherKey, hother, hsame⟩ := keyColumns_certificate (hname.symm.trans huri.symm) hkey
  rw [row.value.certificateNameToPublicKeyName_eq_ok] at hother
  obtain rfl := Except.ok.inj hother
  rw [howner, hcolumns] at hsame
  exact ⟨row, hrow, Option.some.inj hsame, hname⟩

/-! ## Moving the defaults -/

section

variable (hpib : pib.IsIntegral)
include hpib

theorem setDefaultIdentityInternal (identityName : Name) :
    (pib.setDefaultIdentityInternal identityName).IsIntegral := by
  have hadded := hpib.addIdentity identityName
  refine ⟨hadded.identities.mark_unmark () _, hadded.keys, hadded.certificates, hadded.owner_of_key,
    ?_, hadded.key_of_certificate, hadded.name_of_certificate⟩
  intro row hrow
  exact (exists_mem_mark_unmark_iff fun _ key _ ↦ key = row.owner).mpr
    (hadded.identity_of_key row hrow)

theorem registry_setDefaultIdentityInternal (identityName : Name) :
    (pib.setDefaultIdentityInternal identityName).registry =
      pib.registry.setDefaultIdentity identityName.toUri := by
  obtain ⟨target, htarget, hkey⟩ := (pib.addIdentity_spec identityName).1
  have hmarked := marked?_mark_unmark (hpib.addIdentity identityName).identities htarget ()
  rw [if_pos rfl, hkey] at hmarked
  rw [DefaultRegistry.setDefaultIdentity, ← registry_addIdentity]
  apply DefaultRegistry.ext
  · rfl
  · ext uri
    exact exists_mem_mark_unmark_iff fun _ key _ ↦ key = uri
  · rfl
  · rfl
  · exact congrArg (Option.map Row.key) hmarked
  · rfl
  · rfl

/-- The key tables after the two statements of `setDefaultKeyNameForIdentityInternal` -/
theorem markKey (columns : String × String) :
    { pib with keys := (pib.keys.unmark columns.1).mark columns.1 columns }.IsIntegral := by
  refine ⟨hpib.identities, hpib.keys.mark_unmark _ _, hpib.certificates, ?_, ?_, ?_,
    hpib.name_of_certificate⟩
  · intro row hrow
    obtain ⟨old, hold, rfl⟩ := mem_mark_unmark.mp hrow
    simpa using hpib.owner_of_key old hold
  · intro row hrow
    obtain ⟨old, hold, rfl⟩ := mem_mark_unmark.mp hrow
    simpa using hpib.identity_of_key old hold
  · intro row hrow
    exact (exists_mem_mark_unmark_iff fun _ key _ ↦ key = row.owner).mpr
      (hpib.key_of_certificate row hrow)

theorem registry_markKey (hexists : ∃ row ∈ pib.keys.rows, row.key = columns) :
    { pib with keys := (pib.keys.unmark columns.1).mark columns.1 columns }.registry =
      pib.registry.setDefaultKey columns := by
  obtain ⟨target, htarget, rfl⟩ := hexists
  have howner := hpib.owner_of_key target htarget
  have hmem : target.key ∈ pib.registry.keys := ⟨target, htarget, rfl⟩
  rw [DefaultRegistry.setDefaultKey, if_pos hmem]
  apply DefaultRegistry.ext
  · rfl
  · rfl
  · ext key
    exact exists_mem_mark_unmark_iff fun _ other _ ↦ other = key
  · rfl
  · rfl
  · funext identity
    have hmarked := marked?_mark_unmark hpib.keys htarget identity
    rw [howner] at hmarked
    change Option.map _ (((pib.keys.unmark target.key.1).mark target.key.1 target.key).marked?
      identity) = _
    rw [hmarked]
    dsimp only
    rw [Function.update_apply]
    split_ifs <;> rfl
  · rfl

theorem markCertificate (columns : String × String) (uri : String) :
    { pib with
      certificates := (pib.certificates.unmark columns).mark columns uri }.IsIntegral := by
  refine ⟨hpib.identities, hpib.keys, hpib.certificates.mark_unmark _ _, hpib.owner_of_key,
    hpib.identity_of_key, ?_, ?_⟩
  · intro row hrow
    obtain ⟨old, hold, rfl⟩ := mem_mark_unmark.mp hrow
    simpa using hpib.key_of_certificate old hold
  · intro row hrow
    obtain ⟨old, hold, rfl⟩ := mem_mark_unmark.mp hrow
    simpa using hpib.name_of_certificate old hold

theorem registry_markCertificate {uri : String}
    (hexists : ∃ row ∈ pib.certificates.rows, row.owner = columns ∧ row.key = uri) :
    { pib with certificates := (pib.certificates.unmark columns).mark columns uri }.registry =
      pib.registry.setDefaultCertificate columns uri := by
  obtain ⟨target, htarget, rfl, rfl⟩ := hexists
  have hmem : (target.owner, target.key) ∈ pib.registry.certificates := ⟨target, htarget, rfl⟩
  rw [DefaultRegistry.setDefaultCertificate, if_pos hmem]
  apply DefaultRegistry.ext
  · rfl
  · rfl
  · rfl
  · ext entry
    exact exists_mem_mark_unmark_iff fun owner key _ ↦ (owner, key) = entry
  · rfl
  · rfl
  · funext key
    have hmarked := marked?_mark_unmark hpib.certificates htarget key
    change Option.map _ (((pib.certificates.unmark target.owner).mark target.owner
      target.key).marked? key) = _
    rw [hmarked]
    dsimp only
    rw [Function.update_apply]
    split_ifs <;> rfl

end

/-! ## Deletion -/

section

variable (hpib : pib.IsIntegral)
include hpib

theorem deleteCertificateInfo (certName : Name) :
    (pib.deleteCertificateInfo certName).IsIntegral := by
  unfold SecPublicInfo.deleteCertificateInfo
  split_ifs
  · exact hpib
  · exact ⟨hpib.identities, hpib.keys, hpib.certificates.deleteWhere _, hpib.owner_of_key,
      hpib.identity_of_key, fun row hrow ↦ hpib.key_of_certificate row (mem_deleteWhere.mp hrow).1,
      fun row hrow ↦ hpib.name_of_certificate row (mem_deleteWhere.mp hrow).1⟩

theorem deletePublicKeyInfo (keyName : Name) : (pib.deletePublicKeyInfo keyName).IsIntegral := by
  unfold SecPublicInfo.deletePublicKeyInfo
  split
  · exact hpib
  · rename_i columns _
    refine ⟨hpib.identities, hpib.keys.deleteWhere _, hpib.certificates.deleteWhere _,
      fun row hrow ↦ hpib.owner_of_key row (mem_deleteWhere.mp hrow).1,
      fun row hrow ↦ hpib.identity_of_key row (mem_deleteWhere.mp hrow).1, ?_,
      fun row hrow ↦ hpib.name_of_certificate row (mem_deleteWhere.mp hrow).1⟩
    intro row hrow
    obtain ⟨hold, hkept⟩ := mem_deleteWhere.mp hrow
    obtain ⟨key, hkey, howner⟩ := hpib.key_of_certificate row hold
    exact ⟨key, mem_deleteWhere.mpr ⟨hkey, by simpa [howner] using hkept⟩, howner⟩

theorem deleteIdentityInfo (identityName : Name) :
    (pib.deleteIdentityInfo identityName).IsIntegral := by
  refine ⟨hpib.identities.deleteWhere _, hpib.keys.deleteWhere _, hpib.certificates.deleteWhere _,
    fun row hrow ↦ hpib.owner_of_key row (mem_deleteWhere.mp hrow).1, ?_, ?_,
    fun row hrow ↦ hpib.name_of_certificate row (mem_deleteWhere.mp hrow).1⟩
  · intro row hrow
    obtain ⟨hold, hkept⟩ := mem_deleteWhere.mp hrow
    obtain ⟨identity, hidentity, howner⟩ := hpib.identity_of_key row hold
    exact ⟨identity, mem_deleteWhere.mpr ⟨hidentity, by simpa [howner] using hkept⟩, howner⟩
  · intro row hrow
    obtain ⟨hold, hkept⟩ := mem_deleteWhere.mp hrow
    obtain ⟨key, hkey, howner⟩ := hpib.key_of_certificate row hold
    have hidentity : key.owner = row.owner.1 := by rw [hpib.owner_of_key key hkey, howner]
    exact ⟨key, mem_deleteWhere.mpr ⟨hkey, by simpa [hidentity] using hkept⟩, howner⟩

theorem registry_deleteCertificateInfo {certName : Name} (hname : certName ≠ []) :
    (pib.deleteCertificateInfo certName).registry =
      pib.registry.deleteCertificate certName.toUri := by
  rw [SecPublicInfo.deleteCertificateInfo, if_neg (by simpa using hname)]
  apply DefaultRegistry.ext
  · rfl
  · rfl
  · rfl
  · exact setOf_deleteWhere (fun entry : (String × String) × String ↦ entry.2 = certName.toUri) fun row _ ↦ by simp
  · rfl
  · rfl
  · funext key
    exact map_marked?_deleteWhere hpib.certificates (· = certName.toUri)
      fun row _ _ ↦ by simp

theorem registry_deletePublicKeyInfo (hcolumns : keyColumns keyName = some columns) :
    (pib.deletePublicKeyInfo keyName).registry = pib.registry.deleteKey columns := by
  simp only [SecPublicInfo.deletePublicKeyInfo, hcolumns]
  apply DefaultRegistry.ext
  · rfl
  · rfl
  · exact setOf_deleteWhere (· = columns) fun row _ ↦ by simp
  · exact setOf_deleteWhere (fun entry : (String × String) × String ↦ entry.1 = columns) fun row _ ↦ by simp
  · rfl
  · funext identity
    refine map_marked?_deleteWhere hpib.keys
      (fun keyId ↦ (identity, keyId) = columns) fun row hrow howner ↦ ?_
    rw [← howner, hpib.owner_of_key row hrow, decide_eq_true_iff]
  · funext key
    refine (congrArg (Option.map Row.key) (marked?_deleteWhere_owner hpib.certificates
      (· = columns) key)).trans ?_
    rw [apply_ite (Option.map Row.key)]
    rfl

theorem registry_deleteIdentityInfo (identityName : Name) :
    (pib.deleteIdentityInfo identityName).registry =
      pib.registry.deleteIdentity identityName.toUri := by
  apply DefaultRegistry.ext
  · rfl
  · exact setOf_deleteWhere (· = identityName.toUri) fun row _ ↦ by simp
  · refine setOf_deleteWhere (fun key : String × String ↦ key.1 = identityName.toUri) fun row hrow ↦ ?_
    rw [hpib.owner_of_key row hrow, decide_eq_true_iff]
  · exact setOf_deleteWhere
      (fun entry : (String × String) × String ↦ entry.1.1 = identityName.toUri) fun row _ ↦ by simp
  · exact map_marked?_deleteWhere hpib.identities (· = identityName.toUri)
      fun row _ _ ↦ by simp
  · funext identity
    refine (congrArg (Option.map _) (marked?_deleteWhere_owner hpib.keys
      (· = identityName.toUri) identity)).trans ?_
    rw [apply_ite (Option.map _)]
    rfl
  · funext key
    refine (congrArg (Option.map Row.key) (marked?_deleteWhere_owner hpib.certificates
      (fun key ↦ key.1 = identityName.toUri) key)).trans ?_
    rw [apply_ite (Option.map Row.key)]
    rfl

end

end IsIntegral

end SecPublicInfo

end NdnCxx
