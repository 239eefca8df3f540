import NdnCxx.Security.DefaultCertificate
import NdnCxx.Security.KeyChainStores

/-!
# Public information that is backed by key files

Nothing in the two stores refers from one to the other, apart from the texts of names. What a key chain
needs is that every key of the PIB, and the key in every certificate, is the public half of a pair of key
files. Each statement on the PIB keeps this if what it adds is held by the TPM.
-/

namespace NdnCxx

open MarkedTable Validation KeyChain

namespace SecPublicInfo

/-! ## What the rows carry -/

/-- Every key and every certificate of the tables has a property. -/
structure Carries (keyOk : String × String → PublicKeyInfo → Prop)
    (certificateOk : String × String → Certificate → Prop) (pib : SecPublicInfo) : Prop where
  keys : ∀ row ∈ pib.keys.rows, keyOk row.key row.value
  certificates : ∀ row ∈ pib.certificates.rows, certificateOk row.owner row.value

/-- What an event adds has the property. -/
def Event.Offers (keyOk : String × String → PublicKeyInfo → Prop)
    (certificateOk : String × String → Certificate → Prop) : Event → Prop
  | .addKey keyName publicKey => ∀ columns, keyColumns keyName = some columns → keyOk columns publicKey
  | .addCertificate certificate | .addCertificateAsKeyDefault certificate
  | .addCertificateAsIdentityDefault certificate | .addCertificateAsSystemDefault certificate =>
      ∀ columns, certificateColumns certificate.name = some columns →
        keyOk columns certificate.publicKeyInfo ∧ certificateOk columns certificate
  | _ => True

variable {keyName : Name} {columns : String × String} {event : Event} {publicKey : PublicKeyInfo}

section Carries

open Throwing

variable {keyOk : String × String → PublicKeyInfo → Prop}
    {certificateOk : String × String → Certificate → Prop} {pib : SecPublicInfo}
    {certificate : Certificate}

namespace Carries

variable {next : SecPublicInfo}

section

variable (hpib : Carries keyOk certificateOk pib)
include hpib

theorem of_eq (hkeys : next.keys = pib.keys)
    (hcertificates : next.certificates = pib.certificates) : Carries keyOk certificateOk next :=
  ⟨hkeys ▸ hpib.keys, hcertificates ▸ hpib.certificates⟩

theorem addIdentity (identityName : Name) :
    Carries keyOk certificateOk (pib.addIdentity identityName) := by
  obtain ⟨-, hkeys, hcertificates, -⟩ := pib.addIdentity_spec identityName
  exact hpib.of_eq hkeys hcertificates

theorem addKey (hkey : ∀ columns, keyColumns keyName = some columns → keyOk columns publicKey) :
    Carries keyOk certificateOk (pib.addKey keyName publicKey) := by
  unfold SecPublicInfo.addKey
  split
  · exact hpib
  · rename_i columns hcolumns
    split_ifs with hexists
    · exact hpib
    · have hadded := hpib.addIdentity (keyName.getPrefix (-1))
      have hnew : (pib.addIdentity (keyName.getPrefix (-1))).keys.row? columns = none := by
        rw [(pib.addIdentity_spec (keyName.getPrefix (-1))).2.1]
        simpa using hexists
      refine ⟨fun row hrow ↦ ?_, hadded.certificates⟩
      rcases (mem_insertOrReplace hnew).mp hrow with hold | rfl
      · exact hadded.keys row hold
      · exact hkey columns hcolumns

theorem insertCertificate (hcertificate : certificateOk columns certificate)
    (hnew : pib.doesCertificateExist certificate.name = false) :
    Carries keyOk certificateOk (pib.insertCertificate certificate columns) := by
  have hnone : pib.certificates.row? certificate.name.toUri = none := by
    simpa [doesCertificateExist] using hnew
  unfold SecPublicInfo.insertCertificate
  split_ifs
  · exact hpib
  · refine ⟨hpib.keys, fun row hrow ↦ ?_⟩
    rcases (mem_insertOrReplace hnone).mp hrow with hold | rfl
    · exact hpib.certificates row hold
    · exact hcertificate

theorem markKey (columns : String × String) :
    Carries keyOk certificateOk
      { pib with keys := (pib.keys.unmark columns.1).mark columns.1 columns } := by
  refine ⟨fun row hrow ↦ ?_, hpib.certificates⟩
  obtain ⟨old, hold, rfl⟩ := mem_mark_unmark.mp hrow
  rw [Row.remark_key, Row.remark_value]
  exact hpib.keys old hold

theorem markCertificate (columns : String × String) (uri : String) :
    Carries keyOk certificateOk
      { pib with certificates := (pib.certificates.unmark columns).mark columns uri } := by
  refine ⟨hpib.keys, fun row hrow ↦ ?_⟩
  obtain ⟨old, hold, rfl⟩ := mem_mark_unmark.mp hrow
  rw [Row.remark_owner, Row.remark_value]
  exact hpib.certificates old hold

theorem deleteWhere (hkeys : ∀ row ∈ next.keys.rows, row ∈ pib.keys.rows)
    (hcertificates : ∀ row ∈ next.certificates.rows, row ∈ pib.certificates.rows) :
    Carries keyOk certificateOk next :=
  ⟨fun row hrow ↦ hpib.keys row (hkeys row hrow),
    fun row hrow ↦ hpib.certificates row (hcertificates row hrow)⟩

end

end Carries

theorem keepsRows_addCertificate
    (hoffers : ∀ columns, certificateColumns certificate.name = some columns →
      keyOk columns certificate.publicKeyInfo ∧ certificateOk columns certificate) :
    Keeps (Carries keyOk certificateOk) (addCertificate certificate) := by
  rw [← keyColumns_publicKeyName] at hoffers
  exact keeps_addCertificate_of
    (fun _ hpib ↦ hpib.addKey fun columns hcolumns ↦ (hoffers columns hcolumns).1)
    fun _ columns hpib hcolumns hnew ↦ hpib.insertCertificate (hoffers columns hcolumns).2 hnew

theorem keepsRows_setDefaultKey (keyName : Name) :
    Keeps (Carries keyOk certificateOk) (setDefaultKeyNameForIdentityInternal keyName) :=
  keeps_setDefaultKey_of fun _ columns hpib ↦ hpib.markKey columns

theorem keepsRows_setDefaultCertificate (certificateName : Name) :
    Keeps (Carries keyOk certificateOk) (setDefaultCertificateNameForKeyInternal certificateName) :=
  keeps_setDefaultCertificate_of fun _ columns hpib ↦ hpib.markCertificate columns _

theorem keepsRows_refresh : Keeps (Carries keyOk certificateOk) refreshDefaultCertificate := by
  intro pib hpib
  unfold refreshDefaultCertificate
  rw [EStateM.run_bind, EStateM.run_get]
  dsimp only
  cases pib.storedDefaultCertificate with
  | ok certificate => exact hpib.of_eq rfl rfl
  | error exception => cases exception <;> exact hpib.of_eq rfl rfl

/-- Behind an added certificate the other statements add nothing. -/
theorem keepsRows_call (hoffers : event.Offers keyOk certificateOk) :
    Keeps (Carries keyOk certificateOk) event.call := by
  have hrefreshed {Value : Type} {call : Call Value} (hcall : Keeps (Carries keyOk certificateOk) call) :
      Keeps (Carries keyOk certificateOk) (call >>= fun _ ↦ refreshDefaultCertificate) :=
    Meets.bind _ hcall fun _ ↦ keepsRows_refresh
  have hidentity (identityName : Name) : Keeps (Carries keyOk certificateOk)
      (modify fun pib ↦ pib.setDefaultIdentityInternal identityName : Call Unit) :=
    Meets.of_modify fun pib hpib ↦ (hpib.addIdentity identityName).of_eq rfl rfl
  have hread {rest : Name → Call Unit} {name : Name}
      (hrest : ∀ keyName, Keeps (Carries keyOk certificateOk) (rest keyName)) :
      Keeps (Carries keyOk certificateOk)
        ((.reads fun _ ↦ (certificateNameToPublicKeyName name).mapError Thrown.error) >>= rest) :=
    Meets.bind _ (Meets.of_reads (fun _ _ hpib _ ↦ hpib) fun _ _ hpib _ ↦ hpib) hrest
  cases event with
  | setTpmLocator tpmLocator =>
    refine Meets.of_modify fun pib hpib ↦ ?_
    unfold SecPublicInfo.setTpmLocator
    split
    · exact hpib.of_eq rfl rfl
    · split_ifs
      · exact hpib
      · exact ⟨fun row hrow ↦ absurd hrow List.not_mem_nil,
          fun row hrow ↦ absurd hrow List.not_mem_nil⟩
  | addIdentity identityName => exact Meets.of_modify fun pib hpib ↦ hpib.addIdentity identityName
  | addKey keyName publicKey => exact Meets.of_modify fun pib hpib ↦ hpib.addKey hoffers
  | addCertificate certificate => exact keepsRows_addCertificate hoffers
  | setDefaultIdentity identityName => exact hrefreshed (hidentity identityName)
  | setDefaultKeyNameForIdentity keyName => exact hrefreshed (keepsRows_setDefaultKey keyName)
  | setDefaultCertificateNameForKey certificateName =>
    exact hrefreshed (keepsRows_setDefaultCertificate certificateName)
  | addCertificateAsKeyDefault certificate =>
    exact Meets.bind _ (keepsRows_addCertificate hoffers) fun _ ↦
      hrefreshed (keepsRows_setDefaultCertificate _)
  | addCertificateAsIdentityDefault certificate =>
    exact Meets.bind _ (keepsRows_addCertificate hoffers) fun _ ↦ hread fun keyName ↦
      Meets.bind _ (keepsRows_setDefaultKey keyName) fun _ ↦
        hrefreshed (keepsRows_setDefaultCertificate _)
  | addCertificateAsSystemDefault certificate =>
    exact Meets.bind _ (keepsRows_addCertificate hoffers) fun _ ↦ hread fun keyName ↦
      Meets.bind _ (hidentity _) fun _ ↦ Meets.bind _ (keepsRows_setDefaultKey keyName) fun _ ↦
        hrefreshed (keepsRows_setDefaultCertificate _)
  | deleteCertificateInfo certName =>
    refine Meets.of_modify fun pib hpib ↦ ?_
    unfold SecPublicInfo.deleteCertificateInfo
    split_ifs
    · exact hpib
    · exact hpib.deleteWhere (fun row hrow ↦ hrow) fun row hrow ↦ (mem_deleteWhere.mp hrow).1
  | deletePublicKeyInfo keyName =>
    refine Meets.of_modify fun pib hpib ↦ ?_
    unfold SecPublicInfo.deletePublicKeyInfo
    split
    · exact hpib
    · exact hpib.deleteWhere (fun row hrow ↦ (mem_deleteWhere.mp hrow).1)
        fun row hrow ↦ (mem_deleteWhere.mp hrow).1
  | deleteIdentityInfo identityName =>
    exact Meets.of_modify fun pib hpib ↦ hpib.deleteWhere
      (fun row hrow ↦ (mem_deleteWhere.mp hrow).1) fun row hrow ↦ (mem_deleteWhere.mp hrow).1
  | refreshDefaultCertificate => exact keepsRows_refresh
  | getDefaultCertificateName =>
    exact Meets.bind _ (keeps_getDefaultCertificateName keepsRows_refresh) fun _ ↦
      Meets.of_pure fun pib hpib ↦ hpib

end Carries

/-! ## Calls that do not throw -/

/-- The calls of a key chain that read the default certificate again, with what they need in order not
to throw -/
def Event.Succeeds (pib : SecPublicInfo) : Event → Prop
  | .setDefaultIdentity _ | .refreshDefaultCertificate => True
  | .setDefaultKeyNameForIdentity keyName => pib.doesPublicKeyExist keyName = .ok true
  | .addCertificateAsIdentityDefault certificate =>
      (certificateColumns certificate.name).isSome = true ∧ certificate.isStorable = true
  | _ => False

theorem Event.Succeeds.refreshes {pib : SecPublicInfo} (hsucceeds : event.Succeeds pib) :
    event.refreshes = true := by
  cases event <;> first | rfl | exact hsucceeds.elim

theorem isSome_chain_iff {pib : SecPublicInfo} (hpib : pib.IsIntegral)
    (hnames : HasNames pib.registry) : pib.registry.chain.isSome = true ↔
      ∃ certificate, pib.storedDefaultCertificate = .ok certificate := by
  simp only [storedDefaultCertificate_eq_ok_iff hpib hnames, Option.isSome_iff_exists]
  constructor
  · rintro ⟨⟨columns, uri⟩, hchain⟩
    have hdefault := (DefaultRegistry.chain_eq_some_iff.mp hchain).2.2
    obtain ⟨row, hrow, hentry⟩ := hpib.registry_isClosed.defaultCertificate _ _ hdefault
    exact ⟨row.value, row, hrow, hchain.trans (congrArg some hentry.symm), rfl⟩
  · rintro ⟨certificate, row, -, hchain, -⟩
    exact ⟨_, hchain⟩

open Throwing

theorem ends_of_succeeds {pib : SecPublicInfo} (hpib : pib.IsIntegral)
    (hnames : HasNames pib.registry) (hreadable : event.IsReadable)
    (hsucceeds : event.Succeeds pib) :
    Ends (fun _ _ ↦ True) (fun _ _ ↦ False) (event.call.run pib) := by
  have hend {call : Call Unit}
      (hcall : Meets (Shows pib.registry) call (fun _ next ↦ IsCurrent next) fun _ _ ↦ False) :
      Ends (fun _ _ ↦ True) (fun _ _ ↦ False) (call.run pib) :=
    (hcall pib ⟨hpib, rfl⟩).weaken (fun _ _ _ ↦ trivial) fun _ _ h ↦ h
  cases event with
  | refreshDefaultCertificate => exact hend (meets_refresh hnames)
  | setDefaultIdentity identityName =>
    refine hend (Meets.bind (fun _ ↦ Shows (pib.registry.setDefaultIdentity identityName.toUri))
      (Meets.of_modify ?_) fun _ ↦ meets_refresh (hnames.onRegistry hreadable))
    rintro next ⟨hnext, hregistry⟩
    rw [← hregistry]
    exact ⟨hnext.setDefaultIdentityInternal identityName,
      hnext.registry_setDefaultIdentityInternal identityName⟩
  | setDefaultKeyNameForIdentity keyName =>
    obtain ⟨columns, hmem, hcolumns⟩ := ((hpib.answers hnames).doesPublicKeyExist _).mp hsucceeds
    have hchosen := hnames.chooseKey keyName
    simp only [Event.chooseKey, hcolumns] at hchosen
    exact hend (Meets.bind _ (meets_setDefaultKey hcolumns hmem) fun _ ↦ meets_refresh hchosen)
  | addCertificateAsIdentityDefault certificate =>
    obtain ⟨hkey, hstorable⟩ := hsucceeds
    obtain ⟨columns, hcolumns⟩ := Option.isSome_iff_exists.mp hkey
    have hkeyColumns := (keyColumns_publicKeyName certificate).trans hcolumns
    have hadded : HasNames (Event.addCertificateTo certificate pib.registry) :=
      hnames.addCertificateTo (hreadable _ List.mem_cons_self)
    have hchosen := (hadded.chooseKey certificate.publicKeyName).chooseCertificate certificate.name
    have hkeys : columns ∈ (Event.addCertificateTo certificate pib.registry).keys :=
      mem_keys_addCertificateTo hcolumns
    have hcertificates : (columns, certificate.name.toUri) ∈
        (Event.addCertificateTo certificate pib.registry).certificates := by
      simp only [Event.addCertificateTo, hcolumns, hstorable, if_true]
      exact Set.mem_insert _ _
    simp only [Event.chooseKey, Event.chooseCertificate, hkeyColumns, hcolumns] at hchosen
    refine hend (Meets.bind _ ((meets_addCertificate hcolumns).weaken (fun _ h ↦ h)
      (fun _ _ h ↦ h.2) fun _ _ h ↦ Event.not_stops_of_isStorable hstorable h.1) fun _ ↦
      Meets.bind _ (meets_certificateNameToPublicKeyName certificate) fun keyName ↦ ?_)
    rintro next ⟨hnext, rfl⟩
    refine Ends.bind _ (meets_setDefaultKey hkeyColumns hkeys next hnext) fun _ last hlast ↦ ?_
    refine Ends.bind _ (meets_setDefaultCertificate hcolumns ?_ last hlast) fun _ ↦
      meets_refresh hchosen
    rw [DefaultRegistry.setDefaultKey, if_pos hkeys]
    exact hcertificates
  | _ => exact hsucceeds.elim

/-! ## Backing -/

def keyUri (columns : String × String) : String :=
  (if columns.1 = "/" then "" else columns.1) ++ "/" ++ columns.2

theorem keyUri_append_singleton (identityName : Name) (keyId : Component) :
    keyUri (identityName.toUri, String.ofList keyId.toUri) = (identityName ++ [keyId]).toUri := by
  have hkey : (identityName ++ [keyId]).toUri = String.ofList
      (identityName.flatMap (fun component ↦ '/' :: component.toUri) ++ '/' :: keyId.toUri) := by
    rw [Name.toUri, if_neg (by simp), List.flatMap_append, List.flatMap_singleton]
  have hslash : ("/" : String) = String.ofList ['/'] := rfl
  rw [hkey, keyUri]
  cases identityName with
  | nil =>
    have hroot : Name.toUri [] = "/" := rfl
    rw [hroot, if_pos rfl, hslash, List.flatMap_nil, List.nil_append, String.empty_append,
      ← String.ofList_append]
    rfl
  | cons component identityName =>
    have huri : Name.toUri (component :: identityName) = String.ofList
        ((component :: identityName).flatMap fun component ↦ '/' :: component.toUri) := by
      rw [Name.toUri, if_neg (by simp)]
    have hlong : Name.toUri (component :: identityName) ≠ "/" := by
      rw [huri, hslash, ne_eq, String.ofList_inj, List.flatMap_cons]
      obtain ⟨hne, -⟩ := Component.toUri_spec component
      simp [hne]
    rw [if_neg hlong, huri, hslash, ← String.ofList_append, ← String.ofList_append,
      List.append_assoc]
    rfl

theorem keyUri_of_keyColumns (hcolumns : keyColumns keyName = some columns) :
    keyUri columns = keyName.toUri := by
  obtain ⟨keyId, hlast, rfl⟩ := Option.map_eq_some_iff.mp hcolumns
  rw [keyUri_append_singleton, append_get_last hlast]

/-- The PIB holds together, its names can be read back, and the TPM holds all of its keys. -/
structure IsBackedBy (tpm : SecTpm) (pib : SecPublicInfo) : Prop where
  isIntegral : pib.IsIntegral
  hasNames : HasNames pib.registry
  carries : Carries (fun columns publicKey ↦ tpm.Holds (keyUri columns) publicKey)
    (fun columns certificate ↦ tpm.Holds (keyUri columns) certificate.publicKeyInfo) pib

namespace IsBackedBy

variable {tpm : SecTpm} {pib : SecPublicInfo}

section

variable (hpib : IsBackedBy tpm pib)
include hpib

/-- A name with the URI of a key has its columns. -/
theorem keyColumns_of_keyUri_eq (hmem : columns ∈ pib.registry.keys)
    (huri : keyUri columns = keyName.toUri) : keyColumns keyName = some columns := by
  have hidentity := hpib.isIntegral.registry_isClosed.identity_of_key columns hmem
  obtain ⟨identityName, -, hidentityUri⟩ := hpib.hasNames.identities _ hidentity
  obtain ⟨keyId, -, hkeyUri⟩ := hpib.hasNames.keys _ hmem
  obtain rfl : columns = (identityName.toUri, String.ofList keyId.toUri) :=
    Prod.ext hidentityUri hkeyUri
  rw [keyUri_append_singleton] at huri
  rw [keyColumns_eq_of_map_toUri_eq (Name.map_toUri_eq_of_toUri_eq huri.symm),
    keyColumns_append_singleton]

/-- Files that no key of the PIB needs can be deleted. -/
theorem delete (hgone : ∀ columns ∈ pib.registry.keys, keyColumns keyName ≠ some columns) :
    IsBackedBy (tpm.deleteKeyPairInTpm keyName) pib := by
  have hkept {columns : String × String} {publicKey : PublicKeyInfo}
      (hmem : columns ∈ pib.registry.keys) (hholds : tpm.Holds (keyUri columns) publicKey) :
      (tpm.deleteKeyPairInTpm keyName).Holds (keyUri columns) publicKey :=
    SecTpm.holds_deleteKeyPairInTpm_iff.mpr
      ⟨fun huri ↦ hgone columns hmem (hpib.keyColumns_of_keyUri_eq hmem huri), hholds⟩
  refine ⟨hpib.isIntegral, hpib.hasNames, fun row hrow ↦ ?_, fun row hrow ↦ ?_⟩
  · exact hkept ⟨row, hrow, rfl⟩ (hpib.carries.keys row hrow)
  · exact hkept (hpib.isIntegral.key_of_certificate row hrow) (hpib.carries.certificates row hrow)

/-- The key that is read from the tables is the one in the key files. -/
theorem getPublicKey_eq_ok_iff :
    pib.getPublicKey keyName = .ok publicKey ↔
      ∃ columns ∈ pib.registry.keys, keyColumns keyName = some columns ∧
        tpm.Holds keyName.toUri publicKey := by
  unfold getPublicKey
  cases hcolumns : keyColumns keyName with
  | none => simp
  | some columns =>
    have huri := keyUri_of_keyColumns hcolumns
    dsimp only
    cases hrow : pib.keys.row? columns with
    | none =>
      refine iff_of_false (by simp) ?_
      rintro ⟨_, ⟨row, hmem, hkey⟩, hsame, -⟩
      exact row?_eq_none_iff.mp hrow row hmem (hkey.trans (Option.some.inj hsame).symm)
    | some row =>
      obtain ⟨hmem, hkey⟩ := row?_eq_some_iff.mp hrow
      have hholds := hpib.carries.keys row hmem
      rw [hkey, huri] at hholds
      constructor
      · intro hok
        obtain rfl := Except.ok.inj hok
        exact ⟨columns, ⟨row, hmem, hkey⟩, rfl, hholds⟩
      · rintro ⟨-, -, -, hother⟩
        exact congrArg _ (hholds.unique hother)

/-- The key in a stored certificate is the one in the key files. -/
theorem holds_of_certificate {row : Row (String × String) String Certificate}
    (hrow : row ∈ pib.certificates.rows) :
    tpm.Holds row.value.publicKeyName.toUri row.value.publicKeyInfo := by
  rw [← keyUri_of_keyColumns (hpib.isIntegral.name_of_certificate row hrow).2]
  exact hpib.carries.certificates row hrow

theorem grows {next : SecTpm} (hgrows : tpm.Grows next) : IsBackedBy next pib :=
  ⟨hpib.isIntegral, hpib.hasNames, fun row hrow ↦ hgrows _ _ (hpib.carries.keys row hrow),
    fun row hrow ↦ hgrows _ _ (hpib.carries.certificates row hrow)⟩

end

end IsBackedBy

/-- What a call adds is held by the TPM. -/
def Event.IsHeldBy (tpm : SecTpm) (event : Event) : Prop :=
  event.Offers (fun columns publicKey ↦ tpm.Holds (keyUri columns) publicKey)
    fun columns certificate ↦ tpm.Holds (keyUri columns) certificate.publicKeyInfo

open Throwing

/-- A public call keeps the backing, and it turns the registry as its event says. -/
theorem meets_call_backed {tpm : SecTpm} {registry : Registry} (hreadable : event.IsReadable)
    (hheld : event.IsHeldBy tpm) :
    Meets (fun pib ↦ IsBackedBy tpm pib ∧ pib.registry = registry) event.call
      (fun _ pib ↦ IsBackedBy tpm pib ∧ pib.registry = event.onRegistry registry)
      fun exception pib ↦ exception = .undefined ∨
        IsBackedBy tpm pib ∧ pib.registry = event.onRegistry registry := by
  rintro pib ⟨hpib, rfl⟩
  have hnames := hpib.hasNames.onRegistry hreadable
  have hboth := ((turns_call event).and (keepsRows_call hheld)) pib
    ⟨⟨hpib.isIntegral, rfl⟩, hpib.carries⟩
  have hbacked {next : SecPublicInfo} (hnext : Shows (event.onRegistry pib.registry) next)
      (hcarries : Carries (fun columns publicKey ↦ tpm.Holds (keyUri columns) publicKey)
        (fun columns certificate ↦ tpm.Holds (keyUri columns) certificate.publicKeyInfo) next) :
      IsBackedBy tpm next ∧ next.registry = event.onRegistry pib.registry :=
    ⟨⟨hnext.1, by rw [hnext.2]; exact hnames, hcarries⟩, hnext.2⟩
  cases hrun : event.call.run pib with
  | ok value next =>
    rw [hrun] at hboth
    exact hbacked hboth.1 hboth.2
  | error exception next =>
    rw [hrun] at hboth
    exact hboth.1.imp_right fun hnext ↦ hbacked hnext hboth.2

end SecPublicInfo

end NdnCxx
