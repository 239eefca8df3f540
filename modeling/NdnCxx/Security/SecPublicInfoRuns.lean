import NdnCxx.Security.SecPublicInfoTables

/-!
# Runs of the public information

A public function writes its tables in several statements and may throw between two of them. Over any
run of the public functions the tables hold together, and they are the registers of defaults after the
same calls.
-/

namespace NdnCxx

open MarkedTable

namespace SecPublicInfo

open Validation

variable {pib : SecPublicInfo}

/-! ## Public calls -/

/-- The public functions that write to the tables or to the default certificate -/
inductive Event
  | setTpmLocator (tpmLocator : String)
  | addIdentity (identityName : Name)
  | addKey (keyName : Name) (publicKey : PublicKeyInfo)
  | addCertificate (certificate : Certificate)
  | setDefaultIdentity (identityName : Name)
  | setDefaultKeyNameForIdentity (keyName : Name)
  | setDefaultCertificateNameForKey (certificateName : Name)
  | addCertificateAsKeyDefault (certificate : Certificate)
  | addCertificateAsIdentityDefault (certificate : Certificate)
  | addCertificateAsSystemDefault (certificate : Certificate)
  | deleteCertificateInfo (certName : Name)
  | deletePublicKeyInfo (keyName : Name)
  | deleteIdentityInfo (identityName : Name)
  | refreshDefaultCertificate
  | getDefaultCertificateName
  deriving DecidableEq

def Event.call : Event → Call Unit
  | .setTpmLocator tpmLocator => modify fun pib ↦ pib.setTpmLocator tpmLocator
  | .addIdentity identityName => modify fun pib ↦ pib.addIdentity identityName
  | .addKey keyName publicKey => modify fun pib ↦ pib.addKey keyName publicKey
  | .addCertificate certificate => SecPublicInfo.addCertificate certificate
  | .setDefaultIdentity identityName => SecPublicInfo.setDefaultIdentity identityName
  | .setDefaultKeyNameForIdentity keyName => SecPublicInfo.setDefaultKeyNameForIdentity keyName
  | .setDefaultCertificateNameForKey certificateName =>
      SecPublicInfo.setDefaultCertificateNameForKey certificateName
  | .addCertificateAsKeyDefault certificate =>
      SecPublicInfo.addCertificateAsKeyDefault certificate
  | .addCertificateAsIdentityDefault certificate =>
      SecPublicInfo.addCertificateAsIdentityDefault certificate
  | .addCertificateAsSystemDefault certificate =>
      SecPublicInfo.addCertificateAsSystemDefault certificate
  | .deleteCertificateInfo certName => modify fun pib ↦ pib.deleteCertificateInfo certName
  | .deletePublicKeyInfo keyName => modify fun pib ↦ pib.deletePublicKeyInfo keyName
  | .deleteIdentityInfo identityName => modify fun pib ↦ pib.deleteIdentityInfo identityName
  | .refreshDefaultCertificate => SecPublicInfo.refreshDefaultCertificate
  | .getDefaultCertificateName => do let _ ← SecPublicInfo.getDefaultCertificateName

/-- What a call leaves, whether or not it throws; `none` where the behaviour is undefined -/
def left {State Value : Type} : EStateM.Result Thrown State Value → Option State
  | .ok _ final => some final
  | .error .undefined _ => none
  | .error _ final => some final

def step (pib : SecPublicInfo) (event : Event) : Option SecPublicInfo := left (event.call.run pib)

/-! ## Calls on the registers -/

def certificateColumns (certificateName : Name) : Option (String × String) :=
  (certificateNameToPublicKeyName certificateName).toOption.bind keyColumns

namespace Event

/-- Adding a certificate adds its key; the certificate itself must name its signer and have a wire. -/
def addCertificateTo (certificate : Certificate) (registry : Registry) : Registry :=
  match certificateColumns certificate.name with
  | none => registry
  | some columns =>
      if certificate.isStorable then
        (registry.addKey columns).addCertificate columns certificate.name.toUri
      else registry.addKey columns

/-- A new certificate without a wire stops the call, after its key was added. -/
def Stops (certificate : Certificate) (registry : Registry) : Prop :=
  certificate.fault.isSome = true ∧ ∀ columns,
    certificateColumns certificate.name = some columns →
      (columns, certificate.name.toUri) ∉ registry.certificates

open Classical in
/-- What follows the addition of a certificate, unless the call stops there -/
noncomputable def addThen (certificate : Certificate) (rest : Registry → Registry)
    (registry : Registry) : Registry :=
  if Stops certificate registry then addCertificateTo certificate registry
  else rest (addCertificateTo certificate registry)

/-- The choice of a default key -/
noncomputable def chooseKey (keyName : Name) (registry : Registry) : Registry :=
  match keyColumns keyName with
  | none => registry
  | some columns => registry.setDefaultKey columns

/-- The choice of a default certificate -/
noncomputable def chooseCertificate (certificateName : Name) (registry : Registry) : Registry :=
  match certificateColumns certificateName with
  | none => registry
  | some columns => registry.setDefaultCertificate columns certificateName.toUri

/-- What an event does to the registers, whether or not its call throws -/
noncomputable def onRegistry : Event → Registry → Registry
  | .setTpmLocator tpmLocator => fun registry ↦ registry.setHolder tpmLocator
  | .addIdentity identityName => fun registry ↦ registry.addIdentity identityName.toUri
  | .addKey keyName _ => fun registry ↦
      match keyColumns keyName with
      | none => registry
      | some columns => registry.addKey columns
  | .addCertificate certificate => addCertificateTo certificate
  | .setDefaultIdentity identityName => fun registry ↦
      registry.setDefaultIdentity identityName.toUri
  | .setDefaultKeyNameForIdentity keyName => chooseKey keyName
  | .setDefaultCertificateNameForKey certificateName => chooseCertificate certificateName
  | .addCertificateAsKeyDefault certificate =>
      addThen certificate (chooseCertificate certificate.name)
  | .addCertificateAsIdentityDefault certificate =>
      addThen certificate (chooseCertificate certificate.name ∘ chooseKey certificate.publicKeyName)
  | .addCertificateAsSystemDefault certificate =>
      addThen certificate (chooseCertificate certificate.name ∘ chooseKey certificate.publicKeyName ∘
        fun registry ↦ registry.setDefaultIdentity (certificate.publicKeyName.getPrefix (-1)).toUri)
  | .deleteCertificateInfo certName => fun registry ↦
      if certName = [] then registry else registry.deleteCertificate certName.toUri
  | .deletePublicKeyInfo keyName => fun registry ↦
      match keyColumns keyName with
      | none => registry
      | some columns => registry.deleteKey columns
  | .deleteIdentityInfo identityName => fun registry ↦
      registry.deleteIdentity identityName.toUri
  | .refreshDefaultCertificate => id
  | .getDefaultCertificateName => id

end Event

/-- The tables hold together and stand for a registry. -/
def Shows (shown : Registry) (pib : SecPublicInfo) : Prop := pib.IsIntegral ∧ pib.registry = shown

variable {Value : Type} {events : List Event}

section Calls

open Throwing

variable {registry : Registry}

theorem keyColumns_publicKeyName (certificate : Certificate) :
    keyColumns certificate.publicKeyName = certificateColumns certificate.name := by
  rw [certificateColumns, certificate.certificateNameToPublicKeyName_eq_ok]
  rfl

theorem meets_certificateNameToPublicKeyName {State : Type} {pre : State → Prop}
    {fail : Thrown → State → Prop} (certificate : Certificate) :
    Meets pre (reads fun _ ↦ (certificateNameToPublicKeyName certificate.name).mapError Thrown.error)
      (fun keyName state ↦ pre state ∧ keyName = certificate.publicKeyName) fail := by
  rw [certificate.certificateNameToPublicKeyName_eq_ok]
  refine Meets.of_reads (fun state value hpre hread ↦ ⟨hpre, ?_⟩) fun state exception _ hread ↦ ?_
  · exact (Except.ok.inj hread).symm
  · cases hread

variable {certificate : Certificate} {columns : String × String}

theorem Event.not_stops_of_isStorable (hstorable : certificate.isStorable = true) :
    ¬ Event.Stops certificate registry := by
  rw [Certificate.isStorable, Bool.and_eq_true, Option.isNone_iff_eq_none] at hstorable
  rintro ⟨hfault, -⟩
  obtain ⟨error, hfault⟩ := Option.isSome_iff_exists.mp hfault
  obtain ⟨signerName, -, hwire⟩ := Option.bind_eq_some_iff.mp hfault
  rw [hstorable.2] at hwire
  cases hwire

theorem registry_insertCertificate_of_fault (hfault : certificate.fault = none)
    (hnew : pib.doesCertificateExist certificate.name = false) :
    (pib.insertCertificate certificate columns).registry =
      if certificate.isStorable then pib.registry.addCertificate columns certificate.name.toUri
      else pib.registry := by
  cases hsigner : certificate.signerName with
  | none => simp [insertCertificate, Certificate.isStorable, hsigner]
  | some signerName =>
    have hwire : certificate.wireError = none := by simpa [Certificate.fault, hsigner] using hfault
    rw [registry_insertCertificate (by simp [hsigner]) hnew]
    simp [Certificate.isStorable, hsigner, hwire]

section Added

variable (hcolumns : certificateColumns certificate.name = some columns)
include hcolumns

theorem Event.stops_iff : Event.Stops certificate registry ↔ certificate.fault.isSome = true ∧
    (columns, certificate.name.toUri) ∉ (registry.addKey columns).certificates := by
  simp only [Event.Stops, hcolumns, Option.some.injEq, forall_eq']
  rfl

section

variable (hshows : Shows (registry.addKey columns) pib)
include hshows

/-- A certificate of this URI is already there, for the same key. -/
theorem Shows.addCertificate_of_exists
    (hexists : pib.doesCertificateExist certificate.name = true) :
    ¬ Event.Stops certificate registry ∧
      Shows (Event.addCertificateTo certificate registry) pib := by
  obtain ⟨hpib, hregistry⟩ := hshows
  obtain ⟨row, hrow, howner, huri⟩ := hpib.mem_certificates_of_exists
    certificate.certificateNameToPublicKeyName_eq_ok
    ((keyColumns_publicKeyName certificate).trans hcolumns) hexists
  have hmem : (columns, certificate.name.toUri) ∈ (registry.addKey columns).certificates := by
    rw [← hregistry]
    exact ⟨row, hrow, Prod.ext howner huri⟩
  refine ⟨fun hstop ↦ ((Event.stops_iff hcolumns).mp hstop).2 hmem, hpib, ?_⟩
  simp only [Event.addCertificateTo, hcolumns]
  split_ifs
  · rw [hregistry, DefaultRegistry.addCertificate, Set.insert_eq_of_mem hmem]
  · exact hregistry

/-- A new certificate is inserted where it throws nothing. -/
theorem Shows.insertCertificate (hmem : ∃ row ∈ pib.keys.rows, row.key = columns)
    (hnew : pib.doesCertificateExist certificate.name = false) (hfault : certificate.fault = none) :
    ¬ Event.Stops certificate registry ∧
      Shows (Event.addCertificateTo certificate registry)
        (pib.insertCertificate certificate columns) := by
  obtain ⟨hpib, hregistry⟩ := hshows
  have hkey := (keyColumns_publicKeyName certificate).trans hcolumns
  refine ⟨by rw [Event.stops_iff hcolumns, hfault]; simp,
    hpib.insertCertificate hkey hmem hnew, ?_⟩
  simp only [Event.addCertificateTo, hcolumns]
  rw [registry_insertCertificate_of_fault hfault hnew, hregistry]

/-- What a new certificate throws leaves the key, and no certificate. -/
theorem Shows.addCertificate_of_fault (hnew : pib.doesCertificateExist certificate.name = false)
    {error : Error} (hfault : certificate.fault = some error) :
    Event.Stops certificate registry ∧ Shows (Event.addCertificateTo certificate registry) pib := by
  obtain ⟨hpib, hregistry⟩ := hshows
  have hnone : certificate.isStorable = false := by
    obtain ⟨signerName, -, hwire⟩ := Option.bind_eq_some_iff.mp hfault
    simp [Certificate.isStorable, hwire]
  refine ⟨(Event.stops_iff hcolumns).mpr ⟨by rw [hfault]; rfl, ?_⟩, hpib, ?_⟩
  · rw [← hregistry]
    rintro ⟨row, hrow, hentry⟩
    have hsome : pib.doesCertificateExist certificate.name = true :=
      isSome_row?_iff.mpr ⟨row, hrow, congrArg Prod.snd hentry⟩
    rw [hnew] at hsome
    cases hsome
  · simp only [Event.addCertificateTo, hcolumns, hnone]
    exact hregistry

end

/-- A certificate whose key has a name is added behind its key, and what it throws is thrown behind
its key as well. -/
theorem meets_addCertificate :
    Meets (Shows registry) (addCertificate certificate)
      (fun _ pib ↦ ¬ Event.Stops certificate registry ∧
        Shows (Event.addCertificateTo certificate registry) pib)
      fun _ pib ↦ Event.Stops certificate registry ∧
        Shows (Event.addCertificateTo certificate registry) pib := by
  have hkey := (keyColumns_publicKeyName certificate).trans hcolumns
  unfold addCertificate
  refine Meets.bind _ (meets_certificateNameToPublicKeyName certificate) fun keyName ↦ ?_
  refine Meets.bind (fun _ pib ↦ Shows (registry.addKey columns) pib ∧
    (∃ row ∈ pib.keys.rows, row.key = columns) ∧ keyName = certificate.publicKeyName)
    (Meets.of_modify ?_) fun _ ↦ ?_
  · rintro pib ⟨⟨hpib, rfl⟩, rfl⟩
    have hregistry := hpib.registry_addKey hkey certificate.publicKeyInfo
    have hmem : columns ∈ (pib.registry.addKey columns).keys := Set.mem_insert _ _
    rw [← hregistry] at hmem
    exact ⟨⟨hpib.addKey _ _, hregistry⟩, hmem, rfl⟩
  refine Meets.bind (fun found pib ↦ found = pib ∧ Shows (registry.addKey columns) pib ∧
    (∃ row ∈ pib.keys.rows, row.key = columns) ∧ keyName = certificate.publicKeyName)
    (Meets.of_get fun pib hpib ↦ ⟨rfl, hpib⟩) fun found ↦ Meets.ite (fun hexists ↦ ?_) fun hnew ↦ ?_
  · refine Meets.of_pure ?_
    rintro pib ⟨rfl, hshows, -, -⟩
    exact hshows.addCertificate_of_exists hcolumns hexists
  · rintro pib ⟨rfl, hshows, hmem, rfl⟩
    rw [Bool.not_eq_true] at hnew
    rw [hkey]
    cases hfault : certificate.fault with
    | none => exact hshows.insertCertificate hcolumns hmem hnew hfault
    | some error => exact hshows.addCertificate_of_fault hcolumns hnew hfault

end Added

/-- Without a key to add, nothing is added and the last component of nothing is read. -/
theorem meets_addCertificate_of_none (hcolumns : certificateColumns certificate.name = none) :
    Meets IsIntegral (addCertificate certificate) (fun _ _ ↦ False)
      fun exception _ ↦ exception = .undefined := by
  have hkey := (keyColumns_publicKeyName certificate).trans hcolumns
  unfold addCertificate
  refine Meets.bind _ (meets_certificateNameToPublicKeyName certificate) fun keyName ↦ ?_
  refine Meets.bind (fun _ pib ↦ pib.IsIntegral ∧ keyName = certificate.publicKeyName)
    (Meets.of_modify fun pib hpib ↦ ⟨hpib.1.addKey _ _, hpib.2⟩) fun _ ↦ ?_
  refine Meets.bind (fun found pib ↦ found = pib ∧ pib.IsIntegral ∧ keyName = certificate.publicKeyName)
    (Meets.of_get fun pib hpib ↦ ⟨rfl, hpib⟩) fun found ↦ Meets.ite (fun hexists ↦ ?_) fun _ ↦ ?_
  · refine Meets.of_pure ?_
    rintro pib ⟨rfl, hpib, -⟩
    obtain ⟨row, hrow, hname⟩ := isSome_row?_iff.mp hexists
    obtain ⟨huri, howner⟩ := hpib.name_of_certificate row hrow
    obtain ⟨otherKey, hother, hsame⟩ := keyColumns_certificate (hname.symm.trans huri.symm)
      certificate.certificateNameToPublicKeyName_eq_ok
    rw [row.value.certificateNameToPublicKeyName_eq_ok] at hother
    obtain rfl := Except.ok.inj hother
    rw [howner, hkey] at hsame
    cases hsame
  · rintro pib ⟨-, -, rfl⟩
    rw [hkey]
    rfl

/-- A key that is there becomes the default. -/
theorem meets_setDefaultKey {keyName : Name} (hcolumns : keyColumns keyName = some columns)
    (hmem : columns ∈ registry.keys) :
    Meets (Shows registry) (setDefaultKeyNameForIdentityInternal keyName)
      (fun _ ↦ Shows (registry.setDefaultKey columns)) fun _ _ ↦ False := by
  rintro pib ⟨hpib, rfl⟩
  have hexists : (pib.keys.row? columns).isSome = true := isSome_row?_iff.mpr hmem
  have hread : pib.doesPublicKeyExist keyName = .ok true := by
    rw [doesPublicKeyExist, hcolumns, ← hexists]
  unfold setDefaultKeyNameForIdentityInternal
  rw [EStateM.run_bind, run_reads, hread, hcolumns]
  exact ⟨hpib.markKey columns, hpib.registry_markKey hmem⟩

/-- Whether or not the key is there -/
theorem meets_chooseKey (keyName : Name) :
    Meets (Shows registry) (setDefaultKeyNameForIdentityInternal keyName)
      (fun _ ↦ Shows (Event.chooseKey keyName registry))
      fun _ ↦ Shows (Event.chooseKey keyName registry) := by
  cases hcolumns : keyColumns keyName with
  | none =>
    intro pib hpib
    have hread : pib.doesPublicKeyExist keyName =
        .error (.publicInfo ("Incorrect key name " ++ keyName.toUri)) := by
      rw [doesPublicKeyExist, hcolumns]
    unfold setDefaultKeyNameForIdentityInternal
    rw [EStateM.run_bind, run_reads, hread, Event.chooseKey, hcolumns]
    exact hpib
  | some columns =>
    simp only [Event.chooseKey, hcolumns]
    by_cases hmem : columns ∈ registry.keys
    · exact (meets_setDefaultKey hcolumns hmem).weaken (fun _ h ↦ h) (fun _ _ h ↦ h)
        fun _ _ h ↦ h.elim
    · rintro pib ⟨hpib, rfl⟩
      have hnone : (pib.keys.row? columns).isSome = false := by
        rw [Bool.eq_false_iff]
        exact fun hsome ↦ hmem (isSome_row?_iff.mp hsome)
      have hread : pib.doesPublicKeyExist keyName = .ok false := by
        rw [doesPublicKeyExist, hcolumns, ← hnone]
      unfold setDefaultKeyNameForIdentityInternal
      rw [EStateM.run_bind, run_reads, hread, hcolumns, DefaultRegistry.setDefaultKey, if_neg hmem]
      exact ⟨hpib, rfl⟩

/-- A certificate that is there becomes the default. -/
theorem meets_setDefaultCertificate {certificateName : Name}
    (hcolumns : certificateColumns certificateName = some columns)
    (hmem : (columns, certificateName.toUri) ∈ registry.certificates) :
    Meets (Shows registry) (setDefaultCertificateNameForKeyInternal certificateName)
      (fun _ ↦ Shows (registry.setDefaultCertificate columns certificateName.toUri))
      fun _ _ ↦ False := by
  rintro pib ⟨hpib, rfl⟩
  obtain ⟨row, hrow, hentry⟩ := hmem
  obtain ⟨howner, hname⟩ := Prod.mk.inj hentry
  have hexists : pib.doesCertificateExist certificateName = true :=
    isSome_row?_iff.mpr ⟨row, hrow, hname⟩
  obtain ⟨keyName, hread, hkey⟩ := Option.bind_eq_some_iff.mp hcolumns
  have hok : certificateNameToPublicKeyName certificateName = .ok keyName := by
    cases hresult : certificateNameToPublicKeyName certificateName with
    | ok found =>
      rw [hresult] at hread
      cases hread
      rfl
    | error error =>
      rw [hresult] at hread
      cases hread
  unfold setDefaultCertificateNameForKeyInternal
  rw [EStateM.run_bind, EStateM.run_get]
  dsimp only
  rw [hexists, if_neg (by simp), EStateM.run_bind, run_reads, hok]
  simp only [Except.mapError, hkey]
  exact ⟨hpib.markCertificate _ _, hpib.registry_markCertificate ⟨row, hrow, howner, hname⟩⟩

/-- Whether or not the certificate is there -/
theorem meets_chooseCertificate (certificateName : Name) :
    Meets (Shows registry) (setDefaultCertificateNameForKeyInternal certificateName)
      (fun _ ↦ Shows (Event.chooseCertificate certificateName registry))
      fun _ ↦ Shows (Event.chooseCertificate certificateName registry) := by
  rintro pib ⟨hpib, rfl⟩
  cases hexists : pib.doesCertificateExist certificateName with
  | false =>
    have hsame : Event.chooseCertificate certificateName pib.registry = pib.registry := by
      unfold Event.chooseCertificate
      split
      · rfl
      · rename_i columns _
        rw [DefaultRegistry.setDefaultCertificate, if_neg]
        rintro ⟨row, hrow, hentry⟩
        have hsome : pib.doesCertificateExist certificateName = true :=
          isSome_row?_iff.mpr ⟨row, hrow, congrArg Prod.snd hentry⟩
        rw [hexists] at hsome
        cases hsome
    unfold setDefaultCertificateNameForKeyInternal
    rw [EStateM.run_bind, EStateM.run_get, hsame]
    dsimp only
    rw [hexists]
    exact ⟨hpib, rfl⟩
  | true =>
    obtain ⟨row, hrow, hname⟩ := isSome_row?_iff.mp hexists
    obtain ⟨huri, howner⟩ := hpib.name_of_certificate row hrow
    obtain ⟨keyName, hkey, hsame⟩ := keyColumns_certificate (huri.trans hname)
      row.value.certificateNameToPublicKeyName_eq_ok
    rw [howner] at hsame
    have hcolumns : certificateColumns certificateName = some row.owner := by
      rw [certificateColumns, hkey]
      exact hsame
    have hmem : (row.owner, certificateName.toUri) ∈ pib.registry.certificates :=
      ⟨row, hrow, Prod.ext rfl hname⟩
    have hset := meets_setDefaultCertificate hcolumns hmem pib ⟨hpib, rfl⟩
    simp only [Event.chooseCertificate, hcolumns]
    exact hset.weaken (fun _ _ h ↦ h) fun _ _ h ↦ h.elim

/-- The member for the default certificate is not part of the tables. -/
theorem meets_refreshDefaultCertificate :
    Meets (Shows registry) refreshDefaultCertificate (fun _ ↦ Shows registry)
      fun _ ↦ Shows registry := by
  intro pib hpib
  have hcached (certificate : Option Certificate) :
      Shows registry { pib with defaultCertificate := certificate } :=
    ⟨⟨hpib.1.identities, hpib.1.keys, hpib.1.certificates, hpib.1.owner_of_key,
      hpib.1.identity_of_key, hpib.1.key_of_certificate, hpib.1.name_of_certificate⟩, hpib.2⟩
  unfold refreshDefaultCertificate
  rw [EStateM.run_bind, EStateM.run_get]
  dsimp only
  cases hstored : pib.storedDefaultCertificate with
  | ok certificate => exact hcached (some certificate)
  | error exception =>
    cases exception with
    | publicInfo what => exact hcached none
    | tpm what => exact hpib
    | keyChain what => exact hpib
    | error error => exact hpib
    | other what => exact hpib
    | undefined => exact hpib

/-- A call that brings the tables from one registry to another one, whether or not it throws; nothing
is said of an undefined call. -/
def Turns {Value : Type} (call : Call Value) (before after : Registry) : Prop :=
  Meets (Shows before) call (fun _ ↦ Shows after) fun exception pib ↦
    exception = .undefined ∨ Shows after pib

theorem Turns.of_meets {call : Call Value} {before after : Registry}
    (hcall : Meets (Shows before) call (fun _ ↦ Shows after) fun _ ↦ Shows after) :
    Turns call before after :=
  hcall.weaken (fun _ h ↦ h) (fun _ _ h ↦ h) fun _ _ h ↦ .inr h

/-- Going on after a call that does not throw -/
theorem Turns.after {Other : Type} {call : Call Value} {next : Value → Call Other}
    {before middle after : Registry}
    (hcall : Meets (Shows before) call (fun _ ↦ Shows middle) fun _ _ ↦ False)
    (hnext : ∀ value, Turns (next value) middle after) : Turns (call >>= next) before after :=
  Meets.bind _ (hcall.weaken (fun _ h ↦ h) (fun _ _ h ↦ h) fun _ _ h ↦ h.elim) hnext

/-- Choosing a default, then reading the default certificate again -/
theorem Turns.refreshed {call : Call Value} {before after : Registry}
    (hcall : Meets (Shows before) call (fun _ ↦ Shows after) fun _ ↦ Shows after) :
    Turns (call >>= fun _ ↦ refreshDefaultCertificate) before after :=
  Meets.bind _ (hcall.weaken (fun _ h ↦ h) (fun _ _ h ↦ h) fun _ _ h ↦ .inr h)
    fun _ ↦ Turns.of_meets meets_refreshDefaultCertificate

theorem Turns.of_undefined {Other : Type} {call : Call Value} {next : Value → Call Other}
    {before after : Registry}
    (hcall : Meets IsIntegral call (fun _ _ ↦ False) fun exception _ ↦ exception = .undefined) :
    Turns (call >>= next) before after :=
  Meets.bind (fun _ _ ↦ False) (hcall.weaken (fun _ h ↦ h.1) (fun _ _ h ↦ h) fun _ _ h ↦ .inl h)
    fun _ _ h ↦ h.elim

/-- The key is there once its certificate was added. -/
theorem mem_keys_addCertificateTo (hcolumns : certificateColumns certificate.name = some columns) :
    columns ∈ (Event.addCertificateTo certificate registry).keys := by
  have hmem : columns ∈ (registry.addKey columns).keys := Set.mem_insert _ _
  simp only [Event.addCertificateTo, hcolumns]
  split_ifs
  · exact hmem
  · exact hmem

/-- What follows the addition of a certificate starts behind it, and a call that stops there leaves
what the addition left. -/
theorem Turns.addCertificate_then {rest : Unit → Call Unit} {change : Registry → Registry}
    (hrest : ∀ columns, certificateColumns certificate.name = some columns →
      Turns (rest ()) (Event.addCertificateTo certificate registry)
      (change (Event.addCertificateTo certificate registry))) :
    Turns (SecPublicInfo.addCertificate certificate >>= rest) registry
      (Event.addThen certificate change registry) := by
  cases hcolumns : certificateColumns certificate.name with
  | none => exact Turns.of_undefined (meets_addCertificate_of_none hcolumns)
  | some columns =>
    unfold Event.addThen
    split_ifs with hstops
    · exact Meets.bind (fun _ _ ↦ False) ((meets_addCertificate hcolumns).weaken (fun _ h ↦ h)
        (fun _ _ h ↦ h.1 hstops) fun _ _ h ↦ .inr h.2) fun _ _ h ↦ h.elim
    · exact Meets.bind _ ((meets_addCertificate hcolumns).weaken (fun _ h ↦ h) (fun _ _ h ↦ h.2)
        fun _ _ h ↦ absurd h.1 hstops) fun _ ↦ hrest columns hcolumns

theorem turns_addCertificateAsKeyDefault (certificate : Certificate) :
    Turns (SecPublicInfo.addCertificateAsKeyDefault certificate) registry
      (Event.onRegistry (.addCertificateAsKeyDefault certificate) registry) :=
  .addCertificate_then fun _ _ ↦ Turns.refreshed (meets_chooseCertificate certificate.name)

/-- The key of the certificate becomes the default of its identity. -/
theorem turns_chooseChain (hcolumns : certificateColumns certificate.name = some columns)
    (hmem : columns ∈ registry.keys) :
    Turns (do
        setDefaultKeyNameForIdentityInternal certificate.publicKeyName
        setDefaultCertificateNameForKeyInternal certificate.name
        refreshDefaultCertificate) registry
      (Event.chooseCertificate certificate.name
        (Event.chooseKey certificate.publicKeyName registry)) := by
  have hkey := (keyColumns_publicKeyName certificate).trans hcolumns
  simp only [Event.chooseKey, hkey]
  exact Turns.after (meets_setDefaultKey hkey hmem) fun _ ↦
    Turns.refreshed (meets_chooseCertificate certificate.name)

theorem turns_addCertificateAsIdentityDefault (certificate : Certificate) :
    Turns (SecPublicInfo.addCertificateAsIdentityDefault certificate) registry
      (Event.onRegistry (.addCertificateAsIdentityDefault certificate) registry) := by
  refine .addCertificate_then fun columns hcolumns ↦ ?_
  refine Meets.bind _ (meets_certificateNameToPublicKeyName certificate) fun keyName ↦ ?_
  rintro pib ⟨hpib, rfl⟩
  exact turns_chooseChain hcolumns (mem_keys_addCertificateTo hcolumns) pib hpib

theorem turns_addCertificateAsSystemDefault (certificate : Certificate) :
    Turns (SecPublicInfo.addCertificateAsSystemDefault certificate) registry
      (Event.onRegistry (.addCertificateAsSystemDefault certificate) registry) := by
  refine .addCertificate_then fun columns hcolumns ↦ ?_
  refine Meets.bind _ (meets_certificateNameToPublicKeyName certificate) fun keyName ↦ ?_
  rintro pib ⟨⟨hpib, hregistry⟩, rfl⟩
  rw [EStateM.run_bind, EStateM.run_modify]
  refine turns_chooseChain hcolumns ?_ _ ⟨hpib.setDefaultIdentityInternal _,
    (hpib.registry_setDefaultIdentityInternal _).trans
      (congrArg (fun registry ↦ DefaultRegistry.setDefaultIdentity registry _) hregistry)⟩
  exact mem_keys_addCertificateTo hcolumns

/-- Asking for the default certificate keeps what reading it again keeps. -/
theorem keeps_getDefaultCertificateName {invariant : SecPublicInfo → Prop}
    (hrefresh : Keeps invariant SecPublicInfo.refreshDefaultCertificate) :
    Keeps invariant SecPublicInfo.getDefaultCertificateName := by
  refine Meets.bind (fun _ ↦ invariant) (Meets.of_get fun pib hpib ↦ hpib) fun found ↦ ?_
  suffices hrest : Keeps invariant _ from
    Meets.ite (fun _ ↦ Meets.bind _ hrefresh fun _ ↦ hrest) fun _ ↦ hrest
  intro pib hpib
  rw [EStateM.run_bind, EStateM.run_get]
  dsimp only
  cases pib.defaultCertificate <;> exact hpib

/-- Each public call turns the registry as its event says. -/
theorem turns_call (event : Event) : Turns event.call registry (event.onRegistry registry) := by
  have hchange {change : SecPublicInfo → SecPublicInfo} {after : Registry}
      (hmeets : ∀ pib, IsIntegral pib → pib.registry = registry →
        (change pib).IsIntegral ∧ (change pib).registry = after) :
      Turns (modify change) registry after :=
    Meets.of_modify fun pib hpib ↦ hmeets pib hpib.1 hpib.2
  cases event with
  | setTpmLocator tpmLocator =>
    exact hchange fun pib hpib hshown ↦
      ⟨hpib.setTpmLocator tpmLocator, hshown ▸ registry_setTpmLocator pib tpmLocator⟩
  | addIdentity identityName =>
    exact hchange fun pib hpib hshown ↦
      ⟨hpib.addIdentity identityName, hshown ▸ registry_addIdentity pib identityName⟩
  | addKey keyName publicKey =>
    refine hchange fun pib hpib hshown ↦ ⟨hpib.addKey keyName publicKey, ?_⟩
    subst hshown
    cases hcolumns : keyColumns keyName with
    | none => simp only [Event.onRegistry, addKey, hcolumns]
    | some columns =>
      simp only [Event.onRegistry, hcolumns]
      exact hpib.registry_addKey hcolumns publicKey
  | addCertificate certificate =>
    cases hcolumns : certificateColumns certificate.name with
    | none =>
      exact (meets_addCertificate_of_none hcolumns).weaken (fun _ h ↦ h.1) (fun _ _ h ↦ h.elim)
        fun _ _ h ↦ .inl h
    | some columns =>
      exact (meets_addCertificate hcolumns).weaken (fun _ h ↦ h) (fun _ _ h ↦ h.2)
        fun _ _ h ↦ .inr h.2
  | setDefaultIdentity identityName =>
    refine Turns.refreshed (Meets.of_modify fun pib hpib ↦ ?_)
    exact ⟨hpib.1.setDefaultIdentityInternal identityName,
      hpib.2 ▸ hpib.1.registry_setDefaultIdentityInternal identityName⟩
  | setDefaultKeyNameForIdentity keyName => exact Turns.refreshed (meets_chooseKey keyName)
  | setDefaultCertificateNameForKey certificateName =>
    exact Turns.refreshed (meets_chooseCertificate certificateName)
  | addCertificateAsKeyDefault certificate => exact turns_addCertificateAsKeyDefault certificate
  | addCertificateAsIdentityDefault certificate =>
    exact turns_addCertificateAsIdentityDefault certificate
  | addCertificateAsSystemDefault certificate =>
    exact turns_addCertificateAsSystemDefault certificate
  | deleteCertificateInfo certName =>
    refine hchange fun pib hpib hshown ↦ ⟨hpib.deleteCertificateInfo certName, ?_⟩
    subst hshown
    simp only [Event.onRegistry]
    split_ifs with hname
    · subst hname
      rfl
    · exact hpib.registry_deleteCertificateInfo hname
  | deletePublicKeyInfo keyName =>
    refine hchange fun pib hpib hshown ↦ ⟨hpib.deletePublicKeyInfo keyName, ?_⟩
    subst hshown
    cases hcolumns : keyColumns keyName with
    | none => simp only [Event.onRegistry, deletePublicKeyInfo, hcolumns]
    | some columns =>
      simp only [Event.onRegistry, hcolumns]
      exact hpib.registry_deletePublicKeyInfo hcolumns
  | deleteIdentityInfo identityName =>
    exact hchange fun pib hpib hshown ↦
      ⟨hpib.deleteIdentityInfo identityName, hshown ▸ hpib.registry_deleteIdentityInfo identityName⟩
  | refreshDefaultCertificate => exact Turns.of_meets meets_refreshDefaultCertificate
  | getDefaultCertificateName =>
    refine Meets.bind (fun _ ↦ Shows registry) (Turns.of_meets ?_) fun _ ↦
      Meets.of_pure fun pib hpib ↦ hpib
    exact keeps_getDefaultCertificateName meets_refreshDefaultCertificate

end Calls

/-! ## Runs -/

theorem of_left {State : Type} {result : EStateM.Result Thrown State Value} {next : State}
    {Property : State → Prop} (hresult : Throwing.Ends (fun _ ↦ Property)
      (fun exception final ↦ exception = .undefined ∨ Property final) result)
    (hleft : left result = some next) : Property next := by
  cases result with
  | ok value final => exact Option.some.inj hleft ▸ hresult
  | error exception final =>
    rcases hresult with rfl | hfinal
    · cases hleft
    · have hsame : final = next := by
        cases exception <;> simp_all [left]
      exact hsame ▸ hfinal

/-- One call keeps the tables together and turns the registers, whether or not it throws. -/
theorem step_spec {next : SecPublicInfo} {event : Event} (hpib : pib.IsIntegral)
    (hstep : step pib event = some next) :
    next.IsIntegral ∧ next.registry = event.onRegistry pib.registry := by
  have hnext : Shows (event.onRegistry pib.registry) next :=
    of_left (turns_call event pib ⟨hpib, rfl⟩) hstep
  exact hnext

/-- Over a run the tables are the registers after the same events. -/
theorem run_spec {start finish : SecPublicInfo} (hstart : start.IsIntegral)
    (hrun : Run.run step start events = some finish) :
    finish.IsIntegral ∧
      finish.registry = events.foldl (fun registry event ↦ event.onRegistry registry)
        start.registry :=
  Run.invariant_of_run (fun past pib ↦ pib.IsIntegral ∧
    pib.registry = past.foldl (fun registry event ↦ event.onRegistry registry) start.registry)
    (fun past pib event next hinv hstep ↦ by
      have hnext := step_spec hinv.1 hstep
      rw [hinv.2] at hnext
      rw [List.foldl_append]
      exact hnext) ⟨hstart, rfl⟩ hrun

/-- Whatever the public functions do, and wherever they throw, no owner gets two defaults, and what the
tables refer to is there. -/
theorem integrity_of_run {start finish : SecPublicInfo} (hstart : start.IsIntegral)
    (hrun : Run.run step start events = some finish) :
    finish.IsIntegral ∧ finish.registry.IsClosed :=
  have hfinish := (run_spec hstart hrun).1
  ⟨hfinish, hfinish.registry_isClosed⟩

/-- A certificate of the key `/a/k1` that it has signed -/
def signedCertificate : Certificate where
  name := [.generic [0x61], KeyChain.keyComponent, .generic [0x6b, 0x31], KeyChain.idCertComponent,
    .fromVersion 1]
  publicKeyName := [.generic [0x61], .generic [0x6b, 0x31]]
  publicKeyInfo := ⟨.rsa, [1]⟩
  signerName := some [.generic [0x61], KeyChain.keyComponent, .generic [0x6b, 0x31],
    KeyChain.idCertComponent]
  wireError := none
  named := by decide

/-- A certificate of the key `/a/k2` with a key locator, on which no type of signature was set -/
def unsignedCertificate : Certificate where
  name := [.generic [0x61], KeyChain.keyComponent, .generic [0x6b, 0x32], KeyChain.idCertComponent,
    .fromVersion 1]
  publicKeyName := [.generic [0x61], .generic [0x6b, 0x32]]
  publicKeyInfo := ⟨.ecdsa, [2]⟩
  signerName := signedCertificate.signerName
  wireError := some ⟨.tlv, "Requested wire format, but data packet has not been signed yet"⟩
  named := by decide

/-- The second call throws behind its key, in front of the choice of a default. -/
def adding : List Event :=
  [.addCertificateAsSystemDefault signedCertificate, .addCertificateAsKeyDefault unsignedCertificate]

def added : SecPublicInfo := (Run.run step initial adding).get (by decide +kernel)

theorem run_adding : Run.run step initial adding = some added := (Option.some_get _).symm

theorem integrity_of_run_added :
    (added.keys.rows.map Row.key = [("/a", "k1"), ("/a", "k2")] ∧
      (added.certificates.rows.map fun row ↦ row.value.name) = [signedCertificate.name] ∧
      (added.certificates.rows.map Row.isMarked) = [true]) ∧
    added.IsIntegral ∧ added.registry.IsClosed :=
  ⟨by decide +kernel, integrity_of_run isIntegral_initial run_adding⟩

end SecPublicInfo

end NdnCxx
