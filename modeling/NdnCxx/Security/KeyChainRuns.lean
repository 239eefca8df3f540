import NdnCxx.Security.KeyChainKeys

/-!
# Runs of a key chain

Over any run of a key chain its TPM holds the keys of its PIB, whatever throws, because a deleted key is
out of the PIB before it is out of the TPM. So whatever a key chain signs verifies under a certificate in
its PIB, the one that the key locator names.
-/

namespace NdnCxx

open Validation (PublicKeyInfo)

namespace KeyChain.Stores

open SecPublicInfo MarkedTable Throwing

variable {library : KeyLibrary} (sha256 : Bytes → Bytes) {stores : Stores}

/-! ## Signing -/

def IsStored (certificate : SecPublicInfo.Certificate) (stores : Stores) : Prop :=
  ∃ row ∈ stores.pib.certificates.rows, row.value = certificate

/-- What a signer needs: a default identity or an identity for which the key chain may make a certificate,
and a default certificate that is not out of date -/
def CanSign (stores : Stores) (params : SigningInfo) : Prop :=
  match params.signerType with
  | .null => IsCurrent stores.pib ∧ stores.SparesDefault
  | .id => (∀ component ∈ params.signerName, component.IsValid) ∧
      HasKeysOnlyAtEnd params.signerName
  | _ => True

variable {certificate : SecPublicInfo.Certificate}

theorem isStored_of_getCertificate {certName : Name}
    (hread : stores.pib.getCertificate certName = .ok certificate) :
    IsStored certificate stores := by
  obtain ⟨row, hrow, -, hvalue⟩ := getCertificate_eq_ok_iff.mp hread
  exact ⟨row, hrow, hvalue⟩

/-- A handled or unhandled exception, in stores that still hold together -/
def EndsDefined (library : KeyLibrary) (exception : Thrown) (next : Stores) : Prop :=
  exception ≠ .undefined ∧ next.IsBacked library

variable {exception : Thrown} {next : Stores}

theorem EndsDefined.of_isStoreError (herror : IsStoreError exception)
    (hnext : next.IsBacked library) : EndsDefined library exception next := by
  refine ⟨?_, hnext⟩
  rintro rfl
  exact herror

theorem EndsDefined.of_refuses {Value : Type} {result : Except Thrown Value}
    (hrefuses : Refuses result) (hstores : stores.IsBacked library)
    (hread : result = .error exception) : EndsDefined library exception stores :=
  .of_isStoreError (isStoreError_of_refuses hrefuses hread) hstores

/-- Reading a certificate of the PIB -/
theorem getCertificate_spec (hstores : stores.IsBacked library) (certName : Name) :
    Ends (fun found next ↦ next.IsBacked library ∧ ∃ certificate, found = some certificate ∧
        IsStored certificate next) (EndsDefined library)
      ((do return some (← .reads fun stores ↦ stores.pib.getCertificate certName) :
        Task (Option SecPublicInfo.Certificate)).run stores) := by
  refine Ends.bind (fun certificate next ↦ next.IsBacked library ∧ IsStored certificate next)
    (Ends.of_reads (fun certificate hread ↦ ?_) fun exception hread ↦ ?_) ?_
  · exact ⟨hstores, isStored_of_getCertificate hread⟩
  · exact .of_refuses (refuses_getCertificate certName) hstores hread
  · rintro certificate next ⟨hnext, hstored⟩
    exact ⟨hnext, certificate, rfl, hstored⟩

theorem isStored_of_isCurrent (hstores : stores.IsBacked library) (hcurrent : IsCurrent stores.pib)
    (hmember : stores.pib.defaultCertificate = some certificate) : IsStored certificate stores := by
  obtain ⟨row, hrow, -, hvalue⟩ := (storedDefaultCertificate_eq_ok_iff hstores.pib.isIntegral
    hstores.pib.hasNames).mp (hcurrent certificate hmember)
  exact ⟨row, hrow, hvalue⟩

/-- The default certificate is in the PIB unless the member is out of date. -/
theorem getDefaultCertificate_spec (hlibrary : library.IsSound) (hstores : stores.IsBacked library)
    (hcurrent : IsCurrent stores.pib) (hspares : stores.SparesDefault) (readings : Readings) :
    Ends (fun found next ↦ next.IsBacked library ∧ ∃ certificate, found = some certificate ∧
        IsStored certificate next) (EndsDefined library)
      ((getDefaultCertificate library sha256 readings).run stores) := by
  have hread {before : Stores} (hbefore : before.IsBacked library) (hcurrent : IsCurrent before.pib)
      (hsome : before.pib.defaultCertificate.isSome = true) :
      Ends (fun found next ↦ next.IsBacked library ∧ ∃ certificate, found = some certificate ∧
          IsStored certificate next) (EndsDefined library)
        ((do return (← get).pib.defaultCertificate :
          Task (Option SecPublicInfo.Certificate)).run before) := by
    obtain ⟨certificate, hmember⟩ := Option.isSome_iff_exists.mp hsome
    exact ⟨hbefore, certificate, hmember, isStored_of_isCurrent hbefore hcurrent hmember⟩
  unfold getDefaultCertificate
  rw [EStateM.run_bind, EStateM.run_get]
  dsimp only
  cases hmember : stores.pib.defaultCertificate with
  | some certificate =>
    rw [if_neg (by simp)]
    exact hread hstores hcurrent (by rw [hmember]; rfl)
  | none =>
    rw [if_pos (by simp)]
    refine Ends.bind _ ((setDefaultCertificateInternal_spec sha256 hlibrary hstores hspares
      readings).weaken (fun _ _ h ↦ h) fun exception next h ↦ .of_isStoreError h.2.2 h.1) ?_
    rintro - next ⟨hnext, -, hcurrent, hsome⟩
    exact hread hnext hcurrent hsome

variable {params : SigningInfo}

/-- A signer other than the digest gets a certificate of the PIB, or the call throws in a defined way. -/
theorem signingCertificate_spec (hlibrary : library.IsSound) (hstores : stores.IsBacked library)
    (hcan : stores.CanSign params) (readings : Readings) :
    Ends (fun found next ↦ next.IsBacked library ∧
        if params.signerType = .sha256 then found = none
        else ∃ certificate, found = some certificate ∧ IsStored certificate next)
      (EndsDefined library)
      ((signingCertificate library sha256 params readings).run stores) := by
  have hpib := hstores.pib
  unfold CanSign at hcan
  unfold signingCertificate
  cases htype : params.signerType with
  | sha256 => exact ⟨hstores, rfl⟩
  | cert =>
    simp only [reduceCtorEq, if_false]
    exact getCertificate_spec hstores params.signerName
  | key =>
    simp only [reduceCtorEq, if_false]
    refine Ends.bind (fun _ next ↦ stores = next) ?_ fun certName next hsame ↦
      hsame ▸ getCertificate_spec hstores certName
    refine ends_catchPublicInfo (EndsDefined library) (Ends.of_reads (fun _ _ ↦ rfl) fun exception ↦
      .of_refuses (refuses_getDefaultCertificateNameForKey hpib.isIntegral hpib.hasNames _) hstores)
      ?_ fun _ _ h _ ↦ h
    exact fun what next hnext ↦ ⟨by simp, hnext.2⟩
  | id =>
    simp only [htype] at hcan
    simp only [reduceCtorEq, if_false]
    refine Ends.bind (fun _ next ↦ next.IsBacked library) ?_ fun certName next hnext ↦
      getCertificate_spec hnext certName
    have hrefuses := refuses_getDefaultKeyNameForIdentity hpib.isIntegral hpib.hasNames
      params.signerName
    refine ends_catchPublicInfo (fun exception next ↦ stores = next ∧
      EndsDefined library exception next) (Ends.of_reads (fun _ _ ↦ hstores) fun exception hread ↦
        ⟨rfl, .of_refuses (hrefuses.bind fun keyName ↦ refuses_getDefaultCertificateNameForKey
          hpib.isIntegral hpib.hasNames keyName) hstores hread⟩) ?_ fun _ _ h _ ↦ h.2
    rintro what next ⟨rfl, -⟩
    refine Ends.bind (fun _ next ↦ stores = next) (Ends.of_reads (fun _ _ ↦ rfl)
      fun exception hread ↦ ?_) ?_
    · unfold getDefaultKeyParamsForIdentity at hread
      cases hkey : stores.pib.getDefaultKeyNameForIdentity params.signerName with
      | ok keyName =>
        rw [hkey] at hread
        dsimp only at hread
        cases htype : stores.pib.getPublicKeyType keyName with
        | none => simp [htype] at hread
        | some keyType => cases keyType <;> simp [htype] at hread
      | error thrown =>
        obtain ⟨what, rfl⟩ := hrefuses thrown hkey
        rw [hkey] at hread
        cases hread
    · rintro keyParams next rfl
      exact (createIdentity_spec sha256 hlibrary hstores hcan.1 hcan.2 keyParams readings).weaken
        (fun _ _ h ↦ h.1) fun exception next h ↦ .of_isStoreError h.2.2.2 h.1
  | null =>
    simp only [htype] at hcan
    simp only [reduceCtorEq, if_false]
    refine Ends.bind _ (getDefaultCertificate_spec sha256 hlibrary hstores hcan.1 hcan.2 readings) ?_
    rintro - next ⟨hnext, certificate, rfl, hstored⟩
    exact ⟨hnext, certificate, rfl, hstored⟩

/-- A signature over some bytes, with the information in front of it: the digest, or a value that
verifies under the key of a certificate of the PIB, which the key locator names. A key under the name of the
digest makes a digest, too. -/
def Authenticates (library : KeyLibrary) (params : SigningInfo) (message : Bytes)
    (info : Packet.SignatureInfo) (value : Block.Unencoded) (stores : Stores) : Prop :=
  ∃ bytes found, value = ⟨Tlv.signatureValue, .value bytes, []⟩ ∧
    info = (signatureInfoOf params found).2 ∧
    match found with
    | none => params.signerType = .sha256 ∧ bytes = sha256 message
    | some certificate => IsStored certificate stores ∧
        if certificate.publicKeyName.equals digestSha256Identity then bytes = sha256 message
        else bytes.length < 2 ^ 16 ∧ library.verifies certificate.publicKeyInfo message bytes = true

/-- The prepared key signs any bytes. -/
theorem pureSign_authenticates (hstores : stores.IsBacked library)
    {found : Option SecPublicInfo.Certificate}
    (hfound : if params.signerType = .sha256 then found = none
      else ∃ certificate, found = some certificate ∧ IsStored certificate stores) (message : Bytes)
    (random : ℕ) :
    ∃ value, stores.pureSign library sha256 message (signatureInfoOf params found).1 random =
        .ok value ∧
      stores.Authenticates sha256 library params message (signatureInfoOf params found).2 value := by
  split_ifs at hfound with htype
  · subst hfound
    refine ⟨_, if_pos ?_, sha256 message, none, rfl, rfl, htype, rfl⟩
    exact Name.equals_iff.mpr rfl
  · obtain ⟨certificate, rfl, hstored⟩ := hfound
    obtain ⟨row, hrow, rfl⟩ := hstored
    by_cases hdigest : row.value.publicKeyName.equals digestSha256Identity = true
    · refine ⟨_, if_pos hdigest, sha256 message, some row.value, rfl, rfl, ⟨row, hrow, rfl⟩, ?_⟩
      rw [if_pos hdigest]
    · obtain ⟨signature, hsign, hverified⟩ := SecTpm.signInTpm_of_holds hstores.isPaired
        (hstores.pib.holds_of_certificate hrow) message random
      refine ⟨_, (if_neg hdigest).trans hsign, signature, some row.value, rfl, rfl,
        ⟨row, hrow, rfl⟩, ?_⟩
      rw [if_neg hdigest]
      exact hverified

theorem prepareSignatureInfo_spec (hlibrary : library.IsSound) (hstores : stores.IsBacked library)
    (hcan : stores.CanSign params) (readings : Readings) :
    Ends (fun prepared next ↦ next.IsBacked library ∧ ∀ message random, ∃ value,
        next.pureSign library sha256 message prepared.1 random = .ok value ∧
          next.Authenticates sha256 library params message prepared.2 value) (EndsDefined library)
      ((prepareSignatureInfo library sha256 params readings).run stores) := by
  unfold prepareSignatureInfo
  refine Ends.bind _ (signingCertificate_spec sha256 hlibrary hstores hcan readings) ?_
  rintro found next ⟨hnext, hfound⟩
  exact ⟨hnext, pureSign_authenticates sha256 hnext hfound⟩

/-- Whatever is signed can be verified, and a call that throws does so in a defined way. -/
theorem signBuffer_spec (hlibrary : library.IsSound) (hstores : stores.IsBacked library)
    (hcan : stores.CanSign params) (buffer : Bytes) (readings : Readings) :
    Ends (fun value next ↦ next.IsBacked library ∧
        ∃ info, next.Authenticates sha256 library params buffer info value) (EndsDefined library)
      ((signBuffer library sha256 buffer params readings).run stores) := by
  unfold signBuffer
  refine Ends.bind _ (prepareSignatureInfo_spec sha256 hlibrary hstores hcan readings) ?_
  rintro ⟨keyName, info⟩ next ⟨hnext, hsigns⟩
  obtain ⟨value, hsign, hauthentic⟩ := hsigns buffer readings.random
  refine Ends.of_reads (fun found hread ↦ ?_) fun exception hread ↦ ?_
  · obtain rfl := Except.ok.inj (hsign.symm.trans hread)
    exact ⟨hnext, info, hauthentic⟩
  · cases hsign.symm.trans hread

def IsSignedPortion (data : Packet.Data) (info : Packet.SignatureInfo) (value : Block.Unencoded)
    (signed : Packet.Data) (message : Bytes) : Prop :=
  ∃ count encoder, encoder.content = message ∧
    (data.setSignature { info := info }).wireEncodeOn true (Encoder.make 8800 400) =
      .ok (count, encoder) ∧
    (data.setSignature { info := info }).wireEncodeSigned encoder value = .ok signed

/-- A packet that is signed carries a signature over its own bytes. -/
theorem sign_spec (hlibrary : library.IsSound) (hstores : stores.IsBacked library)
    (hcan : stores.CanSign params) (data : Packet.Data) (readings : Readings) :
    Ends (fun signed next ↦ next.IsBacked library ∧ ∃ info value message,
        IsSignedPortion data info value signed message ∧
          next.Authenticates sha256 library params message info value) (EndsDefined library)
      ((sign library sha256 data params readings).run stores) := by
  unfold sign signPacketWrapper
  refine Ends.bind _ (prepareSignatureInfo_spec sha256 hlibrary hstores hcan readings) ?_
  rintro ⟨keyName, info⟩ next ⟨hnext, hsigns⟩
  -- what the encoder throws is an error of the library
  have hencodes {Value : Type} {result : Except Error Value} {post : Value → Stores → Prop}
      (hok : ∀ value, result = .ok value → post value next) :
      Ends post (EndsDefined library)
        ((.reads fun _ ↦ result.mapError Thrown.error : Task Value).run next) := by
    cases result with
    | ok value => exact hok value rfl
    | error error => exact ⟨by simp, hnext⟩
  refine Ends.bind (fun encoded last ↦ next = last ∧
    (data.setSignature { info := info }).wireEncodeOn true (Encoder.make 8800 400) = .ok encoded)
    (hencodes fun encoded hencode ↦ ⟨rfl, hencode⟩) ?_
  rintro ⟨count, encoder⟩ last ⟨rfl, hencode⟩
  obtain ⟨value, hsign, hauthentic⟩ := hsigns encoder.content readings.random
  refine Ends.bind (fun found last ↦ next = last ∧ found = value) (Ends.of_reads ?_ ?_) ?_
  · exact fun found hread ↦ ⟨rfl, (Except.ok.inj (hsign.symm.trans hread)).symm⟩
  · intro exception hread
    cases hsign.symm.trans hread
  rintro found last ⟨rfl, rfl⟩
  exact hencodes fun signed hsigned ↦
    ⟨hnext, info, found, _, ⟨count, encoder, rfl, hencode, hsigned⟩, hauthentic⟩

/-! ## Deleting -/

theorem deleteKey_spec (hstores : stores.IsBacked library) {keyName : Name}
    (hvalid : ∀ component ∈ keyName, component.IsValid) :
    Ends (fun _ next ↦ next.IsBacked library) (fun _ _ ↦ False) ((deleteKey keyName).run stores) := by
  have hreadable : (SecPublicInfo.Event.deletePublicKeyInfo keyName).IsReadable :=
    isReadable_of_names rfl hvalid
  obtain ⟨hdeleted, hregistry⟩ := hstores.change (.deletePublicKeyInfo keyName) rfl hreadable trivial
  refine ⟨SecTpm.isPaired_deleteKeyPairInTpm hstores.isPaired keyName, hdeleted.pib.delete ?_⟩
  intro columns hmem hcolumns
  have hkept : columns ∈ (SecPublicInfo.Event.onRegistry (.deletePublicKeyInfo keyName)
      stores.pib.registry).keys := hregistry ▸ hmem
  simp only [SecPublicInfo.Event.onRegistry, hcolumns] at hkept
  exact hkept.2 rfl

/-- A list is read where each of its items is. -/
theorem exists_mapM {Item Value : Type} {read : Item → Except Thrown Value}
    {related : Item → Value → Prop} {items : List Item}
    (hread : ∀ item ∈ items, ∃ value, read item = .ok value ∧ related item value) :
    ∃ values, items.mapM read = .ok values ∧ (∀ value ∈ values, ∃ item ∈ items, related item value) ∧
      ∀ item ∈ items, ∃ value ∈ values, related item value := by
  induction items with
  | nil => exact ⟨[], rfl, by simp⟩
  | cons item items ih =>
    obtain ⟨value, hvalue, hrelated⟩ := hread item List.mem_cons_self
    obtain ⟨values, hvalues, hsound, hcomplete⟩ := ih fun other hmem ↦
      hread other (List.mem_cons_of_mem _ hmem)
    refine ⟨value :: values, ?_, ?_, ?_⟩
    · rw [List.mapM_cons, hvalue, hvalues]
      rfl
    · simpa using ⟨.inl hrelated, fun other hmem ↦ .inr (hsound other hmem)⟩
    · simpa using ⟨.inl hrelated, fun other hmem ↦ .inr (hcomplete other hmem)⟩

def IsKeyOf (identity : Name) (columns : String × String) (keyName : Name) : Prop :=
  columns.1 = identity.toUri ∧ keyColumns keyName = some columns

theorem exists_getAllKeyNamesOfIdentity (hstores : stores.IsBacked library) (identity : Name)
    (isDefault : Bool) :
    ∃ names, stores.pib.getAllKeyNamesOfIdentity identity isDefault = .ok names ∧
      (∀ name ∈ names, ∃ row ∈ stores.pib.keys.rows, IsKeyOf identity row.key name) ∧
      ∀ row ∈ stores.pib.keys.rows, row.isMarked = isDefault → row.key.1 = identity.toUri →
        ∃ name ∈ names, IsKeyOf identity row.key name := by
  have hpib := hstores.pib
  have howner {row : Row String (String × String) PublicKeyInfo} (hrow : row ∈ stores.pib.keys.rows) :
      row.owner = identity.toUri ↔ row.key.1 = identity.toUri := by
    rw [hpib.isIntegral.owner_of_key row hrow]
  have hread : ∀ row ∈ stores.pib.keys.rows.filter (fun row ↦
      row.isMarked == isDefault && row.owner = identity.toUri), ∃ name,
        (readName row.key.2).map (identity ++ ·) = .ok name ∧ IsKeyOf identity row.key name := by
    intro row hrow
    obtain ⟨hmem, hfilter⟩ := List.mem_filter.mp hrow
    obtain ⟨keyId, hkeyId, huri⟩ := hpib.hasNames.keys row.key ⟨row, hmem, rfl⟩
    have hidentity := (howner hmem).mp (by simpa using (Bool.and_eq_true_iff.mp hfilter).2)
    refine ⟨identity ++ [keyId], ?_, hidentity, ?_⟩
    · rw [huri, readName_component hkeyId]
      rfl
    · rw [keyColumns_append_singleton, ← hidentity, ← huri]
  obtain ⟨names, hnames, hsound, hcomplete⟩ := exists_mapM hread
  refine ⟨names, hnames, fun name hname ↦ ?_, fun row hrow hmarked hidentity ↦ ?_⟩
  · obtain ⟨row, hrow, hkey⟩ := hsound name hname
    exact ⟨row, (List.mem_filter.mp hrow).1, hkey⟩
  · exact hcomplete row (List.mem_filter.mpr ⟨hrow, by simp [hmarked, (howner hrow).mpr hidentity]⟩)

/-- Deleting an identity deletes the files of its keys, and no others. -/
theorem deleteIdentity_spec (hstores : stores.IsBacked library) {identity : Name}
    (hvalid : ∀ component ∈ identity, component.IsValid) :
    Ends (fun _ next ↦ next.IsBacked library ∧
        next.pib.registry = stores.pib.registry.deleteIdentity identity.toUri ∧
        ∀ uri publicKey, next.tpm.Holds uri publicKey ↔ stores.tpm.Holds uri publicKey ∧
          ∀ columns ∈ stores.pib.registry.keys, columns.1 = identity.toUri → keyUri columns ≠ uri)
      (fun _ _ ↦ False) ((deleteIdentity identity).run stores) := by
  have hreadable : (SecPublicInfo.Event.deleteIdentityInfo identity).IsReadable :=
    isReadable_of_names rfl hvalid
  obtain ⟨hdeleted, hregistry⟩ := hstores.change (.deleteIdentityInfo identity) rfl hreadable trivial
  obtain ⟨defaults, hdefaults, hsound, hcomplete⟩ :=
    exists_getAllKeyNamesOfIdentity hstores identity true
  obtain ⟨others, hothers, hsound', hcomplete'⟩ :=
    exists_getAllKeyNamesOfIdentity hstores identity false
  have hkeyOf : ∀ name ∈ defaults ++ others, ∃ row ∈ stores.pib.keys.rows,
      IsKeyOf identity row.key name := by
    intro name hname
    exact (List.mem_append.mp hname).elim (hsound name) (hsound' name)
  -- the files of the names are deleted one after the other
  have hfiles (names : List Name) (tpm : SecTpm) (hpaired : tpm.IsPaired library)
      (hpib : IsBackedBy tpm (stores.pib.deleteIdentityInfo identity))
      (hnames : ∀ name ∈ names, ∃ row ∈ stores.pib.keys.rows, IsKeyOf identity row.key name) :
      (names.foldl SecTpm.deleteKeyPairInTpm tpm).IsPaired library ∧
        IsBackedBy (names.foldl SecTpm.deleteKeyPairInTpm tpm)
          (stores.pib.deleteIdentityInfo identity) ∧
        ∀ uri publicKey, (names.foldl SecTpm.deleteKeyPairInTpm tpm).Holds uri publicKey ↔
          tpm.Holds uri publicKey ∧ ∀ name ∈ names, name.toUri ≠ uri := by
    induction names generalizing tpm with
    | nil => exact ⟨hpaired, hpib, by simp⟩
    | cons name names ih =>
      obtain ⟨row, -, hidentity, hcolumns⟩ := hnames name List.mem_cons_self
      obtain ⟨hlast, hback, hholds⟩ := ih (tpm.deleteKeyPairInTpm name)
        (SecTpm.isPaired_deleteKeyPairInTpm hpaired name)
        (hpib.delete fun columns hmem hsame ↦ by
          rw [hcolumns] at hsame
          obtain rfl := Option.some.inj hsame
          rw [hregistry] at hmem
          exact hmem.2 hidentity)
        fun other hmem ↦ hnames other (List.mem_cons_of_mem _ hmem)
      refine ⟨hlast, hback, fun uri publicKey ↦ (hholds uri publicKey).trans ?_⟩
      rw [SecTpm.holds_deleteKeyPairInTpm_iff, List.forall_mem_cons, ne_comm]
      tauto
  obtain ⟨hpaired, hback, hholds⟩ :=
    hfiles (defaults ++ others) stores.tpm hdeleted.isPaired hdeleted.pib hkeyOf
  unfold deleteIdentity
  rw [EStateM.run_bind, run_reads, hdefaults]
  dsimp only
  rw [EStateM.run_bind, run_reads, hothers]
  refine ⟨⟨hpaired, hback⟩, hregistry, fun uri publicKey ↦ (hholds uri publicKey).trans
    (and_congr_right fun _ ↦ ⟨fun hnot ↦ ?_, fun hnot name hname ↦ ?_⟩)⟩
  · rintro columns ⟨row, hrow, rfl⟩ hidentity rfl
    obtain ⟨name, hname, -, hcolumns⟩ : ∃ name ∈ defaults ++ others,
        IsKeyOf identity row.key name := by
      cases hmarked : row.isMarked with
      | true =>
        obtain ⟨name, hname, hkey⟩ := hcomplete row hrow hmarked hidentity
        exact ⟨name, List.mem_append_left _ hname, hkey⟩
      | false =>
        obtain ⟨name, hname, hkey⟩ := hcomplete' row hrow hmarked hidentity
        exact ⟨name, List.mem_append_right _ hname, hkey⟩
    exact hnot name hname (keyUri_of_keyColumns hcolumns).symm
  · obtain ⟨row, hrow, hidentity, hcolumns⟩ := hkeyOf name hname
    rw [← keyUri_of_keyColumns hcolumns]
    exact hnot row.key ⟨row, hrow, rfl⟩ hidentity

/-! ## Runs -/

/-- The public functions that write to the stores -/
inductive Event
  | onPib (event : SecPublicInfo.Event)
  | generateKeyPair (identityName : Name) (isKsk : Bool) (params : KeyParams)
      (keyTime keyRandom : ℕ)
  | generateKeyPairAsDefault (identityName : Name) (isKsk : Bool) (params : KeyParams)
      (keyTime keyRandom : ℕ)
  | createIdentity (identityName : Name) (params : KeyParams) (readings : Readings)
  | getDefaultCertificate (readings : Readings)
  | signBuffer (buffer : Bytes) (params : SigningInfo) (readings : Readings)
  | sign (data : Packet.Data) (params : SigningInfo) (readings : Readings)
  | deleteKey (keyName : Name)
  | deleteIdentity (identity : Name)

def Event.call (library : KeyLibrary) : Event → Task Unit
  | .onPib event => Stores.onPib event.call
  | .generateKeyPair identityName isKsk params keyTime keyRandom => do
      let _ ← Stores.generateKeyPair library identityName isKsk params keyTime keyRandom
  | .generateKeyPairAsDefault identityName isKsk params keyTime keyRandom => do
      let _ ← Stores.generateKeyPairAsDefault library identityName isKsk params keyTime keyRandom
  | .createIdentity identityName params readings => do
      let _ ← Stores.createIdentity library sha256 identityName params readings
  | .getDefaultCertificate readings => do
      let _ ← Stores.getDefaultCertificate library sha256 readings
  | .signBuffer buffer params readings => do
      let _ ← Stores.signBuffer library sha256 buffer params readings
  | .sign data params readings => do let _ ← Stores.sign library sha256 data params readings
  | .deleteKey keyName => Stores.deleteKey keyName
  | .deleteIdentity identity => Stores.deleteIdentity identity

/-- What the caller has to see to: names can be read back, what is handed to the PIB is held by the TPM,
and no certificate is made for an identity with a word `KEY` in front of another component. -/
def Allows (stores : Stores) : Event → Prop
  | .onPib event => event.IsReadable ∧ event.IsHeldBy stores.tpm
  | .generateKeyPair name .. | .generateKeyPairAsDefault name .. | .deleteKey name
  | .deleteIdentity name => ∀ component ∈ name, component.IsValid
  | .createIdentity name .. => (∀ component ∈ name, component.IsValid) ∧ HasKeysOnlyAtEnd name
  | .getDefaultCertificate _ => IsCurrent stores.pib ∧ stores.SparesDefault
  | .signBuffer _ params _ | .sign _ params _ => stores.CanSign params

def step (library : KeyLibrary) (stores : Stores) (event : Event) : Option Stores :=
  left ((event.call sha256 library).run stores)

/-- One call keeps the stores together, whether or not it throws. -/
theorem isBacked_of_step (hlibrary : library.IsSound) (hstores : stores.IsBacked library)
    {event : Event} (hallows : stores.Allows event)
    (hstep : step sha256 library stores event = some next) : next.IsBacked library := by
  refine of_left ?_ hstep
  have hcall {Value : Type} {call : Task Value} {post : Value → Stores → Prop}
      {fail : Thrown → Stores → Prop} (hends : Ends post fail (call.run stores))
      (hpost : ∀ value next, post value next → next.IsBacked library)
      (hfail : ∀ exception next, fail exception next → next.IsBacked library) :
      Ends (fun _ next ↦ next.IsBacked library)
        (fun exception next ↦ exception = .undefined ∨ next.IsBacked library)
        ((call >>= fun _ ↦ pure ()).run stores) :=
    Ends.bind _ (hends.weaken (fun _ _ h ↦ h) fun exception next h ↦ .inr (hfail _ _ h)) hpost
  cases event with
  | onPib event =>
    exact (onPib_spec hstores hallows.1 hallows.2).weaken (fun _ _ h ↦ h.1)
      fun _ _ h ↦ h.imp_right And.left
  | generateKeyPair name isKsk params keyTime keyRandom =>
    exact hcall (generateKeyPair_spec hlibrary hstores hallows isKsk params keyTime keyRandom)
      (fun _ _ h ↦ h.1) fun _ _ h ↦ h.1
  | generateKeyPairAsDefault name isKsk params keyTime keyRandom =>
    exact hcall (generateKeyPairAsDefault_spec hlibrary hstores hallows isKsk params keyTime
      keyRandom) (fun _ _ h ↦ h.1) fun _ _ h ↦ h.1
  | createIdentity name params readings =>
    exact hcall (createIdentity_spec sha256 hlibrary hstores hallows.1 hallows.2 params readings)
      (fun _ _ h ↦ h.1) fun _ _ h ↦ h.1
  | getDefaultCertificate readings =>
    exact hcall (getDefaultCertificate_spec sha256 hlibrary hstores hallows.1 hallows.2 readings)
      (fun _ _ h ↦ h.1) fun _ _ h ↦ h.2
  | signBuffer buffer params readings =>
    exact hcall (signBuffer_spec sha256 hlibrary hstores hallows buffer readings)
      (fun _ _ h ↦ h.1) fun _ _ h ↦ h.2
  | sign data params readings =>
    exact hcall (sign_spec sha256 hlibrary hstores hallows data readings) (fun _ _ h ↦ h.1)
      fun _ _ h ↦ h.2
  | deleteKey keyName =>
    exact (deleteKey_spec hstores hallows).weaken (fun _ _ h ↦ h) fun _ _ h ↦ h.elim
  | deleteIdentity identity =>
    exact (deleteIdentity_spec hstores hallows).weaken (fun _ _ h ↦ h.1) fun _ _ h ↦ h.elim

/-- Over any run the TPM holds the keys of the PIB, and of each certificate in it. -/
theorem isBacked_of_run (hlibrary : library.IsSound) {start finish : Stores}
    (hstart : start.IsBacked library) {events : List Event}
    (hguarded : Run.Guarded (step sha256 library) Allows start events)
    (hrun : Run.run (step sha256 library) start events = some finish) : finish.IsBacked library :=
  Run.invariant_of_guarded (fun _ stores ↦ stores.IsBacked library)
    (fun _ _ _ _ hstores hallows hstep ↦ isBacked_of_step sha256 hlibrary hstores hallows hstep)
    hstart hguarded hrun

end KeyChain.Stores

end NdnCxx
