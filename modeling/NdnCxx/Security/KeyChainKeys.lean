import NdnCxx.Security.KeyChainBacking

/-!
# Keys and certificates of a key chain

The functions of a key chain write to the PIB and to the TPM one after the other. A new key is in the TPM
before it is in the PIB, so wherever an exception ends a function, the TPM holds the keys of the PIB. A
certificate that the key chain makes itself belongs to the key that it is made for as long as no word `KEY`
stands inside the identity, and then making it does not throw.
-/

namespace NdnCxx

open MarkedTable
open Validation (PublicKeyInfo)

/-! ## Names of new keys -/

/-- A text of plain characters is the text of a component. -/
theorem Component.toUri_generic_bytesOf {text : List Char}
    (hplain : ∀ char ∈ text, char.toNat < 256 ∧ isUnescaped (UInt8.ofNat char.toNat) = true)
    (hletter : ∃ char ∈ text, char ≠ '.') : (generic (bytesOf text)).toUri = text := by
  have hletters : (bytesOf text).all (· == 0x2e) = false := by
    obtain ⟨char, hmem, hne⟩ := hletter
    rw [List.all_eq_false]
    refine ⟨UInt8.ofNat char.toNat, List.mem_map_of_mem hmem, ?_⟩
    intro hperiod
    have hbyte : UInt8.ofNat char.toNat = 0x2e := by simpa using hperiod
    have hnumber := congrArg UInt8.toNat hbyte
    rw [UInt8.toNat_ofNat_of_lt' (hplain char hmem).1] at hnumber
    exact hne (Char.toNat_inj.mp hnumber)
  have htype : (generic (bytesOf text)).type = Tlv.nameComponent := rfl
  have hvalue : (generic (bytesOf text)).value = bytesOf text := rfl
  rw [toUri, hvalue, hletters, htype, if_neg (by decide), if_neg (by simp), bytesOf, List.flatMap_map]
  have hchar : ∀ char ∈ text, escapeByte (UInt8.ofNat char.toNat) = [char] := by
    intro char hmem
    obtain ⟨hlt, hunescaped⟩ := hplain char hmem
    rw [escapeByte, if_pos hunescaped, UInt8.toNat_ofNat_of_lt' hlt, Char.ofNat_toNat]
  rw [List.flatMap_congr hchar, List.flatMap_singleton']

namespace SecPublicInfo

theorem readName_keyId (useKsk : Bool) (timestamp : ℕ) :
    ∃ keyId : Component, keyId.IsValid ∧
      readName ((if useKsk then "ksk-" else "dsk-") ++ toString timestamp) = .ok [keyId] ∧
      ∃ rest, keyId.value = (if useKsk then 0x6b else 0x64) :: 0x73 :: rest := by
  have htext : ((if useKsk then "ksk-" else "dsk-") ++ toString timestamp).toList =
      (if useKsk then 'k' else 'd') :: 's' :: 'k' :: '-' :: Nat.toDigits 10 timestamp := by
    cases useKsk <;> simp [Nat.repr]
  have hplain : ∀ char ∈ (if useKsk then 'k' else 'd') :: 's' :: 'k' :: '-' ::
      Nat.toDigits 10 timestamp, char.toNat < 256 ∧
        Component.isUnescaped (UInt8.ofNat char.toNat) = true := by
    intro char hmem
    simp only [List.mem_cons] at hmem
    rcases hmem with rfl | rfl | rfl | rfl | hdigit
    · cases useKsk <;> decide
    · decide
    · decide
    · decide
    · have hrange := Nat.isDigit_of_mem_toDigits (by decide) (by decide) hdigit
      have hdigits : ∀ number < 58, 48 ≤ number →
          Component.isUnescaped (UInt8.ofNat number) = true := by decide
      obtain ⟨hlower, hupper⟩ : 48 ≤ char.toNat ∧ char.toNat ≤ 57 := by
        simpa [Char.isDigit, UInt32.le_iff_toNat_le] using hrange
      exact ⟨by omega, hdigits _ (by omega) hlower⟩
  have huri := Component.toUri_generic_bytesOf hplain ⟨'s', by simp, by decide⟩
  have hvalid : (Component.generic (bytesOf ((if useKsk then 'k' else 'd') :: 's' :: 'k' :: '-' ::
      Nat.toDigits 10 timestamp))).IsValid := .inl rfl
  refine ⟨_, hvalid, ?_, bytesOf ('k' :: '-' :: Nat.toDigits 10 timestamp), ?_⟩
  · rw [readName, htext]
    conv_lhs => rw [← huri]
    rw [Name.fromUri_component hvalid]
    rfl
  · cases useKsk <;> rfl

/-- A name that no key has yet, or a `SecPublicInfo::Error` -/
theorem getNewKeyName_cases (pib : SecPublicInfo) (identityName : Name) (useKsk : Bool)
    (timestamp : ℕ) :
    (∃ keyId : Component, keyId.IsValid ∧
        pib.getNewKeyName identityName useKsk timestamp = .ok (identityName ++ [keyId]) ∧
        pib.doesPublicKeyExist (identityName ++ [keyId]) = .ok false) ∨
      ∃ what, pib.getNewKeyName identityName useKsk timestamp = .error (.publicInfo what) := by
  obtain ⟨keyId, hvalid, hread, -⟩ := readName_keyId useKsk timestamp
  have hcolumns := keyColumns_append_singleton identityName keyId
  unfold getNewKeyName
  dsimp only
  rw [hread]
  cases hexists : (pib.keys.row? (identityName.toUri, String.ofList keyId.toUri)).isSome with
  | false =>
    have hnone : pib.doesPublicKeyExist (identityName ++ [keyId]) = .ok false := by
      rw [doesPublicKeyExist, hcolumns, ← hexists]
    refine .inl ⟨keyId, hvalid, ?_, hnone⟩
    simp only [Except.map, bind, Except.bind, hnone]
    rfl
  | true =>
    have hsome : pib.doesPublicKeyExist (identityName ++ [keyId]) = .ok true := by
      rw [doesPublicKeyExist, hcolumns, ← hexists]
    refine .inr ⟨"Key name already exists: " ++ (identityName ++ [keyId]).toUri, ?_⟩
    simp only [Except.map, bind, Except.bind, hsome]
    rfl

end SecPublicInfo

namespace KeyChain.Stores

open SecPublicInfo Throwing

/-- The TPM holds the keys of the PIB, and its files are pairs. -/
structure IsBacked (library : KeyLibrary) (stores : Stores) : Prop where
  isPaired : stores.tpm.IsPaired library
  pib : IsBackedBy stores.tpm stores.pib

variable {library : KeyLibrary} (sha256 : Bytes → Bytes) {stores : Stores}

theorem isBacked_initial : initial.IsBacked library where
  isPaired := SecTpm.isPaired_empty
  pib := by
    refine ⟨isIntegral_initial, hasNames_initial, fun row hrow ↦ ?_, fun row hrow ↦ ?_⟩
    · exact absurd hrow List.not_mem_nil
    · exact absurd hrow List.not_mem_nil

variable {event : SecPublicInfo.Event} {publicKey : PublicKeyInfo} {certName : Name}
    {params : KeyParams}

/-- A public call on the PIB, as a call on the key chain -/
theorem onPib_spec (hstores : stores.IsBacked library) (hreadable : event.IsReadable)
    (hheld : event.IsHeldBy stores.tpm) :
    Ends (fun _ next ↦ next.IsBacked library ∧ next.tpm = stores.tpm ∧
        next.pib.registry = event.onRegistry stores.pib.registry)
      (fun exception next ↦ exception = .undefined ∨ next.IsBacked library ∧
        next.tpm = stores.tpm ∧ next.pib.registry = event.onRegistry stores.pib.registry)
      ((onPib event.call).run stores) := by
  refine Ends.onPart (meets_call_backed hreadable hheld stores.pib ⟨hstores.pib, rfl⟩)
    (fun value pib hpib ↦ ?_) fun exception pib hpib ↦ hpib.imp_right fun hpib ↦ ?_
  · exact ⟨⟨hstores.isPaired, hpib.1⟩, rfl, hpib.2⟩
  · exact ⟨⟨hstores.isPaired, hpib.1⟩, rfl, hpib.2⟩

/-- A statement on the PIB that cannot throw -/
theorem IsBacked.change (hstores : stores.IsBacked library) (event : SecPublicInfo.Event)
    {change : SecPublicInfo → SecPublicInfo} (hcall : event.call = modify change)
    (hreadable : event.IsReadable) (hheld : event.IsHeldBy stores.tpm) :
    IsBacked library { stores with pib := change stores.pib } ∧
      (change stores.pib).registry = event.onRegistry stores.pib.registry := by
  have hpib := meets_call_backed hreadable hheld stores.pib ⟨hstores.pib, rfl⟩
  rw [hcall] at hpib
  exact ⟨⟨hstores.isPaired, hpib.1⟩, hpib.2⟩

/-- A statement that leaves the defaults as they are leaves the member current. -/
theorem isCurrent_change (hstores : stores.IsBacked library) (event : SecPublicInfo.Event)
    {change : SecPublicInfo → SecPublicInfo} (hcall : event.call = modify change)
    (hreadable : event.IsReadable)
    (hchain : (event.onRegistry stores.pib.registry).chain = stores.pib.registry.chain)
    (hcurrent : IsCurrent stores.pib) : IsCurrent (change stores.pib) := by
  have hstep : SecPublicInfo.step stores.pib event = some (change stores.pib) := by
    rw [SecPublicInfo.step, hcall]
    rfl
  exact (isCurrent_iff_spares hstores.pib.isIntegral hstores.pib.hasNames hreadable hcurrent
    hstep).mpr (.inr (.inr hchain))

/-! ## Keys -/

abbrev columnsOf (identityName : Name) (keyId : Component) : String × String :=
  (identityName.toUri, String.ofList keyId.toUri)

/-- A key of the type that is asked for, which the PIB did not have, is held by the TPM. -/
structure MakesKey (stores : Stores) (identityName : Name) (params : KeyParams) (keyId : Component)
    (next : Stores) : Prop where
  isValid : keyId.IsValid
  isNew : columnsOf identityName keyId ∉ stores.pib.registry.keys
  isHeld : ∃ publicKey, next.tpm.Holds (identityName ++ [keyId]).toUri publicKey ∧
    params.keyType = some publicKey.keyType
  grows : stores.tpm.Grows next.tpm

/-- Only the TPM may have got more keys. -/
structure KeepsPib (stores next : Stores) : Prop where
  pib : next.pib = stores.pib
  tpm : stores.tpm.Grows next.tpm

/-- An exception that a function of one of the two stores throws by itself -/
def IsStoreError : Thrown → Prop
  | .publicInfo _ | .tpm _ => True
  | _ => False

variable {identityName : Name} {keyId : Component} {certificate : SecPublicInfo.Certificate}

theorem generateKeyPair_spec (hlibrary : library.IsSound) (hstores : stores.IsBacked library)
    (hvalid : ∀ component ∈ identityName, component.IsValid) (isKsk : Bool) (params : KeyParams)
    (keyTime keyRandom : ℕ) :
    Ends (fun keyName next ↦ next.IsBacked library ∧ ∃ keyId, keyName = identityName ++ [keyId] ∧
        stores.MakesKey identityName params keyId next ∧
        next.pib.registry = stores.pib.registry.addKey (columnsOf identityName keyId))
      (fun exception next ↦ next.IsBacked library ∧ stores.KeepsPib next ∧ IsStoreError exception)
      ((generateKeyPair library identityName isKsk params keyTime keyRandom).run stores) := by
  unfold generateKeyPair
  refine Ends.bind (fun keyName next ↦ stores = next ∧ ∃ keyId : Component, keyId.IsValid ∧
    keyName = identityName ++ [keyId] ∧ stores.pib.doesPublicKeyExist keyName = .ok false)
    (Ends.of_reads ?_ ?_) ?_
  · intro keyName hread
    rcases stores.pib.getNewKeyName_cases identityName isKsk (toUnixTimestamp keyTime) with
      ⟨keyId, hkeyId, hok, hnew⟩ | ⟨what, herror⟩
    · obtain rfl := Except.ok.inj (hok.symm.trans hread)
      exact ⟨rfl, keyId, hkeyId, rfl, hnew⟩
    · cases herror.symm.trans hread
  · intro exception hread
    rcases stores.pib.getNewKeyName_cases identityName isKsk (toUnixTimestamp keyTime) with
      ⟨keyId, -, hok, -⟩ | ⟨what, herror⟩
    · cases hok.symm.trans hread
    · obtain rfl := Except.error.inj (herror.symm.trans hread)
      exact ⟨hstores, ⟨rfl, fun _ _ hholds ↦ hholds⟩, trivial⟩
  rintro keyName next ⟨rfl, keyId, hkeyId, rfl, hnew⟩
  have hname : ∀ component ∈ identityName ++ [keyId], component.IsValid := by
    intro component hmem
    rcases List.mem_append.mp hmem with hmem | hmem
    · exact hvalid component hmem
    · obtain rfl := List.mem_singleton.mp hmem
      exact hkeyId
  have hcolumns := keyColumns_append_singleton identityName keyId
  refine Ends.bind (fun tpmName next ↦ stores = next ∧ tpmName = identityName ++ [keyId])
    (Ends.of_reads (fun tpmName hread ↦ ?_) fun exception hread ↦ ?_) ?_
  · exact ⟨rfl, (Except.ok.inj ((readName_toUri hname).symm.trans hread)).symm⟩
  · cases (readName_toUri hname).symm.trans hread
  rintro tpmName next ⟨rfl, rfl⟩
  refine Ends.bind (fun _ middle ↦ middle.IsBacked library ∧ stores.KeepsPib middle ∧ ∃ publicKey,
      params.keyType = some publicKey.keyType ∧
        middle.tpm.Holds (identityName ++ [keyId]).toUri publicKey)
    (Ends.onPart (SecTpm.generateKeyPairInTpm_spec hlibrary hstores.isPaired params keyRandom)
      ?_ ?_) ?_
  · rintro - tpm ⟨hpaired, hgrows, hmade⟩
    exact ⟨⟨hpaired, hstores.pib.grows hgrows⟩, ⟨rfl, hgrows⟩, hmade⟩
  · rintro exception tpm ⟨rfl, what, rfl⟩
    exact ⟨hstores, ⟨rfl, fun _ _ hholds ↦ hholds⟩, trivial⟩
  rintro - middle ⟨hmiddle, hkeeps, publicKey, htype, hholds⟩
  refine Ends.bind (fun pubKey next ↦ middle = next ∧ pubKey = publicKey)
    (Ends.of_reads (fun pubKey hread ↦ ?_) fun exception hread ↦ ?_) ?_
  · exact ⟨rfl, (SecTpm.getPublicKeyFromTpm_eq_ok_iff.mp hread).unique hholds⟩
  · cases (SecTpm.getPublicKeyFromTpm_eq_ok_iff.mpr hholds).symm.trans hread
  rintro pubKey next ⟨rfl, rfl⟩
  have hreadable : (SecPublicInfo.Event.addKey (identityName ++ [keyId]) pubKey).IsReadable :=
    isReadable_of_names rfl hname
  have hheld : (SecPublicInfo.Event.addKey (identityName ++ [keyId]) pubKey).IsHeldBy middle.tpm := by
    intro columns hsame
    rw [keyUri_of_keyColumns hsame]
    exact hholds
  obtain ⟨hnext, hregistry⟩ := hmiddle.change _ rfl hreadable hheld
  have hnot : (identityName.toUri, String.ofList keyId.toUri) ∉ stores.pib.registry.keys := by
    intro hmem
    have hexists := ((hstores.pib.isIntegral.answers hstores.pib.hasNames).doesPublicKeyExist _).mpr
      ⟨_, hmem, hcolumns⟩
    cases hnew.symm.trans hexists
  refine ⟨hnext, keyId, rfl, ⟨hkeyId, hnot, ⟨pubKey, hholds, htype⟩, hkeeps.tpm⟩, ?_⟩
  rw [hregistry, hkeeps.pib]
  simp only [SecPublicInfo.Event.onRegistry, hcolumns]

/-- A public call on the PIB that does not throw -/
theorem onPib_of_succeeds (hstores : stores.IsBacked library) (hreadable : event.IsReadable)
    (hheld : event.IsHeldBy stores.tpm) (hsucceeds : event.Succeeds stores.pib) :
    Ends (fun _ next ↦ next.IsBacked library ∧ next.tpm = stores.tpm ∧
        next.pib.registry = event.onRegistry stores.pib.registry ∧ IsCurrent next.pib)
      (fun _ _ ↦ False) ((onPib event.call).run stores) := by
  have hpib := hstores.pib
  have hcall := (meets_call_backed hreadable hheld stores.pib ⟨hpib, rfl⟩).and
    ((ends_of_succeeds hpib.isIntegral hpib.hasNames hreadable hsucceeds).and
      (refreshes_call hpib.hasNames hreadable hsucceeds.refreshes stores.pib
        ⟨⟨hpib.isIntegral, rfl⟩, Extends.refl stores.pib⟩))
  refine Ends.onPart hcall (fun value pib hnext ↦ ?_) fun exception pib hnext ↦ hnext.2.1
  exact ⟨⟨hstores.isPaired, hnext.1.1⟩, rfl, hnext.1.2, hnext.2.2⟩

theorem generateKeyPairAsDefault_spec (hlibrary : library.IsSound)
    (hstores : stores.IsBacked library) (hvalid : ∀ component ∈ identityName, component.IsValid)
    (isKsk : Bool) (params : KeyParams) (keyTime keyRandom : ℕ) :
    Ends (fun keyName next ↦ next.IsBacked library ∧ ∃ keyId, keyName = identityName ++ [keyId] ∧
        stores.MakesKey identityName params keyId next ∧ IsCurrent next.pib ∧
        next.pib.registry = (stores.pib.registry.addKey (columnsOf identityName keyId)).setDefaultKey
          (columnsOf identityName keyId))
      (fun exception next ↦ next.IsBacked library ∧ stores.KeepsPib next ∧ IsStoreError exception)
      ((generateKeyPairAsDefault library identityName isKsk params keyTime keyRandom).run stores) := by
  unfold generateKeyPairAsDefault
  refine Ends.bind _ (generateKeyPair_spec hlibrary hstores hvalid isKsk params keyTime keyRandom) ?_
  rintro keyName middle ⟨hmiddle, keyId, rfl, hmakes, hregistry⟩
  have hcolumns := keyColumns_append_singleton identityName keyId
  have hreadable : (SecPublicInfo.Event.setDefaultKeyNameForIdentity
      (identityName ++ [keyId])).IsReadable := by
    rintro name hmem component hcomponent
    obtain rfl := List.mem_singleton.mp hmem
    rcases List.mem_append.mp hcomponent with hfront | hlast
    · exact hvalid component hfront
    · obtain rfl := List.mem_singleton.mp hlast
      exact hmakes.isValid
  have hexists : middle.pib.doesPublicKeyExist (identityName ++ [keyId]) = .ok true := by
    refine ((hmiddle.pib.isIntegral.answers hmiddle.pib.hasNames).doesPublicKeyExist _).mpr
      ⟨_, ?_, hcolumns⟩
    rw [hregistry]
    exact Set.mem_insert _ _
  refine Ends.bind _ ((onPib_of_succeeds hmiddle hreadable trivial hexists).weaken
    (fun _ _ h ↦ h) fun _ _ h ↦ h.elim) ?_
  rintro - next ⟨hnext, htpm, hdefault, hcurrent⟩
  refine ⟨hnext, keyId, rfl, ⟨hmakes.isValid, hmakes.isNew, ?_, ?_⟩, hcurrent, ?_⟩
  · rw [htpm]
    exact hmakes.isHeld
  · rw [htpm]
    exact hmakes.grows
  · rw [hdefault, hregistry]
    simp only [SecPublicInfo.Event.onRegistry, SecPublicInfo.Event.chooseKey, hcolumns]

/-! ## Certificates that the key chain makes -/

def selfSignedName (identityName : Name) (keyId : Component) (certTime : ℕ) : Name :=
  identityName ++ [keyComponent] ++ [keyId] ++
    [idCertComponent, .fromVersion (toUnixTimestamp certTime)]

/-- Inside a readable name the words `KEY` can be told by their bytes. -/
theorem isKey_of_value {component : Component} (hvalid : component.IsValid)
    (hvalue : component.value = keyComponent.value) : isKey component = true := by
  rcases hvalid with hgeneric | hdigest
  · have htype : component.type = Tlv.nameComponent := by simpa [Component.isGeneric] using hgeneric
    have hsame : component = keyComponent := by
      obtain ⟨type, value⟩ := component
      exact congrArg₂ Component.mk htype hvalue
    rw [hsame]
    exact isKey_keyComponent
  · rw [Component.isImplicitSha256Digest, Bool.and_eq_true, hvalue] at hdigest
    exact absurd hdigest.2 (by decide)

/-- The key of the certificate is the one that it is made for. -/
theorem certificateColumns_selfSignedName (hvalid : ∀ component ∈ identityName, component.IsValid)
    (hkeys : HasKeysOnlyAtEnd identityName) {publicKeyName : Name} {certTime : ℕ}
    (hnamed : Validation.IdentityCertificate.publicKeyNameOf
      (selfSignedName identityName keyId certTime) = .ok publicKeyName) :
    publicKeyName.toUri = (identityName ++ [keyId]).toUri := by
  rw [selfSignedName, publicKeyNameOf_marked] at hnamed
  obtain rfl := Except.ok.inj hnamed
  refine Name.toUri_eq_of_map_toUri_eq ?_
  rw [MarkedList.map_eraseP_insert_iff isKey Component.toUri isKey_keyComponent identityName [keyId]
    fun component hkey ↦ (of_decide_eq_true hkey).trans (by decide)]
  intro component hmem
  have hkey := isKey_of_value (hvalid component ((List.dropWhile_sublist _).subset hmem))
    (hkeys component hmem)
  exact (of_decide_eq_true hkey).trans (by decide)

/-- A certificate of the key that it was asked for, with the public key that the TPM holds -/
structure IsOfKey (stores : Stores) (identityName : Name) (keyId : Component)
    (certificate : SecPublicInfo.Certificate) : Prop where
  isValid : ∀ component ∈ certificate.name, component.IsValid
  columns : certificateColumns certificate.name = some (columnsOf identityName keyId)
  isHeld : stores.tpm.Holds (identityName ++ [keyId]).toUri certificate.publicKeyInfo
  isStorable : certificate.isStorable = true

/-- A held key signs, also under the name of the digest. -/
theorem pureSign_of_holds (hstores : stores.IsBacked library) {keyName : Name}
    (hholds : stores.tpm.Holds keyName.toUri publicKey) (message : Bytes) (random : ℕ) :
    ∃ signature, stores.pureSign library sha256 message keyName random = .ok signature := by
  unfold pureSign
  split_ifs
  · exact ⟨_, rfl⟩
  · obtain ⟨signature, hsign, -⟩ :=
      SecTpm.signInTpm_of_holds hstores.isPaired hholds message random
    exact ⟨_, hsign⟩

theorem run_selfSignCertificate (hstores : stores.IsBacked library)
    (hholds : stores.tpm.Holds certificate.publicKeyName.toUri publicKey) (readings : Readings) :
    (selfSignCertificate library sha256 certificate readings).run stores = .ok () stores := by
  obtain ⟨privateKey, hprivate, -⟩ := hstores.isPaired _ publicKey hholds
  have hexists : stores.tpm.doesKeyExistInTpm certificate.publicKeyName .privateClass = true := by
    rw [SecTpm.doesKeyExistInTpm, hprivate]
    rfl
  obtain ⟨signature, hsign⟩ := pureSign_of_holds sha256 hstores hholds
    (readings.unsignedPortion certificate) readings.random
  unfold selfSignCertificate
  rw [EStateM.run_bind, EStateM.run_get]
  dsimp only
  rw [hexists, if_neg (by simp), EStateM.run_bind, run_reads, hsign]
  rfl

/-- A key that the PIB knows signs its own certificate, and nothing is thrown. -/
theorem run_selfSign (hstores : stores.IsBacked library)
    (hvalid : ∀ component ∈ identityName, component.IsValid) (hkeyId : keyId.IsValid)
    (hkeys : HasKeysOnlyAtEnd identityName)
    (hmem : columnsOf identityName keyId ∈ stores.pib.registry.keys) (readings : Readings) :
    ∃ certificate, (selfSign library sha256 (identityName ++ [keyId]) readings).run stores =
        .ok (some certificate) stores ∧ stores.IsOfKey identityName keyId certificate ∧
      certificate.name = selfSignedName identityName keyId readings.certTime := by
  have hcolumns := keyColumns_append_singleton identityName keyId
  have huri := keyUri_append_singleton identityName keyId
  obtain ⟨row, hrow, hkey⟩ := hmem
  have hholds := hstores.pib.carries.keys row hrow
  rw [hkey, huri] at hholds
  have hpublic := hstores.pib.getPublicKey_eq_ok_iff.mpr ⟨_, ⟨row, hrow, hkey⟩, hcolumns, hholds⟩
  unfold selfSign
  rw [EStateM.run_bind, EStateM.run_get]
  dsimp only
  rw [hpublic]
  dsimp only
  rw [Name.get_append_singleton, Name.getPrefix_append_singleton]
  dsimp only
  split
  · rename_i error hnamed
    cases hnamed.symm.trans (publicKeyNameOf_marked identityName [keyId] _)
  · rename_i publicKeyName hnamed
    have hname : Validation.IdentityCertificate.publicKeyNameOf
        (selfSignedName identityName keyId readings.certTime) = .ok publicKeyName := hnamed
    have hsame := certificateColumns_selfSignedName hvalid hkeys hname
    rw [← hsame] at hholds
    rw [EStateM.run_bind, run_selfSignCertificate sha256 hstores hholds]
    refine ⟨_, rfl, ⟨?_, ?_, ?_, rfl⟩, rfl⟩
    · intro component hcomponent
      simp only [List.mem_append, List.mem_cons, List.not_mem_nil, or_false] at hcomponent
      rcases hcomponent with ((hfront | rfl) | rfl) | rfl | rfl
      · exact hvalid component hfront
      · exact .inl rfl
      · exact hkeyId
      · exact .inl rfl
      · exact .inl rfl
    · rw [← keyColumns_publicKeyName, ← hcolumns]
      exact keyColumns_eq_of_map_toUri_eq (Name.map_toUri_eq_of_toUri_eq hsame)
    · rw [← hsame]
      exact hholds

/-- A key with a certificate, both of them as defaults -/
def adopt (registry : Registry) (columns : String × String) (certificate : String) : Registry :=
  { registry.addKey columns with
    certificates := insert (columns, certificate) registry.certificates
    defaultKey := Function.update registry.defaultKey columns.1 (some columns.2)
    defaultCertificate := Function.update registry.defaultCertificate columns (some certificate) }

theorem onRegistry_addCertificateAsIdentityDefault (registry : Registry) {columns : String × String}
    (hcolumns : certificateColumns certificate.name = some columns)
    (hstorable : certificate.isStorable = true) :
    SecPublicInfo.Event.onRegistry (.addCertificateAsIdentityDefault certificate) registry =
      adopt registry columns certificate.name.toUri := by
  have hkey := (keyColumns_publicKeyName certificate).trans hcolumns
  have hkeys : columns ∈ ((registry.addKey columns).addCertificate columns
      certificate.name.toUri).keys := Set.mem_insert _ _
  have hstops : ¬ SecPublicInfo.Event.Stops certificate registry :=
    SecPublicInfo.Event.not_stops_of_isStorable hstorable
  simp only [SecPublicInfo.Event.onRegistry, SecPublicInfo.Event.addThen, hstops,
    Function.comp_apply, SecPublicInfo.Event.chooseCertificate, SecPublicInfo.Event.chooseKey,
    SecPublicInfo.Event.addCertificateTo, hcolumns, hkey, hstorable, if_true, if_false]
  rw [DefaultRegistry.setDefaultKey, if_pos hkeys, DefaultRegistry.setDefaultCertificate, if_pos]
  · rfl
  · exact Set.mem_insert _ _

theorem addCertificateAsIdentityDefault_spec (hstores : stores.IsBacked library)
    (hcertificate : stores.IsOfKey identityName keyId certificate) :
    Ends (fun _ next ↦ next.IsBacked library ∧ next.tpm = stores.tpm ∧ IsCurrent next.pib ∧
        next.pib.registry =
          adopt stores.pib.registry (columnsOf identityName keyId) certificate.name.toUri)
      (fun _ _ ↦ False)
      ((onPib (SecPublicInfo.addCertificateAsIdentityDefault certificate)).run stores) := by
  have hreadable : (SecPublicInfo.Event.addCertificateAsIdentityDefault certificate).IsReadable :=
    isReadable_of_names rfl hcertificate.isValid
  have hheld : (SecPublicInfo.Event.addCertificateAsIdentityDefault certificate).IsHeldBy
      stores.tpm := by
    intro columns hcolumns
    obtain rfl := Option.some.inj (hcertificate.columns.symm.trans hcolumns)
    have hheld := hcertificate.isHeld
    rw [← keyUri_append_singleton] at hheld
    exact ⟨hheld, hheld⟩
  have hsucceeds : (SecPublicInfo.Event.addCertificateAsIdentityDefault certificate).Succeeds
      stores.pib := ⟨by rw [hcertificate.columns]; rfl, hcertificate.isStorable⟩
  refine (onPib_of_succeeds hstores hreadable hheld hsucceeds).weaken ?_ fun _ _ h ↦ h
  rintro - next ⟨hnext, htpm, hregistry, hcurrent⟩
  exact ⟨hnext, htpm, hcurrent, hregistry.trans (onRegistry_addCertificateAsIdentityDefault _
    hcertificate.columns hcertificate.isStorable)⟩

theorem addSelfSigned_spec (hstores : stores.IsBacked library)
    (hvalid : ∀ component ∈ identityName, component.IsValid) (hkeyId : keyId.IsValid)
    (hkeys : HasKeysOnlyAtEnd identityName)
    (hmem : columnsOf identityName keyId ∈ stores.pib.registry.keys) (readings : Readings) :
    Ends (fun certificate next ↦ next.IsBacked library ∧ next.tpm = stores.tpm ∧
        IsCurrent next.pib ∧ next.pib.registry =
          adopt stores.pib.registry (columnsOf identityName keyId) certificate.name.toUri ∧
        stores.IsOfKey identityName keyId certificate ∧
        certificate.name = selfSignedName identityName keyId readings.certTime)
      (fun _ _ ↦ False)
      ((addSelfSigned library sha256 (identityName ++ [keyId]) readings).run stores) := by
  obtain ⟨certificate, hrun, hcertificate, hname⟩ :=
    run_selfSign sha256 hstores hvalid hkeyId hkeys hmem readings
  unfold addSelfSigned
  rw [EStateM.run_bind, hrun]
  refine Ends.bind _ (addCertificateAsIdentityDefault_spec hstores hcertificate) ?_
  rintro - next ⟨hnext, htpm, hcurrent, hregistry⟩
  exact ⟨hnext, htpm, hcurrent, hregistry, hcertificate, hname⟩

/-! ## Identities -/

/-- A handler of `SecPublicInfo::Error` lets other exceptions through. -/
theorem ends_catchPublicInfo {Value : Type} {call handler : Task Value}
    {post : Value → Stores → Prop} {fail : Thrown → Stores → Prop}
    (thrown : Thrown → Stores → Prop) (hcall : Ends post thrown (call.run stores))
    (hhandler : ∀ what middle, thrown (.publicInfo what) middle →
      Ends post fail (handler.run middle))
    (hother : ∀ exception middle, thrown exception middle →
      (∀ what, exception ≠ .publicInfo what) → fail exception middle) :
    Ends post fail ((catchPublicInfo call handler).run stores) := by
  refine Ends.tryCatch thrown hcall fun exception middle hthrown ↦ ?_
  cases exception with
  | publicInfo what => exact hhandler what middle hthrown
  | tpm what => exact hother _ middle hthrown (by simp)
  | keyChain what => exact hother _ middle hthrown (by simp)
  | error error => exact hother _ middle hthrown (by simp)
  | other what => exact hother _ middle hthrown (by simp)
  | undefined => exact hother _ middle hthrown (by simp)

/-- The identity has a default key of the type that is asked for, and that key has a default
certificate. -/
def IsSetUp (stores : Stores) (identityName : Name) (params : KeyParams) (certName : Name) : Prop :=
  ∃ keyName publicKey, stores.pib.getDefaultKeyNameForIdentity identityName = .ok keyName ∧
    stores.pib.getPublicKey keyName = .ok publicKey ∧ params.keyType = some publicKey.keyType ∧
    stores.pib.getDefaultCertificateNameForKey keyName = .ok certName

/-- What is set up is not set up again. -/
theorem run_createIdentity_of_isSetUp (hstores : stores.IsBacked library)
    (hsetUp : stores.IsSetUp identityName params certName) (readings : Readings) :
    (createIdentity library sha256 identityName params readings).run stores =
      .ok certName stores := by
  obtain ⟨keyName, publicKey, hkeyName, hpublicKey, htype, hcertName⟩ := hsetUp
  have hexists : stores.pib.doesIdentityExist identityName = true := by
    obtain ⟨keyId, -, -, hdefault⟩ :=
      ((hstores.pib.isIntegral.answers hstores.pib.hasNames).getDefaultKeyNameForIdentity _ _).mp
        hkeyName
    have hclosed := hstores.pib.isIntegral.registry_isClosed
    exact ((hstores.pib.isIntegral.answers hstores.pib.hasNames).doesIdentityExist _).mpr
      (hclosed.identity_of_key _ (hclosed.defaultKey _ _ hdefault))
  have hsame : stores.pib.addIdentity identityName = stores.pib := by
    rw [SecPublicInfo.addIdentity, if_pos hexists]
  unfold createIdentity catchPublicInfo
  rw [EStateM.run_bind, EStateM.run_modify, hsame]
  dsimp only
  rw [EStateM.run_bind, run_tryCatch, EStateM.run_bind, run_reads, hkeyName]
  dsimp only
  rw [EStateM.run_bind, run_reads, hpublicKey]
  dsimp only
  rw [if_neg (by simp [htype])]
  change EStateM.run (tryCatch _ _) stores = _
  rw [run_tryCatch, run_reads, hcertName]

/-- The identity has a default key of the type that is asked for, and the TPM holds it. -/
structure HasDefaultKey (stores : Stores) (identityName : Name) (params : KeyParams)
    (keyId : Component) : Prop where
  isValid : keyId.IsValid
  isDefault :
    stores.pib.registry.defaultKey identityName.toUri = some (String.ofList keyId.toUri)
  isHeld : ∃ publicKey, stores.tpm.Holds (identityName ++ [keyId]).toUri publicKey ∧
    params.keyType = some publicKey.keyType

theorem HasDefaultKey.mem_keys (hstores : stores.IsBacked library)
    (hkey : stores.HasDefaultKey identityName params keyId) :
    columnsOf identityName keyId ∈ stores.pib.registry.keys :=
  hstores.pib.isIntegral.registry_isClosed.defaultKey _ _ hkey.isDefault

theorem HasDefaultKey.isSetUp (hstores : stores.IsBacked library)
    (hkey : stores.HasDefaultKey identityName params keyId)
    (hvalid : ∀ component ∈ certName, component.IsValid)
    (hdefault : stores.pib.registry.defaultCertificate (columnsOf identityName keyId) =
      some certName.toUri) : stores.IsSetUp identityName params certName := by
  have hanswers := hstores.pib.isIntegral.answers hstores.pib.hasNames
  have hcolumns := keyColumns_append_singleton identityName keyId
  obtain ⟨publicKey, hholds, htype⟩ := hkey.isHeld
  refine ⟨identityName ++ [keyId], publicKey, ?_, ?_, htype, ?_⟩
  · exact (hanswers.getDefaultKeyNameForIdentity _ _).mpr ⟨keyId, hkey.isValid, rfl, hkey.isDefault⟩
  · exact hstores.pib.getPublicKey_eq_ok_iff.mpr ⟨_, hkey.mem_keys hstores, hcolumns, hholds⟩
  · exact (hanswers.getDefaultCertificateNameForKey _ _).mpr ⟨hvalid, _, hcolumns, hdefault⟩

theorem KeepsPib.refl (stores : Stores) : stores.KeepsPib stores := ⟨rfl, fun _ _ hholds ↦ hholds⟩

theorem isStoreError_of_refuses {Value : Type} {result : Except Thrown Value} {exception : Thrown}
    (hrefuses : Refuses result) (herror : result = .error exception) : IsStoreError exception := by
  obtain ⟨what, rfl⟩ := hrefuses exception herror
  trivial

/-- The default key of an identity, or a new one that becomes the default -/
theorem defaultKey_spec (hlibrary : library.IsSound) (hstores : stores.IsBacked library)
    (hvalid : ∀ component ∈ identityName, component.IsValid) (params : KeyParams)
    (readings : Readings) :
    Ends (fun keyName next ↦ next.IsBacked library ∧ stores.tpm.Grows next.tpm ∧
        (IsCurrent stores.pib → IsCurrent next.pib) ∧
        ∃ keyId, keyName = identityName ++ [keyId] ∧ next.HasDefaultKey identityName params keyId)
      (fun exception next ↦ next.IsBacked library ∧ stores.KeepsPib next ∧ IsStoreError exception)
      ((catchPublicInfo
        (do
          let keyName ← .reads fun stores ↦ stores.pib.getDefaultKeyNameForIdentity identityName
          let key ← .reads fun stores ↦ stores.pib.getPublicKey keyName
          if some key.keyType ≠ params.keyType then
            generateKeyPairAsDefault library identityName true params readings.keyTime
              readings.keyRandom
          else return keyName)
        (generateKeyPairAsDefault library identityName true params readings.nextKeyTime
          readings.nextKeyRandom)).run stores) := by
  have hpib := hstores.pib
  have hnew {before : Stores} (hbefore : before.IsBacked library) (hkeeps : stores.KeepsPib before)
      (keyTime keyRandom : ℕ) :
      Ends (fun keyName next ↦ next.IsBacked library ∧ stores.tpm.Grows next.tpm ∧
          (IsCurrent stores.pib → IsCurrent next.pib) ∧
          ∃ keyId, keyName = identityName ++ [keyId] ∧ next.HasDefaultKey identityName params keyId)
        (fun exception next ↦ next.IsBacked library ∧ stores.KeepsPib next ∧ IsStoreError exception)
        ((generateKeyPairAsDefault library identityName true params keyTime keyRandom).run before) := by
    refine (generateKeyPairAsDefault_spec hlibrary hbefore hvalid true params keyTime
      keyRandom).weaken ?_ ?_
    · rintro keyName next ⟨hnext, keyId, rfl, hmakes, hcurrent, hregistry⟩
      refine ⟨hnext, fun _ _ hholds ↦ hmakes.grows _ _ (hkeeps.tpm _ _ hholds), fun _ ↦ hcurrent,
        keyId, rfl, hmakes.isValid, ?_, hmakes.isHeld⟩
      rw [hregistry, DefaultRegistry.setDefaultKey, if_pos]
      · exact Function.update_self ..
      · exact Set.mem_insert _ _
    · rintro exception next ⟨hnext, hkept, herror⟩
      exact ⟨hnext, ⟨hkept.pib.trans hkeeps.pib,
        fun _ _ hholds ↦ hkept.tpm _ _ (hkeeps.tpm _ _ hholds)⟩, herror⟩
  refine ends_catchPublicInfo (fun exception next ↦ next.IsBacked library ∧ stores.KeepsPib next ∧
    IsStoreError exception) ?_ ?_ fun _ _ h _ ↦ h
  · refine Ends.bind (fun keyName next ↦ stores = next ∧
      stores.pib.getDefaultKeyNameForIdentity identityName = .ok keyName)
      (Ends.of_reads (fun keyName hread ↦ ⟨rfl, hread⟩) fun exception hread ↦ ⟨hstores, .refl stores,
        isStoreError_of_refuses (refuses_getDefaultKeyNameForIdentity hpib.isIntegral hpib.hasNames _)
          hread⟩) ?_
    rintro keyName next ⟨rfl, hkeyName⟩
    refine Ends.bind (fun key next ↦ stores = next ∧ stores.pib.getPublicKey keyName = .ok key)
      (Ends.of_reads (fun key hread ↦ ⟨rfl, hread⟩) fun exception hread ↦ ⟨hstores, .refl stores,
        isStoreError_of_refuses (refuses_getPublicKey _) hread⟩) ?_
    rintro key next ⟨rfl, hkey⟩
    split_ifs with htype
    · exact hnew hstores (.refl stores) _ _
    · obtain ⟨keyId, hkeyId, rfl, hdefault⟩ :=
        ((hpib.isIntegral.answers hpib.hasNames).getDefaultKeyNameForIdentity _ _).mp hkeyName
      obtain ⟨-, -, -, hholds⟩ := hpib.getPublicKey_eq_ok_iff.mp hkey
      exact ⟨hstores, fun _ _ h ↦ h, id, keyId, rfl, hkeyId, hdefault, key, hholds,
        (not_not.mp htype).symm⟩
  · rintro what middle ⟨hmiddle, hkeeps, -⟩
    exact hnew hmiddle hkeeps _ _

/-- The identity is set up, or a store has refused to make its key. -/
theorem createIdentity_spec (hlibrary : library.IsSound) (hstores : stores.IsBacked library)
    (hvalid : ∀ component ∈ identityName, component.IsValid) (hkeys : HasKeysOnlyAtEnd identityName)
    (params : KeyParams) (readings : Readings) :
    Ends (fun certName next ↦ next.IsBacked library ∧ stores.tpm.Grows next.tpm ∧
        (IsCurrent stores.pib → IsCurrent next.pib) ∧ next.IsSetUp identityName params certName)
      (fun exception next ↦ next.IsBacked library ∧ stores.tpm.Grows next.tpm ∧
        next.pib = stores.pib.addIdentity identityName ∧ IsStoreError exception)
      ((createIdentity library sha256 identityName params readings).run stores) := by
  have hreadable : (SecPublicInfo.Event.addIdentity identityName).IsReadable :=
    isReadable_of_names rfl hvalid
  obtain ⟨hadded, -⟩ := hstores.change (.addIdentity identityName) rfl hreadable trivial
  unfold createIdentity
  rw [EStateM.run_bind, EStateM.run_modify]
  refine Ends.bind _ ((defaultKey_spec hlibrary hadded hvalid params readings).weaken
    (fun _ _ h ↦ h) ?_) ?_
  · rintro exception next ⟨hnext, hkeeps, herror⟩
    exact ⟨hnext, hkeeps.tpm, hkeeps.pib, herror⟩
  rintro keyName middle ⟨hmiddle, hgrows, hcurrent, keyId, rfl, hkey⟩
  have hstart : IsCurrent stores.pib → IsCurrent (stores.pib.addIdentity identityName) :=
    isCurrent_change hstores (.addIdentity identityName) rfl hreadable rfl
  have hanswers := hmiddle.pib.isIntegral.answers hmiddle.pib.hasNames
  have hcolumns := keyColumns_append_singleton identityName keyId
  refine ends_catchPublicInfo (fun exception next ↦ middle = next ∧ ∃ what,
    exception = .publicInfo what) ?_ ?_ ?_
  · refine Ends.of_reads (fun certName hread ↦ ?_) fun exception hread ↦
      ⟨rfl, refuses_getDefaultCertificateNameForKey hmiddle.pib.isIntegral hmiddle.pib.hasNames _
        exception hread⟩
    obtain ⟨hcertName, columns, hsame, hdefault⟩ :=
      (hanswers.getDefaultCertificateNameForKey _ _).mp hread
    obtain rfl := Option.some.inj (hcolumns.symm.trans hsame)
    exact ⟨hmiddle, hgrows, fun h ↦ hcurrent (hstart h), hkey.isSetUp hmiddle hcertName hdefault⟩
  · rintro what next ⟨rfl, -⟩
    refine Ends.bind _ ((addSelfSigned_spec sha256 hmiddle hvalid hkey.isValid hkeys
      (hkey.mem_keys hmiddle) readings).weaken (fun _ _ h ↦ h) fun _ _ h ↦ h.elim) ?_
    rintro certificate next ⟨hnext, htpm, hnow, hregistry, hcertificate, -⟩
    have hkeyNext : next.HasDefaultKey identityName params keyId := by
      refine ⟨hkey.isValid, ?_, ?_⟩
      · rw [hregistry]
        exact Function.update_self ..
      · rw [htpm]
        exact hkey.isHeld
    refine ⟨hnext, ?_, fun _ ↦ hnow, hkeyNext.isSetUp hnext hcertificate.isValid ?_⟩
    · rw [htpm]
      exact hgrows
    · rw [hregistry]
      exact Function.update_self ..
  · rintro exception next ⟨-, what, rfl⟩ hother
    exact absurd rfl (hother what)

/-! ## The default certificate -/

theorem refresh_spec (hstores : stores.IsBacked library) :
    Ends (fun _ next ↦ next.IsBacked library ∧ next.tpm = stores.tpm ∧
        next.pib.registry = stores.pib.registry ∧ IsCurrent next.pib ∧
        (next.pib.defaultCertificate.isSome = true ↔ stores.pib.registry.chain.isSome = true))
      (fun _ _ ↦ False) ((onPib SecPublicInfo.refreshDefaultCertificate).run stores) := by
  have hreadable : SecPublicInfo.Event.refreshDefaultCertificate.IsReadable := by
    intro name hmem
    cases hmem
  have hrun := run_refresh hstores.pib.isIntegral hstores.pib.hasNames
  have hmember : stores.pib.storedDefaultCertificate.toOption.isSome = true ↔
      stores.pib.registry.chain.isSome = true := by
    rw [isSome_chain_iff hstores.pib.isIntegral hstores.pib.hasNames]
    cases stores.pib.storedDefaultCertificate <;> simp [Except.toOption]
  have hpart : Ends (fun _ pib ↦ pib.defaultCertificate.isSome = true ↔
      stores.pib.registry.chain.isSome = true) (fun _ _ ↦ False)
      (SecPublicInfo.refreshDefaultCertificate.run stores.pib) := by
    rw [hrun]
    exact hmember
  have hwhole : Ends (fun _ next ↦ next.pib.defaultCertificate.isSome = true ↔
      stores.pib.registry.chain.isSome = true) (fun _ _ ↦ False)
      ((onPib SecPublicInfo.refreshDefaultCertificate).run stores) :=
    Ends.onPart hpart (fun _ _ h ↦ h) fun _ _ h ↦ h
  refine ((onPib_of_succeeds hstores hreadable trivial trivial).and hwhole).weaken ?_
    fun _ _ h ↦ h.1
  rintro - next ⟨⟨hnext, htpm, hregistry, hcurrent⟩, hsome⟩
  exact ⟨hnext, htpm, hregistry, hcurrent, hsome⟩

/-- The default identity, if there is one, has no word `KEY` in front of another one. -/
def SparesDefault (stores : Stores) : Prop :=
  ∀ name, stores.pib.getDefaultIdentity = .ok name → HasKeysOnlyAtEnd name

theorem hasKeysOnlyAtEnd_pair {component last : Component} (hcomponent : isKey component = false) :
    HasKeysOnlyAtEnd [component, last] := by
  intro found hmem
  have hdrop : [component, last].dropWhile (fun component ↦ !isKey component) =
      [last].dropWhile fun component ↦ !isKey component := by simp [hcomponent]
  rw [hdrop] at hmem
  cases hlast : isKey last with
  | false => simp [hlast] at hmem
  | true =>
    obtain rfl : found = last := by simpa [hlast] using hmem
    exact value_of_isKey hlast

theorem chain_setDefaultIdentity (hstores : stores.IsBacked library)
    (hsetUp : stores.IsSetUp identityName params certName) :
    (stores.pib.registry.setDefaultIdentity identityName.toUri).chain.isSome = true := by
  have hanswers := hstores.pib.isIntegral.answers hstores.pib.hasNames
  obtain ⟨keyName, publicKey, hkeyName, -, -, hcertName⟩ := hsetUp
  obtain ⟨keyId, -, rfl, hkey⟩ := (hanswers.getDefaultKeyNameForIdentity _ _).mp hkeyName
  obtain ⟨-, columns, hcolumns, hcertificate⟩ :=
    (hanswers.getDefaultCertificateNameForKey _ _).mp hcertName
  rw [keyColumns_append_singleton] at hcolumns
  obtain rfl := Option.some.inj hcolumns
  refine Option.isSome_iff_exists.mpr ⟨(columnsOf identityName keyId, certName.toUri), ?_⟩
  exact DefaultRegistry.chain_eq_some_iff.mpr ⟨rfl, hkey, hcertificate⟩

/-- Afterwards there is a default certificate, or a store has refused to make its key. -/
theorem setDefaultCertificateInternal_spec (hlibrary : library.IsSound)
    (hstores : stores.IsBacked library) (hspares : stores.SparesDefault) (readings : Readings) :
    Ends (fun _ next ↦ next.IsBacked library ∧ stores.tpm.Grows next.tpm ∧ IsCurrent next.pib ∧
        next.pib.defaultCertificate.isSome = true)
      (fun exception next ↦ next.IsBacked library ∧ stores.tpm.Grows next.tpm ∧
        IsStoreError exception)
      ((setDefaultCertificateInternal library sha256 readings).run stores) := by
  unfold setDefaultCertificateInternal
  refine Ends.bind _ ((refresh_spec hstores).weaken (fun _ _ h ↦ h) fun _ _ h ↦ h.elim) ?_
  rintro - first ⟨hfirst, htpm, hregistry, hcurrent, -⟩
  rw [EStateM.run_bind, EStateM.run_get]
  dsimp only
  split_ifs with hnone
  · refine Ends.bind (fun name next ↦ first = next ∧ (∀ component ∈ name, component.IsValid) ∧
      HasKeysOnlyAtEnd name) ?_ ?_
    · refine ends_catchPublicInfo (fun exception next ↦ first = next ∧ ∃ what,
        exception = .publicInfo what) (Ends.of_reads (fun name hread ↦ ?_) fun exception hread ↦ ?_)
        ?_ ?_
      · have hdefault := (getDefaultIdentity_eq_ok_iff hfirst.pib.isIntegral hfirst.pib.hasNames).mp
          hread
        have hstart := hdefault
        rw [hregistry] at hstart
        exact ⟨rfl, hdefault.1, hspares name
          ((getDefaultIdentity_eq_ok_iff hstores.pib.isIntegral hstores.pib.hasNames).mpr hstart)⟩
      · exact ⟨rfl, refuses_getDefaultIdentity hfirst.pib.isIntegral hfirst.pib.hasNames exception
          hread⟩
      · rintro what next ⟨rfl, -⟩
        refine ⟨rfl, ?_, hasKeysOnlyAtEnd_pair (by decide)⟩
        intro component hmem
        rcases List.mem_pair.mp hmem with rfl | rfl
        · exact .inl rfl
        · exact .inl rfl
      · rintro exception next ⟨-, what, rfl⟩ hother
        exact absurd rfl (hother what)
    rintro name next ⟨rfl, hvalid, hkeys⟩
    have hreadable : (SecPublicInfo.Event.setDefaultIdentity name).IsReadable :=
      isReadable_of_names rfl hvalid
    refine Ends.bind _ ((createIdentity_spec sha256 hlibrary hfirst hvalid hkeys
      (.rsa 2048) readings).weaken (fun _ _ h ↦ h) ?_) ?_
    · rintro exception next ⟨hnext, hgrows, -, herror⟩
      exact ⟨hnext, htpm ▸ hgrows, herror⟩
    rintro certName middle ⟨hmiddle, hgrows, -, hsetUp⟩
    refine Ends.bind _ ((onPib_of_succeeds hmiddle hreadable trivial trivial).weaken
      (fun _ _ h ↦ h) fun _ _ h ↦ h.elim) ?_
    rintro - third ⟨hthird, htpm', hregistry', -⟩
    refine (refresh_spec hthird).weaken ?_ fun _ _ h ↦ h.elim
    rintro - next ⟨hnext, htpm'', -, hcurrent, hsome⟩
    refine ⟨hnext, ?_, hcurrent, hsome.mpr ?_⟩
    · rw [htpm'', htpm', ← htpm]
      exact hgrows
    · rw [hregistry']
      exact chain_setDefaultIdentity hmiddle hsetUp
  · refine ⟨hfirst, ?_, hcurrent, ?_⟩
    · rw [htpm]
      exact fun _ _ hholds ↦ hholds
    · simpa [Option.isSome_iff_ne_none] using hnone

end KeyChain.Stores

end NdnCxx
