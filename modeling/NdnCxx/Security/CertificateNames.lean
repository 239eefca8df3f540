import NdnCxx.Foundation.MarkedList
import NdnCxx.Name.SubName
import NdnCxx.Name.UriRoundTrip
import NdnCxx.Security.IdentityCertificate
import NdnCxx.Security.SigningTimestamps

/-!
# The names of new certificates

`KeyChain` names a certificate after its key: it puts `KEY` somewhere into the name of the key, and
`ID-CERT` and a version behind it. The certificate reads the name of its key back from there.
-/

namespace NdnCxx

def Name.getSubName (name : Name) (start : ℕ) : Name := name.drop start

namespace KeyChain

open Validation

def defaultPrefixName : Name :=
  [.generic ("723821fd-f534-44b3-80d9-44bf5f58bbbb".toList.map fun char ↦ UInt8.ofNat char.toNat)]

def keyComponent : Component := .generic [0x4b, 0x45, 0x59]

def idCertComponent : Component := .generic [0x49, 0x44, 0x2d, 0x43, 0x45, 0x52, 0x54]

/-- `CertificateSubjectDescription` -/
structure SubjectDescription where
  oid : List ℕ
  value : String
  deriving DecidableEq

def attributeName : List ℕ := [2, 5, 4, 41]

/-- An `IdentityCertificate` that the key chain fills, with the members it sets. -/
structure NewCertificate where
  name : Name
  publicKeyName : Name
  notBefore : ℤ
  notAfter : ℤ
  publicKeyInfo : PublicKeyInfo
  subjectDescription : List SubjectDescription
  deriving DecidableEq

/-- What the key chain asks its PIB and its TPM. A public key is `none` for a
`SecPublicInfo::Error`. -/
structure KeyStore where
  getPublicKey : Name → Except Thrown (Option PublicKeyInfo)
  doesPrivateKeyExist : Name → Bool

/-- The local `certName` of `prepareUnsignedIdentityCertificate`; `none` for its `nullptr` -/
def certificateName (keyName signingIdentity certPrefix : Name) (version : ℕ) : Option Name :=
  if certPrefix.equals defaultPrefixName then
    if signingIdentity.isPrefixOf keyName then
      some (signingIdentity ++ [keyComponent] ++ keyName.getSubName signingIdentity.length ++
        [idCertComponent, .fromVersion version])
    else
      some (keyName.getPrefix (-1) ++ [keyComponent] ++ (keyName.get (-1)).toList ++
        [idCertComponent, .fromVersion version])
  else if certPrefix.isPrefixOf keyName && !certPrefix.equals keyName then
    some (certPrefix ++ [keyComponent] ++ keyName.getSubName certPrefix.length ++
      [idCertComponent, .fromVersion version])
  else none

/-- `KeyChain::prepareUnsignedIdentityCertificate`, of a public key -/
def prepareUnsigned (keyName : Name) (publicKey : PublicKeyInfo) (signingIdentity : Name)
    (notBefore notAfter : ℤ) (subjectDescription : List SubjectDescription) (certPrefix : Name)
    (now : ℕ) : Except Thrown (Option NewCertificate) :=
  match keyName.get (-1) with
  | none => .ok none
  | some keyId =>
      let keyIdPrefix := keyId.toUri.take 4
      if keyIdPrefix ≠ ['k', 's', 'k', '-'] ∧ keyIdPrefix ≠ ['d', 's', 'k', '-'] then .ok none
      else
        match certificateName keyName signingIdentity certPrefix (toUnixTimestamp now) with
        | none => .ok none
        | some certName => do
            let publicKeyName ←
              (IdentityCertificate.publicKeyNameOf certName).mapError Thrown.error
            let described :=
              if subjectDescription.isEmpty then
                [⟨attributeName, (keyName.getPrefix (-1)).toUri⟩]
              else subjectDescription
            return some ⟨certName, publicKeyName, notBefore, notAfter, publicKey, described⟩

/-- `KeyChain::prepareUnsignedIdentityCertificate`, of a key in the PIB -/
def prepareUnsignedIdentityCertificate (keyStore : KeyStore) (keyName signingIdentity : Name)
    (notBefore notAfter : ℤ) (subjectDescription : List SubjectDescription) (certPrefix : Name)
    (now : ℕ) : Except Thrown (Option NewCertificate) := do
  match ← keyStore.getPublicKey keyName with
  | none => return none
  | some publicKey =>
      prepareUnsigned keyName publicKey signingIdentity notBefore notAfter subjectDescription
        certPrefix now

/-- `KeyChain::selfSign(IdentityCertificate&)`, up to the signature -/
def selfSignCertificate (keyStore : KeyStore) (certificate : NewCertificate) :
    Except Thrown Unit :=
  if !keyStore.doesPrivateKeyExist certificate.publicKeyName then
    .error (.other "Private key does not exist")
  else .ok ()

/-- `KeyChain::selfSign`, with the readings of the clock for the version and the two times -/
def selfSign (keyStore : KeyStore) (keyName : Name) (now nowNotBefore nowNotAfter : ℕ) :
    Except Thrown (Option NewCertificate) := do
  match ← keyStore.getPublicKey keyName with
  | none => return none
  | some publicKey =>
      match keyName.get (-1) with
      -- an access outside of the name
      | none => throw (.other "out of bounds")
      | some keyId =>
          let certificateName := keyName.getPrefix (-1) ++ [keyComponent] ++ [keyId] ++
            [idCertComponent, .fromVersion (toUnixTimestamp now)]
          let publicKeyName ←
            (IdentityCertificate.publicKeyNameOf certificateName).mapError Thrown.error
          let certificate : NewCertificate :=
            ⟨certificateName, publicKeyName, nowNotBefore,
              nowNotAfter + 7300 * 24 * 3600 * 10 ^ 9, publicKey, [⟨attributeName, keyName.toUri⟩]⟩
          selfSignCertificate keyStore certificate
          return some certificate

/-! ## The words -/

def isKey (component : Component) : Bool := component.toUri = ['K', 'E', 'Y']

def isIdCert (component : Component) : Bool :=
  component.toUri = ['I', 'D', '-', 'C', 'E', 'R', 'T']

theorem certificateNameToPublicKeyName_eq (name : Name) :
    certificateNameToPublicKeyName name =
      match MarkedList.payload isKey isIdCert name with
      | none => .error
          ⟨.identityCertificate, "Incorrect identity certificate name " ++ name.toUri⟩
      | some keyName => .ok keyName := by
  unfold certificateNameToPublicKeyName MarkedList.payload isKey isIdCert
  cases name.reverse.findIdx? _ with
  | none => rfl
  | some fromEnd =>
    dsimp only
    cases (name.take (name.length - 1 - fromEnd)).findIdx? _ <;> rfl

variable {name : Name}

theorem certificateNameToPublicKeyName_eq_ok_iff {keyName : Name} :
    certificateNameToPublicKeyName name = .ok keyName ↔
      MarkedList.payload isKey isIdCert name = some keyName := by
  rw [certificateNameToPublicKeyName_eq]
  cases MarkedList.payload isKey isIdCert name <;> simp

theorem isCorrectName_iff :
    IdentityCertificate.isCorrectName name = true ↔
      (∃ component ∈ name, isIdCert component = true) ∧ ∃ component ∈ name, isKey component = true := by
  simp [IdentityCertificate.isCorrectName, isIdCert, isKey]

/-- Whatever prints as `KEY` has the bytes of `KEY`. -/
theorem value_of_isKey {component : Component} (hkey : isKey component = true) :
    component.value = keyComponent.value := by
  have htext : component.toUri = keyComponent.toUri :=
    (of_decide_eq_true hkey).trans (by decide)
  have hgeneric : component.toUri = (Component.generic component.value).toUri := by
    by_cases htype : component.type = Tlv.implicitSha256DigestComponent
    · -- a digest prints with its own beginning
      have hdigest : component.toUri =
          Component.sha256DigestUriPrefix ++ component.value.flatMap (Component.hexByte false) := by
        simp [Component.toUri, htype]
      rw [hdigest] at htext
      have hhead : ('s' : Char) = 'K' := (List.cons_eq_cons.mp htext).1
      exact absurd hhead (by decide)
    · have hplain : (component.type == Tlv.implicitSha256DigestComponent) = false := by
        simpa using htype
      rw [Component.toUri, Component.toUri, hplain]
      rfl
  have hread : (.ok (Component.generic component.value) : Except Error Component) =
      .ok keyComponent := by
    calc _ = Component.fromEscapedString (Component.generic component.value).toUri :=
          (Component.fromEscapedString_toUri_of_generic rfl).symm
      _ = Component.fromEscapedString keyComponent.toUri := by rw [← hgeneric, htext]
      _ = _ := Component.fromEscapedString_toUri_of_generic rfl
  have hsame : Component.generic component.value = keyComponent := Except.ok.inj hread
  calc component.value = (Component.generic component.value).value := rfl
    _ = keyComponent.value := by rw [hsame]

theorem isKey_keyComponent : isKey keyComponent = true := by decide

theorem isIdCert_idCertComponent : isIdCert idCertComponent = true := by decide

theorem isIdCert_fromVersion (version : ℕ) : isIdCert (.fromVersion version) = false := by
  have htext : (Component.fromVersion version).toUri =
      '%' :: (Component.hexByte true 0xfd ++
        (Tlv.prependNonNegativeInteger version).flatMap Component.escapeByte) := rfl
  simp [isIdCert, htext]

theorem isSome_payload_of_ok :
    (∃ keyName, certificateNameToPublicKeyName name = .ok keyName) ↔
      (MarkedList.payload isKey isIdCert name).isSome = true := by
  rw [Option.isSome_iff_exists]
  exact exists_congr fun keyName ↦ certificateNameToPublicKeyName_eq_ok_iff

/-- The two searches agree on a name unless it has both words and yet no `KEY` in front of an
`ID-CERT`. -/
theorem isCorrectName_iff_ok_iff :
    (IdentityCertificate.isCorrectName name = true ↔
      ∃ keyName, certificateNameToPublicKeyName name = .ok keyName) ↔
      ((∃ component ∈ name, isIdCert component = true) →
        (∃ component ∈ name, isKey component = true) →
        ∃ key idCert, isKey key = true ∧ isIdCert idCert = true ∧
          [key, idCert].Sublist name) := by
  rw [isSome_payload_of_ok, MarkedList.isSome_payload_iff, isCorrectName_iff]
  constructor
  · intro hagree hidCert hkey
    exact hagree.mp ⟨hidCert, hkey⟩
  · intro hordered
    refine ⟨fun ⟨hidCert, hkey⟩ ↦ hordered hidCert hkey, ?_⟩
    rintro ⟨key, idCert, hkey, hidCert, hsublist⟩
    exact ⟨⟨idCert, hsublist.subset (by simp), hidCert⟩, ⟨key, hsublist.subset (by simp), hkey⟩⟩

/-! ## Reading back -/

variable {keyId : Component}

section ReadBack

variable {front back : Name} {version : ℕ}

/-- The key name of a new certificate name: the words and the version are taken off, the first `KEY`
wherever it stands. -/
theorem publicKeyNameOf_marked (front back : Name) (version : ℕ) :
    IdentityCertificate.publicKeyNameOf
        (front ++ [keyComponent] ++ back ++ [idCertComponent, .fromVersion version]) =
      .ok ((front ++ keyComponent :: back).eraseP isKey) := by
  have hsplit : front ++ [keyComponent] ++ back ++ [idCertComponent, .fromVersion version] =
      (front ++ keyComponent :: back) ++ idCertComponent :: [.fromVersion version] := by simp
  have hany : (front ++ keyComponent :: back).any isKey = true :=
    List.any_eq_true.mpr ⟨keyComponent, by simp, isKey_keyComponent⟩
  have hpayload : MarkedList.payload isKey isIdCert
      ((front ++ keyComponent :: back) ++ idCertComponent :: [.fromVersion version]) =
        some ((front ++ keyComponent :: back).eraseP isKey) := by
    rw [MarkedList.payload_append_cons isIdCert_idCertComponent (by simp [isIdCert_fromVersion]),
      if_pos hany]
  have hcorrect : IdentityCertificate.isCorrectName
      ((front ++ keyComponent :: back) ++ idCertComponent :: [.fromVersion version]) = true :=
    isCorrectName_iff.mpr ⟨⟨idCertComponent, by simp, isIdCert_idCertComponent⟩,
      ⟨keyComponent, by simp, isKey_keyComponent⟩⟩
  rw [hsplit, IdentityCertificate.publicKeyNameOf, hcorrect]
  exact certificateNameToPublicKeyName_eq_ok_iff.mpr hpayload

/-- The name in front of the inserted `KEY` holds no word `KEY`, or ends in such words. -/
def HasKeysOnlyAtEnd (front : Name) : Prop :=
  ∀ component ∈ front.dropWhile (fun component ↦ !isKey component),
    component.value = keyComponent.value

instance : DecidablePred HasKeysOnlyAtEnd := fun front ↦
  inferInstanceAs (Decidable (∀ component ∈ front.dropWhile _, component.value = _))

variable {keyName : Name}

theorem equals_eraseP_iff (hkeyName : (front ++ back).equals keyName = true) :
    Name.equals ((front ++ keyComponent :: back).eraseP isKey) keyName = true ↔
      HasKeysOnlyAtEnd front := by
  rw [Name.equals_iff, ← Name.equals_iff.mp hkeyName,
    MarkedList.map_eraseP_insert_iff isKey Component.value isKey_keyComponent front back
      fun component hkey ↦ value_of_isKey hkey]
  rfl

theorem equals_append_getSubName (hprefixed : front.isPrefixOf keyName = true) :
    (front ++ keyName.getSubName front.length).equals keyName = true := by
  obtain ⟨rest, hrest⟩ := Name.isPrefixOf_iff.mp hprefixed
  have hdrop : (keyName.drop front.length).map Component.value = rest := by
    have hlength : front.length = (front.map Component.value).length := (List.length_map _).symm
    rw [List.map_drop, ← hrest, hlength, List.drop_left]
  rw [Name.equals_iff, List.map_append, Name.getSubName, hdrop, hrest]

theorem append_get_last (hlast : keyName.get (-1) = some keyId) :
    keyName.getPrefix (-1) ++ [keyId] = keyName := by
  rcases List.eq_nil_or_concat keyName with rfl | ⟨front, last, rfl⟩
  · simp [Name.get] at hlast
  · rw [List.concat_eq_append, Name.get_append_singleton] at hlast
    cases hlast
    rw [List.concat_eq_append, Name.getPrefix_append_singleton]

end ReadBack

/-- What stands in front of the inserted `KEY`. -/
def nameBeforeKey (keyName signingIdentity certPrefix : Name) : Name :=
  if certPrefix.equals defaultPrefixName then
    if signingIdentity.isPrefixOf keyName then signingIdentity else keyName.getPrefix (-1)
  else certPrefix

section Builders

variable {keyName signingIdentity certPrefix : Name} {publicKey : PublicKeyInfo}
  {notBefore notAfter : ℤ} {subjectDescription : List SubjectDescription} {now : ℕ}
  {keyStore : KeyStore} {certificate : NewCertificate}

theorem exists_of_certificateName {version : ℕ} (hlast : keyName.get (-1) = some keyId)
    (hname : certificateName keyName signingIdentity certPrefix version = some name) :
    ∃ back, name = nameBeforeKey keyName signingIdentity certPrefix ++ [keyComponent] ++ back ++
        [idCertComponent, .fromVersion version] ∧
      (nameBeforeKey keyName signingIdentity certPrefix ++ back).equals keyName = true := by
  unfold certificateName at hname
  unfold nameBeforeKey
  split_ifs at hname ⊢ with hdefault hsigning hsupplied
  · cases hname
    exact ⟨_, rfl, equals_append_getSubName hsigning⟩
  · cases hname
    refine ⟨_, rfl, ?_⟩
    rw [hlast]
    exact Name.equals_iff.mpr (congrArg _ (append_get_last hlast))
  · cases hname
    rw [Bool.and_eq_true] at hsupplied
    exact ⟨_, rfl, equals_append_getSubName hsupplied.1⟩

/-- A key name is read back from what `prepareUnsignedIdentityCertificate` makes of it exactly when
the name in front of the inserted `KEY` has no such word before its end. -/
theorem equals_of_prepareUnsigned
    (hbuilt : prepareUnsigned keyName publicKey signingIdentity notBefore notAfter
      subjectDescription certPrefix now = .ok (some certificate)) :
    certificate.publicKeyName.equals keyName = true ↔
      HasKeysOnlyAtEnd (nameBeforeKey keyName signingIdentity certPrefix) := by
  unfold prepareUnsigned at hbuilt
  cases hlast : keyName.get (-1) with
  | none => simp [hlast] at hbuilt
  | some keyId =>
    simp only [hlast] at hbuilt
    by_cases hkind : keyId.toUri.take 4 ≠ ['k', 's', 'k', '-'] ∧
        keyId.toUri.take 4 ≠ ['d', 's', 'k', '-']
    · rw [if_pos hkind] at hbuilt
      cases hbuilt
    · rw [if_neg hkind] at hbuilt
      cases hname : certificateName keyName signingIdentity certPrefix (toUnixTimestamp now) with
      | none => simp [hname] at hbuilt
      | some name =>
        obtain ⟨back, rfl, hback⟩ := exists_of_certificateName hlast hname
        simp only [hname, publicKeyNameOf_marked] at hbuilt
        cases hbuilt
        exact equals_eraseP_iff hback

theorem equals_of_selfSign {nowNotBefore nowNotAfter : ℕ}
    (hbuilt : selfSign keyStore keyName now nowNotBefore nowNotAfter = .ok (some certificate)) :
    certificate.publicKeyName.equals keyName = true ↔ HasKeysOnlyAtEnd (keyName.getPrefix (-1)) := by
  obtain ⟨found, -, hbuilt⟩ := bind_eq_ok_iff.mp hbuilt
  cases found with
  | none => cases hbuilt
  | some publicKey =>
    cases hlast : keyName.get (-1) with
    | none => simp [hlast, throw, throwThe, MonadExceptOf.throw] at hbuilt
    | some keyId =>
      simp only [hlast, publicKeyNameOf_marked] at hbuilt
      obtain ⟨_, hread, hbuilt⟩ := bind_eq_ok_iff.mp hbuilt
      cases hread
      obtain ⟨-, -, hbuilt⟩ := bind_eq_ok_iff.mp hbuilt
      cases hbuilt
      exact equals_eraseP_iff (Name.equals_iff.mpr (congrArg _ (append_get_last hlast)))

end Builders

theorem readsBack_iff (name keyName signingIdentity certPrefix : Name) :
    ((IdentityCertificate.isCorrectName name = true ↔
        ∃ keyName, certificateNameToPublicKeyName name = .ok keyName) ↔
        ((∃ component ∈ name, isIdCert component = true) →
          (∃ component ∈ name, isKey component = true) →
          ∃ key idCert, isKey key = true ∧ isIdCert idCert = true ∧
            [key, idCert].Sublist name)) ∧
    (∀ (publicKey : PublicKeyInfo) (notBefore notAfter : ℤ)
        (subjectDescription : List SubjectDescription) (now : ℕ) (certificate : NewCertificate),
      prepareUnsigned keyName publicKey signingIdentity notBefore notAfter subjectDescription
          certPrefix now = .ok (some certificate) →
        (certificate.publicKeyName.equals keyName = true ↔
          HasKeysOnlyAtEnd (nameBeforeKey keyName signingIdentity certPrefix))) ∧
    (∀ (keyStore : KeyStore) (notBefore notAfter : ℤ)
        (subjectDescription : List SubjectDescription) (now : ℕ) (certificate : NewCertificate),
      prepareUnsignedIdentityCertificate keyStore keyName signingIdentity notBefore notAfter
          subjectDescription certPrefix now = .ok (some certificate) →
        (certificate.publicKeyName.equals keyName = true ↔
          HasKeysOnlyAtEnd (nameBeforeKey keyName signingIdentity certPrefix))) ∧
    (∀ (keyStore : KeyStore) (now nowNotBefore nowNotAfter : ℕ) (certificate : NewCertificate),
      selfSign keyStore keyName now nowNotBefore nowNotAfter = .ok (some certificate) →
        (certificate.publicKeyName.equals keyName = true ↔
          HasKeysOnlyAtEnd (keyName.getPrefix (-1)))) := by
  refine ⟨isCorrectName_iff_ok_iff, ?_, ?_, ?_⟩
  · intro publicKey notBefore notAfter subjectDescription now certificate hbuilt
    exact equals_of_prepareUnsigned hbuilt
  · intro keyStore notBefore notAfter subjectDescription now certificate hbuilt
    obtain ⟨found, -, hbuilt⟩ := bind_eq_ok_iff.mp hbuilt
    cases found with
    | none => cases hbuilt
    | some publicKey => exact equals_of_prepareUnsigned hbuilt
  · intro keyStore now nowNotBefore nowNotAfter certificate hbuilt
    exact equals_of_selfSign hbuilt

def KeyStore.sample : KeyStore :=
  ⟨fun _ ↦ .ok (some ⟨.rsa, [0x01]⟩), fun _ ↦ true⟩

def sampleKeyId : Component := .generic [0x6b, 0x73, 0x6b, 0x2d, 0x31]

theorem readsBack_iff_ksk :
    (∃ certificate, selfSign .sample [keyComponent, sampleKeyId] 5 6 7 = .ok (some certificate) ∧
      certificate.publicKeyName.equals [keyComponent, sampleKeyId] = true) ∧
    ∃ certificate, prepareUnsignedIdentityCertificate .sample [keyComponent, sampleKeyId] [] 6 7 []
        defaultPrefixName 5 = .ok (some certificate) ∧
      certificate.publicKeyName.equals [keyComponent, sampleKeyId] = true :=
  ⟨⟨_, rfl, ((readsBack_iff [] [keyComponent, sampleKeyId] [] []).2.2.2 .sample 5 6 7 _ rfl).mpr
      (by decide)⟩,
    ⟨_, rfl, ((readsBack_iff [] [keyComponent, sampleKeyId] [] defaultPrefixName).2.2.1 .sample 6 7
      [] 5 _ rfl).mpr (by decide)⟩⟩

/-- `/ID-CERT/KEY` is called correct but has no key name, and the certificate of `/KEY/a/ksk-1`, made
for the identity `/KEY/a`, gives `/a/KEY/ksk-1`. -/
theorem not_readsBack_marker_words :
    (IdentityCertificate.isCorrectName [idCertComponent, keyComponent] = true ∧
      ¬∃ keyName,
        certificateNameToPublicKeyName [idCertComponent, keyComponent] = .ok keyName) ∧
    ∃ certificate,
      prepareUnsigned [keyComponent, .generic [0x61], sampleKeyId] ⟨.rsa, [0x01]⟩
          [keyComponent, .generic [0x61]] 6 7 [] defaultPrefixName 5 = .ok (some certificate) ∧
        certificate.publicKeyName = [.generic [0x61], keyComponent, sampleKeyId] ∧
        certificate.publicKeyName.equals [keyComponent, .generic [0x61], sampleKeyId] = false := by
  refine ⟨⟨by decide, ?_⟩, _, rfl, by decide, by decide⟩
  rw [isSome_payload_of_ok]
  decide

end KeyChain

end NdnCxx
