import NdnCxx.Security.KeyChainRuns

/-!
# What a key chain keeps, signs and deletes

Whatever was called before, the keys of the PIB sign, and a packet that is signed with a certificate
is verified under it by whoever receives the packet. An identity is created once, and it is deleted
with the files of its keys and no others.
-/

namespace NdnCxx

open Validation (PublicKeyInfo)

namespace KeyChain.Stores

open SecPublicInfo MarkedTable Throwing

variable {library : KeyLibrary} (sha256 : Bytes → Bytes) {stores : Stores}

/-! ## Receiving -/

/-- `Validator::verifySignature(const Data&, const PublicKey&)`; of the signature information only
its type is read. -/
def verifySignature (library : SignatureLibrary) (data : Packet.Data) (key : Option PublicKeyInfo) :
    Except Error Bool :=
  if !data.signature.info.hasKeyLocator then .ok false
  else do
    let (_, encoded) ← data.wireEncode
    let buffer ← data.verifiedBytes
    let value ← encoded.signature.value.encode
    let type := (encoded.signature.info.type % 2 ^ 32).toNat
    return InterestSignature.verifyBuffer library buffer ⟨type, none, []⟩ value key

/-- The packet with this signature information can be written and read again. -/
structure IsSendable (data : Packet.Data) (info : Packet.SignatureInfo) (content : Block) :
    Prop where
  isMadeOf : (data.setSignature { info := info }).IsMadeOf content info.toBlock
  isEncodable : info.IsEncodable
  size : ((data.unsignedElements content info.toBlock).flatMap Block.wire).length < 2 ^ 63

/-- Whoever decodes the signed packet finds the name, the content and the name of the certificate in
it, and its signature verifies under the certificate. -/
def IsVerified (library : SignatureLibrary) (data signed : Packet.Data)
    (certificate : SecPublicInfo.Certificate) : Prop :=
  ∃ packet block, signed.wire = some packet ∧ Block.fromWire packet = .ok block ∧
    ∀ fresh : Packet.Data, ∃ received keyLocator, fresh.wireDecode block = .ok received ∧
      received.name = data.name ∧ received.getContent = data.getContent ∧
      received.signature.info.getKeyLocator = .ok keyLocator ∧
      keyLocator.getName = .ok (certificate.name.getPrefix (-1)) ∧
      verifySignature library received (some certificate.publicKeyInfo) = .ok true

variable {publicKey : PublicKeyInfo} {message : Bytes} {params : SigningInfo}

theorem verifyBuffer_of_verifies {value : Block}
    (hverifies : library.verifies publicKey message value.value = true) :
    InterestSignature.verifyBuffer library.toSignatureLibrary message
      ⟨((getSignatureType publicKey.keyType : ℤ) % 2 ^ 32).toNat, none, []⟩ value
      (some publicKey) = true := by
  obtain ⟨keyType, key⟩ := publicKey
  cases keyType with
  | rsa => exact hverifies
  | ecdsa => exact hverifies

theorem verifySignature_of_wire {received : Packet.Data} {block value : Block}
    (hstored : received.wire = some block.wire) (hblock : Block.fromWire block.wire = .ok block)
    (hkeyLocator : received.signature.info.hasKeyLocator = true)
    (htype : received.signature.info.type = getSignatureType publicKey.keyType)
    (hvalue : received.signature.value.encode = .ok value)
    (hbytes : block.value.take (block.value.length - value.size) = message)
    (hverifies : library.verifies publicKey message value.value = true) :
    verifySignature library.toSignatureLibrary received (some publicKey) = .ok true := by
  have hencode : received.wireEncode = .ok (block.wire, received) := by
    have hcode : Packet.Data.codes.stored received = some block.wire := hstored
    simp only [Packet.Data.wireEncode, CodeStore.recallCode, hcode]
  rw [verifySignature, hkeyLocator, if_neg (by simp)]
  simp only [hencode, Packet.Data.verifiedBytes_of_wire hstored hblock hvalue hbytes, hvalue, htype,
    bind, Except.bind, pure, Except.pure]
  exact congrArg Except.ok (verifyBuffer_of_verifies hverifies)

variable {bytes : Bytes}

theorem isSignatureValue_of_length_lt (hlength : bytes.length < 2 ^ 16) :
    Packet.Data.IsSignatureValue (Block.ofValue Tlv.signatureValue bytes) := by
  refine ⟨rfl, Block.ofValue_isWire (by decide) (hlength.trans (by decide)), ?_⟩
  have hheader := Tlv.sizeOfVarNumber_le Tlv.signatureValue
  have hsizes := Tlv.sizeOfVarNumber_le bytes.length
  rw [Block.length_wire_ofValue]
  omega

/-- The verifier takes the signed bytes out of the packet again. -/
theorem isVerified_of_isSignedPortion {data signed : Packet.Data}
    {certificate : SecPublicInfo.Certificate} {content : Block}
    (hsigned : IsSignedPortion data (signatureInfoOf params (some certificate)).2
      ⟨Tlv.signatureValue, .value bytes, []⟩ signed message) (hlength : bytes.length < 2 ^ 16)
    (hverifies : library.verifies certificate.publicKeyInfo message bytes = true)
    (hsendable : IsSendable data (signatureInfoOf params (some certificate)).2 content) :
    IsVerified library.toSignatureLibrary data signed certificate := by
  obtain ⟨count, encoder, rfl, hencode, hsend⟩ := hsigned
  obtain ⟨hparts, hinfo, hsize⟩ := hsendable
  have hdecoded := Packet.SignatureInfo.wireDecode_toBlock {} hinfo
    (hparts.info_fits.trans (by decide))
  obtain ⟨_, unsigned, hunsigned, hcontent⟩ := Packet.Data.exists_unsigned hparts
    (by decide : (Encoder.make 8800 400).content = [])
  obtain ⟨-, rfl⟩ := Prod.mk.inj (Except.ok.inj (hencode.symm.trans hunsigned))
  have hvalue := isSignatureValue_of_length_lt hlength
  obtain ⟨hfits, hblock, hmade, htake⟩ := Packet.Data.wireEncodeSigned_eq_wireDecode
    ⟨Tlv.signatureValue, .value bytes, []⟩ hvalue hcontent hsize rfl
  have hread := Packet.Data.wireDecode_signedBlock hparts hvalue hfits hdecoded
  generalize Packet.Data.signedBlock _ content _ _ = block at hblock hmade htake hread
  obtain rfl := Except.ok.inj ((hread _).symm.trans (hmade.symm.trans hsend))
  refine ⟨_, _, rfl, hblock, fun fresh ↦ ⟨_, _, hread fresh, rfl, ?_, rfl, rfl, ?_⟩⟩
  · have hset : content.type ≠ 2 ^ 32 - 1 := by
      rw [hparts.content_type]
      decide
    exact (if_neg hset).trans hparts.content_eq.symm
  · exact verifySignature_of_wire rfl hblock rfl rfl rfl htake hverifies

/-! ## After a run -/

/-- The TPM signs any message for the key, and the signature verifies. -/
def Signs (library : KeyLibrary) (stores : Stores) (keyName : Name) (publicKey : PublicKeyInfo) :
    Prop :=
  ∀ message random, ∃ signature, stores.tpm.signInTpm library message keyName random =
      .ok ⟨Tlv.signatureValue, .value signature, []⟩ ∧
    library.verifies publicKey message signature = true

theorem IsBacked.signs (hstores : stores.IsBacked library) {keyName : Name}
    (hholds : stores.tpm.Holds keyName.toUri publicKey) :
    stores.Signs library keyName publicKey := by
  intro message random
  obtain ⟨signature, hsign, -, hverifies⟩ :=
    SecTpm.signInTpm_of_holds hstores.isPaired hholds message random
  exact ⟨signature, hsign, hverifies⟩

/-- A packet that is signed is verified by whoever receives it, under a certificate of the PIB,
unless the key has the name of the digest. -/
def SignsVerifiably (library : KeyLibrary) (stores : Stores) (params : SigningInfo)
    (data : Packet.Data) (readings : Readings) : Prop :=
  Ends (fun signed next ↦ ∃ certificate, IsStored certificate next ∧
      (certificate.publicKeyName.equals digestSha256Identity = false →
        ∀ content, IsSendable data (signatureInfoOf params (some certificate)).2 content →
          IsVerified library.toSignatureLibrary data signed certificate))
    (fun exception _ ↦ exception ≠ .undefined)
    ((sign library sha256 data params readings).run stores)

section After

variable (hlibrary : library.IsSound) {start finish : Stores} (hstart : start.IsBacked library)
  {events : List Event} (hguarded : Run.Guarded (step sha256 library) Allows start events)
  (hrun : Run.run (step sha256 library) start events = some finish)
include hlibrary hstart hguarded hrun

/-- The keys that the PIB returns, and those in its certificates, can be used. -/
theorem signs_of_run :
    (∀ keyName publicKey, finish.pib.getPublicKey keyName = .ok publicKey →
      finish.Signs library keyName publicKey) ∧
    ∀ certName certificate, finish.pib.getCertificate certName = .ok certificate →
      finish.Signs library certificate.publicKeyName certificate.publicKeyInfo := by
  have hfinish := isBacked_of_run sha256 hlibrary hstart hguarded hrun
  constructor
  · intro keyName publicKey hread
    obtain ⟨-, -, -, hholds⟩ := hfinish.pib.getPublicKey_eq_ok_iff.mp hread
    exact hfinish.signs hholds
  · intro certName certificate hread
    obtain ⟨row, hrow, rfl⟩ := isStored_of_getCertificate hread
    exact hfinish.signs (hfinish.pib.holds_of_certificate hrow)

theorem isVerified_of_run (hcertified : params.signerType ≠ .sha256) (hcan : finish.CanSign params)
    (data : Packet.Data) (readings : Readings) :
    finish.SignsVerifiably sha256 library params data readings := by
  have hfinish := isBacked_of_run sha256 hlibrary hstart hguarded hrun
  refine (sign_spec sha256 hlibrary hfinish hcan data readings).weaken ?_ fun _ _ h ↦ h.1
  rintro signed next ⟨-, info, value, message, hsigned, bytes, found, rfl, rfl, hfound⟩
  cases found with
  | none => exact absurd hfound.1 hcertified
  | some certificate =>
    obtain ⟨hstored, hvalue⟩ := hfound
    refine ⟨certificate, hstored, fun hother content hsendable ↦ ?_⟩
    rw [if_neg (by simp [hother])] at hvalue
    exact isVerified_of_isSignedPortion hsigned hvalue.1 hvalue.2 hsendable

end After

def echoLibrary : KeyLibrary where
  verifyRsa _ message signature := some (signature == message.take 256)
  verifyEcdsa _ message signature := some (signature == message.take 256)
  generate _ _ _ := .ok ([1], [2])
  sign _ _ message _ := .ok (message.take 256)

theorem isSound_echoLibrary : echoLibrary.IsSound := by
  intro keyType keySize random privateKey publicKey hmade message random'
  refine ⟨message.take 256, rfl, ?_, ?_⟩
  · rw [List.length_take]
    omega
  · cases keyType <;> simp [KeyLibrary.verifies, echoLibrary]

def sampleReadings : Readings := ⟨0, 0, 1, 0, 2, fun _ ↦ [], [], 0⟩

def samplePacket : Packet.Data where
  name := [.generic [0x61], .generic [0x62]]
  metaInfo := { freshnessPeriod := 1000 }
  content := ⟨Tlv.content, .value [1, 2], []⟩

def generating : List Event := [.createIdentity [.generic [0x61]] (.rsa 2048) sampleReadings]

def generated : Stores :=
  (Run.run (step (List.take 32) echoLibrary) initial generating).get (by decide +kernel)

theorem run_generating :
    Run.run (step (List.take 32) echoLibrary) initial generating = some generated :=
  (Option.some_get _).symm

theorem isValid_sample : ∀ component ∈ ([.generic [0x61]] : Name), component.IsValid := by decide

theorem hasKeysOnlyAtEnd_sample : HasKeysOnlyAtEnd [.generic [0x61]] := by decide

theorem guarded_generating :
    Run.Guarded (step (List.take 32) echoLibrary) Allows initial generating :=
  ⟨⟨isValid_sample, hasKeysOnlyAtEnd_sample⟩, fun _ _ ↦ trivial⟩

theorem signs_of_run_generating :
    (∀ keyName publicKey, generated.pib.getPublicKey keyName = .ok publicKey →
      generated.Signs echoLibrary keyName publicKey) ∧
    ∀ certName certificate, generated.pib.getCertificate certName = .ok certificate →
      generated.Signs echoLibrary certificate.publicKeyName certificate.publicKeyInfo :=
  signs_of_run _ isSound_echoLibrary isBacked_initial guarded_generating run_generating

theorem isVerified_of_run_generating :
    generated.SignsVerifiably (List.take 32) echoLibrary ⟨.id, [.generic [0x61]], {}⟩ samplePacket
      sampleReadings := by
  have hcan : generated.CanSign ⟨.id, [.generic [0x61]], {}⟩ :=
    ⟨isValid_sample, hasKeysOnlyAtEnd_sample⟩
  exact isVerified_of_run _ isSound_echoLibrary isBacked_initial guarded_generating run_generating
    (by decide) hcan _ _

/-! ## Creating and deleting -/

/-- An identity is created once: the second call returns the same certificate and changes nothing.
Of a call that fails only the identity is left. -/
def CreatesOnce (library : KeyLibrary) (stores : Stores) (identityName : Name) (params : KeyParams)
    (readings : Readings) : Prop :=
  Ends (fun certName next ↦ next.IsBacked library ∧ next.IsSetUp identityName params certName ∧
      ∀ later, (createIdentity library sha256 identityName params later).run next =
        .ok certName next)
    (fun exception next ↦ next.IsBacked library ∧ exception ≠ .undefined ∧
      next.pib = stores.pib.addIdentity identityName)
    ((createIdentity library sha256 identityName params readings).run stores)

theorem createIdentity_once (hlibrary : library.IsSound) (hstores : stores.IsBacked library)
    {identityName : Name} (hvalid : ∀ component ∈ identityName, component.IsValid)
    (hkeys : HasKeysOnlyAtEnd identityName) (params : KeyParams) (readings : Readings) :
    stores.CreatesOnce sha256 library identityName params readings := by
  refine (createIdentity_spec sha256 hlibrary hstores hvalid hkeys params readings).weaken ?_ ?_
  · rintro certName next ⟨hnext, -, -, hsetUp⟩
    exact ⟨hnext, hsetUp, run_createIdentity_of_isSetUp sha256 hnext hsetUp⟩
  · rintro exception next ⟨hnext, -, hpib, herror⟩
    exact ⟨hnext, (EndsDefined.of_isStoreError herror hnext).1, hpib⟩

theorem createIdentity_once_initial :
    initial.CreatesOnce (List.take 32) echoLibrary [.generic [0x61]] (.ecdsa 384) sampleReadings :=
  createIdentity_once _ isSound_echoLibrary isBacked_initial isValid_sample hasKeysOnlyAtEnd_sample
    _ _

/-- Deleting an identity deletes the files of the keys that the PIB has for it, and no others. -/
def DeletesExactly (library : KeyLibrary) (stores : Stores) (identity : Name) : Prop :=
  Ends (fun _ next ↦ next.IsBacked library ∧ next.pib.doesIdentityExist identity = false ∧
      ∀ keyName publicKey, next.tpm.getPublicKeyFromTpm keyName = .ok publicKey ↔
        stores.tpm.getPublicKeyFromTpm keyName = .ok publicKey ∧
          ¬ (stores.pib.doesPublicKeyExist keyName = .ok true ∧
            (keyName.getPrefix (-1)).toUri = identity.toUri))
    (fun _ _ ↦ False) ((deleteIdentity identity).run stores)

theorem deletesExactly (hstores : stores.IsBacked library) {identity : Name}
    (hvalid : ∀ component ∈ identity, component.IsValid) :
    stores.DeletesExactly library identity := by
  refine (deleteIdentity_spec hstores hvalid).weaken ?_ fun _ _ h ↦ h
  rintro - next ⟨hnext, hregistry, hholds⟩
  have hanswers := hnext.pib.isIntegral.answers hnext.pib.hasNames
  refine ⟨hnext, Bool.eq_false_iff.mpr fun hexists ↦ ?_, fun keyName publicKey ↦ ?_⟩
  · rw [hanswers.doesIdentityExist, hregistry] at hexists
    exact hexists.2 rfl
  · rw [SecTpm.getPublicKeyFromTpm_eq_ok_iff, SecTpm.getPublicKeyFromTpm_eq_ok_iff, hholds,
      (hstores.pib.isIntegral.answers hstores.pib.hasNames).doesPublicKeyExist]
    refine and_congr_right fun _ ↦ ⟨?_, ?_⟩
    · rintro hkept ⟨⟨columns, hmem, hcolumns⟩, hidentity⟩
      refine hkept columns hmem ?_ (keyUri_of_keyColumns hcolumns)
      obtain ⟨keyId, -, rfl⟩ := Option.map_eq_some_iff.mp hcolumns
      exact hidentity
    · intro hnot columns hmem hidentity huri
      have hcolumns := hstores.pib.keyColumns_of_keyUri_eq hmem huri
      refine hnot ⟨⟨columns, hmem, hcolumns⟩, ?_⟩
      obtain ⟨keyId, -, rfl⟩ := Option.map_eq_some_iff.mp hcolumns
      exact hidentity

theorem deletesExactly_generating : generated.DeletesExactly echoLibrary [.generic [0x61]] :=
  deletesExactly (isBacked_of_run _ isSound_echoLibrary isBacked_initial guarded_generating
    run_generating) isValid_sample

end KeyChain.Stores

end NdnCxx
