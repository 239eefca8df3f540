import NdnCxx.Packet.InterestState

/-!
# Decoding into an object that was used before

`wireDecode` is called on objects that hold what an earlier packet has left in them. What an object
shows afterwards is meant to depend on the wire alone. Most decoders assign every member, or hide
the ones that they leave. The blocks of applications in MetaInfo, the type-specific TLVs, the
signature value of a packet without one, and the delegations of a link are added to what is there or
left as they are. The tags that are attached to a packet are no part of its wire and stay.
-/

namespace NdnCxx.Packet

/-- Whether a wire is accepted does not depend on the object, and two objects show the same after
decoding an accepted wire just under the condition. -/
def AgreesWhen {Object View : Type} (decode : Object → Block → Except Error Object)
    (observe : Object → View) (condition : Object → Object → Block → Prop) : Prop :=
  ∀ first second wire decoded, decode first wire = .ok decoded →
    ∃ other, decode second wire = .ok other ∧
      (observe decoded = observe other ↔ condition first second wire)

/-- The bytes that a `wireEncode()` returns. -/
def encoding {Object : Type} (result : Except Error (Bytes × Object)) : Except Error Bytes :=
  result.map Prod.fst

/-! ## What the objects show -/

/-- The getters of a key locator and the bytes of `wireEncode()`. -/
def KeyLocator.observed (keyLocator : KeyLocator) :
    Kind × Except Error Name × Except Error Block.Element × Except Error Bytes :=
  (keyLocator.type, keyLocator.getName, keyLocator.getKeyDigest, encoding keyLocator.wireEncode)

/-- The getters of MetaInfo and the bytes of `wireEncode()`. -/
def MetaInfo.observed (metaInfo : MetaInfo) :
    ℕ × ℤ × Component × List Block.Element × (ℕ → Option Block.Element) × Except Error Bytes :=
  (metaInfo.type, metaInfo.freshnessPeriod, metaInfo.finalBlockId, metaInfo.appMetaInfo,
    metaInfo.findAppMetaInfo, encoding metaInfo.wireEncode)

/-- The getters of signature information and the bytes of `wireEncode()`. -/
def SignatureInfo.observed (info : SignatureInfo) :=
  (info.type, info.hasKeyLocator, info.getKeyLocator.map KeyLocator.observed,
    info.getValidityPeriod, info.getTypeSpecificTlv, encoding info.wireEncode)

namespace Data

/-- `Data::getFullName`; `none` is the exception for a packet without a wire. -/
def getFullName (sha256 : Bytes → Bytes) (data : Data) : Option Name :=
  if data.fullName.isEmpty then
    data.wire.map fun wire ↦ data.name ++ [⟨Tlv.implicitSha256DigestComponent, sha256 wire⟩]
  else some data.fullName

/-- The getters of a Data packet, with those of the objects they return, and the bytes of
`wireEncode()`. -/
def observed (sha256 : Bytes → Bytes) (data : Data) :=
  (data.name, data.getFullName sha256, data.metaInfo.observed, data.getContent,
    data.signature.info.observed, data.signature.value.encode, encoding data.wireEncode)

end Data

/-- What a link shows as a Data packet, and its delegations. -/
def Link.observed (sha256 : Bytes → Bytes) (link : Link) :=
  (link.data.observed sha256, link.delegations)

/-! ## Tags -/

/-- A packet with what its base class `TagHost` holds: the tags that are attached to it, by the
identifiers of their types -/
structure Tagged (Packet Tag : Type) where
  packet : Packet
  tags : ℕ → Option Tag := fun _ ↦ none

namespace Tagged

variable {Packet Tag View : Type}

def getTag (host : Tagged Packet Tag) (typeId : ℕ) : Option Tag := host.tags typeId

/-- `TagHost::setTag`, where `none` is a null pointer and removes the tag -/
def setTag (host : Tagged Packet Tag) (typeId : ℕ) (tag : Option Tag) : Tagged Packet Tag :=
  { host with tags := Function.update host.tags typeId tag }

/-- The decoder of a packet does not know of the tags. -/
def wireDecode (decode : Packet → Block → Except Error Packet) (host : Tagged Packet Tag)
    (wire : Block) : Except Error (Tagged Packet Tag) :=
  (decode host.packet wire).map fun packet ↦ { host with packet := packet }

/-- What the packet shows, and its tags: `getIncomingFaceId`, `getNextHopFaceId` and
`getCachingPolicy` read nothing else. -/
def observed (observe : Packet → View) (host : Tagged Packet Tag) : View × (ℕ → Option Tag) :=
  (observe host.packet, host.getTag)

/-- Tagged packets show the same when the packets do and the tags were the same. -/
theorem agreesWhen_wireDecode {decode : Packet → Block → Except Error Packet}
    {observe : Packet → View} {condition : Packet → Packet → Block → Prop}
    (hagrees : AgreesWhen decode observe condition) :
    AgreesWhen (wireDecode decode) (observed observe : Tagged Packet Tag → _) fun first second wire ↦
      condition first.packet second.packet wire ∧ first.getTag = second.getTag := by
  intro first second wire decoded hdecode
  cases hpacket : decode first.packet wire with
  | error error =>
    rw [wireDecode, hpacket] at hdecode
    cases hdecode
  | ok packet =>
    rw [wireDecode, hpacket] at hdecode
    cases hdecode
    obtain ⟨other, hother, hshown⟩ := hagrees _ second.packet wire packet hpacket
    refine ⟨{ second with packet := other }, by rw [wireDecode, hother]; rfl, ?_⟩
    simp only [observed, Prod.mk.injEq, hshown]
    rfl

end Tagged

/-! ## Decoders that forget -/

/-- The members of another kind stay, but the getters do not show them. -/
theorem KeyLocator.exists_wireDecode {first decoded : KeyLocator} {wire : Block}
    (second : KeyLocator) (hdecode : first.wireDecode wire = .ok decoded) :
    ∃ other, second.wireDecode wire = .ok other ∧ decoded.observed = other.observed := by
  rw [wireDecode] at hdecode ⊢
  split_ifs at hdecode ⊢ with htype
  obtain ⟨elements, hparse, hdecode⟩ := bind_eq_ok_iff.mp hdecode
  simp only [bind_eq_ok_iff, hparse, Except.ok.injEq, exists_eq_left']
  cases elements with
  | nil =>
    cases hdecode
    exact ⟨_, rfl, rfl⟩
  | cons element later =>
    dsimp only at hdecode ⊢
    split_ifs at hdecode ⊢ with hname hdigest
    · obtain ⟨name, hread, hdecode⟩ := bind_eq_ok_iff.mp hdecode
      cases hdecode
      exact ⟨_, bind_eq_ok_iff.mpr ⟨name, hread, rfl⟩, rfl⟩
    · cases hdecode
      exact ⟨_, rfl, rfl⟩
    · cases hdecode
      exact ⟨_, rfl, rfl⟩

theorem KeyLocator.agreesWhen_wireDecode :
    AgreesWhen KeyLocator.wireDecode KeyLocator.observed fun _ _ _ ↦ True := by
  intro first second wire decoded hdecode
  obtain ⟨other, hother, hsame⟩ := exists_wireDecode second hdecode
  exact ⟨other, hother, iff_of_true hsame trivial⟩

/-- A decoder that does not look at the object. -/
theorem agreesWhen_of_eq {Object : Type} {decode : Object → Block → Except Error Object}
    (hsame : ∀ first second wire, decode first wire = decode second wire) :
    AgreesWhen decode id fun _ _ _ ↦ True := by
  intro first second wire decoded hdecode
  exact ⟨decoded, (hsame second first wire).trans hdecode, iff_of_true rfl trivial⟩

/-! ## Decoders that keep something -/

/-- The blocks of applications are added to those that are there. -/
theorem MetaInfo.agreesWhen_wireDecode :
    AgreesWhen MetaInfo.wireDecode MetaInfo.observed
      fun first second _ ↦ first.appMetaInfo = second.appMetaInfo := by
  intro first second wire decoded hdecode
  rw [wireDecode_eq_map] at hdecode ⊢
  cases hfresh : MetaInfo.wireDecode {} wire with
  | error error =>
    rw [hfresh] at hdecode
    cases hdecode
  | ok fresh =>
    rw [hfresh] at hdecode
    cases hdecode
    refine ⟨_, rfl, ?_⟩
    constructor
    · intro hsame
      have happ : first.appMetaInfo ++ fresh.appMetaInfo =
          second.appMetaInfo ++ fresh.appMetaInfo :=
        congrArg (fun view ↦ view.2.2.2.1) hsame
      exact List.append_cancel_right happ
    · intro happ
      rw [happ]

namespace SignatureInfo

/-- The type-specific TLVs on a wire: what follows the SignatureType and the KeyLocator. -/
def listedTlvs (wire : Block) : List Block.Element :=
  match Block.parse wire.value with
  | .ok (_ :: second :: others) =>
      (if second.type = Tlv.keyLocator then others else second :: others).map Block.toElement
  | _ => []

/-- In front of the TLVs of a wire, the TLVs of both objects have the same first one of each type, and
the same ValidityPeriod as the first one of all. -/
def ShowSameTlvs (first second : SignatureInfo) (wire : Block) : Prop :=
  (∀ type, (first.getTypeSpecificTlv type).or
      ((listedTlvs wire).find? fun block ↦ block.type == type) =
    (second.getTypeSpecificTlv type).or
      ((listedTlvs wire).find? fun block ↦ block.type == type)) ∧
  (first.otherTlvs.head?.or (listedTlvs wire).head?).filter
      (fun block ↦ block.type == Tlv.validityPeriod) =
    (second.otherTlvs.head?.or (listedTlvs wire).head?).filter
      (fun block ↦ block.type == Tlv.validityPeriod)

/-- What decoding shows, apart from the TLVs, is the same for all objects. -/
theorem exists_wireDecode {first decoded : SignatureInfo} {wire : Block} (second : SignatureInfo)
    (hdecode : first.wireDecode wire = .ok decoded) :
    ∃ other, second.wireDecode wire = .ok other ∧
      decoded.otherTlvs = first.otherTlvs ++ listedTlvs wire ∧
      other.otherTlvs = second.otherTlvs ++ listedTlvs wire ∧
      decoded.type = other.type ∧ decoded.hasKeyLocator = other.hasKeyLocator ∧
      decoded.getKeyLocator.map KeyLocator.observed = other.getKeyLocator.map KeyLocator.observed ∧
      encoding decoded.wireEncode = encoding other.wireEncode := by
  obtain ⟨htype, element, rest, type, hparse, hfirst, hread, hcases⟩ :=
    wireDecode_eq_ok_iff.mp hdecode
  rcases hcases with ⟨keyElement, others, keyLocator, rfl, hsecond, hkeyLocator, rfl⟩ | ⟨hnot, rfl⟩
  · obtain ⟨otherLocator, hotherLocator, hshown⟩ :=
      KeyLocator.exists_wireDecode second.keyLocator hkeyLocator
    have hlisted : listedTlvs wire = others.map Block.toElement := by
      simp [listedTlvs, hparse, hsecond]
    refine ⟨_, wireDecode_eq_ok_iff.mpr ⟨htype, element, _, type, hparse, hfirst, hread,
      Or.inl ⟨keyElement, others, otherLocator, rfl, hsecond, hotherLocator, rfl⟩⟩, ?_⟩
    rw [hlisted]
    exact ⟨rfl, rfl, rfl, rfl, congrArg Except.ok hshown, rfl⟩
  · have hlisted : listedTlvs wire = rest.map Block.toElement := by
      cases rest with
      | nil => simp [listedTlvs, hparse]
      | cons keyElement others =>
        have hne : keyElement.type ≠ Tlv.keyLocator := hnot keyElement rfl
        simp [listedTlvs, hparse, hne]
    refine ⟨_, wireDecode_eq_ok_iff.mpr ⟨htype, element, rest, type, hparse, hfirst, hread,
      Or.inr ⟨hnot, rfl⟩⟩, ?_⟩
    rw [hlisted]
    exact ⟨rfl, rfl, rfl, rfl, rfl, rfl⟩

variable {listed : List Block.Element}

theorem getTypeSpecificTlv_append {info prior : SignatureInfo}
    (htlvs : info.otherTlvs = prior.otherTlvs ++ listed) (type : ℕ) :
    info.getTypeSpecificTlv type = (prior.getTypeSpecificTlv type).or
      (listed.find? fun block ↦ block.type == type) := by
  rw [getTypeSpecificTlv, htlvs, List.find?_append]
  rfl

theorem getValidityPeriod_append {info prior : SignatureInfo}
    (htlvs : info.otherTlvs = prior.otherTlvs ++ listed) : info.getValidityPeriod =
      (prior.otherTlvs.head?.or listed.head?).filter
        fun block ↦ block.type == Tlv.validityPeriod := by
  rw [getValidityPeriod, htlvs, List.head?_append]

/-- The type-specific TLVs are added to those that are there. -/
theorem agreesWhen_wireDecode :
    AgreesWhen SignatureInfo.wireDecode SignatureInfo.observed ShowSameTlvs := by
  intro first second wire decoded hdecode
  obtain ⟨other, hother, hdecodedTlvs, hotherTlvs, htype, hhas, hkeyLocator, hencoding⟩ :=
    exists_wireDecode second hdecode
  refine ⟨other, hother, ?_⟩
  have hgetters : decoded.observed = other.observed ↔
      decoded.getValidityPeriod = other.getValidityPeriod ∧
        decoded.getTypeSpecificTlv = other.getTypeSpecificTlv := by
    simp only [observed, Prod.mk.injEq, htype, hhas, hkeyLocator, hencoding, true_and, and_true]
  rw [hgetters, and_comm, ShowSameTlvs, getValidityPeriod_append hdecodedTlvs,
    getValidityPeriod_append hotherTlvs, funext_iff]
  simp only [getTypeSpecificTlv_append hdecodedTlvs, getTypeSpecificTlv_append hotherTlvs]

end SignatureInfo

namespace Data

/-- The same blocks of applications, and the same signature value if the wire has none. -/
def KeepSame (first second : Data) (wire : Block) : Prop :=
  first.metaInfo.appMetaInfo = second.metaInfo.appMetaInfo ∧
    ∀ elements, Block.parse wire.value = .ok elements → hasSignatureValue elements = false →
      first.signature.value.encode = second.signature.value.encode

/-- Blocks of applications are added, and a signature value stays if the wire has none. -/
theorem agreesWhen_wireDecode (sha256 : Bytes → Bytes) :
    AgreesWhen Data.wireDecode (Data.observed sha256) KeepSame := by
  intro first second wire decoded hdecode
  obtain ⟨elements, fresh, hparse, hfresh, rfl⟩ := wireDecode_eq_ok_iff.mp hdecode
  have hstored : fresh.wire = some wire.wire := wire_of_wireDecode hfresh
  refine ⟨_, wireDecode_eq_ok_iff.mpr ⟨elements, fresh, hparse, hfresh, rfl⟩, ?_⟩
  have hencoding : ∀ prior, encoding (fresh.keepFrom prior (hasSignatureValue elements)).wireEncode =
      .ok wire.wire := by
    intro prior
    simp [encoding, wireEncode, CodeStore.recallCode, codes, keepFrom, hstored, Except.map]
  constructor
  · intro hsame
    have hmetaInfo := congrArg (fun view ↦ view.2.2.1.2.2.2.1) hsame
    have hvalue : (fresh.keepFrom first (hasSignatureValue elements)).signature.value.encode =
        (fresh.keepFrom second (hasSignatureValue elements)).signature.value.encode :=
      congrArg (fun view ↦ view.2.2.2.2.2.1) hsame
    refine ⟨List.append_cancel_right hmetaInfo, ?_⟩
    intro elements' hparse' hnone
    obtain rfl := Except.ok.inj (hparse.symm.trans hparse')
    simpa [keepFrom, hnone] using hvalue
  · rintro ⟨hmetaInfo, hvalue⟩
    have hsameValue : (fresh.keepFrom first (hasSignatureValue elements)).signature.value.encode =
        (fresh.keepFrom second (hasSignatureValue elements)).signature.value.encode := by
      cases hfound : hasSignatureValue elements with
      | true => rfl
      | false => exact hvalue elements hparse hfound
    simp only [observed, hencoding, hsameValue, Prod.mk.injEq, and_true]
    refine ⟨rfl, rfl, ?_, rfl, rfl⟩
    simp only [keepFrom, hmetaInfo]

end Data

namespace Link

/-- The same packets stay, and apart from the delegations of the wire, the same delegations. -/
def KeepSame (first second : Link) (wire : Block) : Prop :=
  Data.KeepSame first.data second.data wire ∧
    ∀ blocks listed, delegationsFromWire wire = .ok blocks → readDelegations blocks = .ok listed →
      ∀ delegation ∉ listed,
        (delegation, ()) ∈ first.delegations ↔ (delegation, ()) ∈ second.delegations

/-- Delegations are inserted into the set that is there. -/
theorem agreesWhen_wireDecode (sha256 : Bytes → Bytes) :
    AgreesWhen Link.wireDecode (Link.observed sha256) KeepSame := by
  intro first second wire decoded hdecode
  obtain ⟨data, blocks, listed, hdata, htype, hblocks, hlisted, rfl⟩ :=
    wireDecode_eq_ok_iff.mp hdecode
  obtain ⟨otherData, hotherData, hshown⟩ :=
    Data.agreesWhen_wireDecode sha256 first.data second.data wire data hdata
  have hotherType : otherData.metaInfo.type = Tlv.contentTypeLink := by
    obtain ⟨elements, fresh, -, hfresh, rfl⟩ := Data.wireDecode_eq_ok_iff.mp hdata
    obtain ⟨elements', fresh', -, hfresh', rfl⟩ := Data.wireDecode_eq_ok_iff.mp hotherData
    obtain rfl := Except.ok.inj (hfresh.symm.trans hfresh')
    exact htype
  refine ⟨_, wireDecode_eq_ok_iff.mpr
    ⟨otherData, blocks, listed, hotherData, hotherType, hblocks, hlisted, rfl⟩, ?_⟩
  have hset : insertDelegations first.delegations listed =
      insertDelegations second.delegations listed ↔ ∀ delegation ∉ listed,
        ((delegation, ()) ∈ first.delegations ↔ (delegation, ()) ∈ second.delegations) := by
    constructor
    · intro hsame delegation hnot
      have hmem : (delegation, ()) ∈ insertDelegations first.delegations listed ↔
          (delegation, ()) ∈ insertDelegations second.delegations listed := by rw [hsame]
      simpa [mem_insertDelegations, hnot] using hmem
    · intro hsame
      apply OrderedMap.eq_of_mem_iff
      rintro ⟨delegation, ⟨⟩⟩
      rw [mem_insertDelegations, mem_insertDelegations]
      by_cases hmem : delegation ∈ listed
      · simp [hmem]
      · simpa [hmem] using hsame delegation hmem
  simp only [observed, Prod.mk.injEq, hshown, hset, KeepSame]
  refine and_congr_right fun _ ↦ ⟨?_, fun hall ↦ hall blocks listed hblocks hlisted⟩
  intro hsame blocks' listed' hblocks' hlisted'
  obtain rfl := Except.ok.inj (hblocks.symm.trans hblocks')
  obtain rfl := Except.ok.inj (hlisted.symm.trans hlisted')
  exact hsame

end Link

/-- When two objects that are decoded from the same accepted wire show the same afterwards. -/
theorem agreesWhen_wireDecode_all (sha256 : Bytes → Bytes) (Tag : Type) :
    AgreesWhen Exclude.wireDecode id (fun _ _ _ ↦ True) ∧
    AgreesWhen Selectors.wireDecode id (fun _ _ _ ↦ True) ∧
    AgreesWhen KeyLocator.wireDecode KeyLocator.observed (fun _ _ _ ↦ True) ∧
    AgreesWhen MetaInfo.wireDecode MetaInfo.observed
      (fun first second _ ↦ first.appMetaInfo = second.appMetaInfo) ∧
    AgreesWhen SignatureInfo.wireDecode SignatureInfo.observed SignatureInfo.ShowSameTlvs ∧
    AgreesWhen (Tagged.wireDecode Interest.wireDecode) (Tagged.observed id : Tagged Interest Tag → _)
      (fun first second _ ↦ first.getTag = second.getTag) ∧
    AgreesWhen (Tagged.wireDecode Data.wireDecode)
      (Tagged.observed (Data.observed sha256) : Tagged Data Tag → _)
      (fun first second wire ↦ Data.KeepSame first.packet second.packet wire ∧
        first.getTag = second.getTag) ∧
    AgreesWhen (Tagged.wireDecode Link.wireDecode)
      (Tagged.observed (Link.observed sha256) : Tagged Link Tag → _)
      (fun first second wire ↦ Link.KeepSame first.packet second.packet wire ∧
        first.getTag = second.getTag) :=
  ⟨agreesWhen_of_eq fun _ _ _ ↦ rfl, agreesWhen_of_eq fun _ _ _ ↦ rfl,
    KeyLocator.agreesWhen_wireDecode, MetaInfo.agreesWhen_wireDecode,
    SignatureInfo.agreesWhen_wireDecode,
    by simpa only [true_and] using
      Tagged.agreesWhen_wireDecode (agreesWhen_of_eq Interest.wireDecode_eq_wireDecode),
    Tagged.agreesWhen_wireDecode (Data.agreesWhen_wireDecode sha256),
    Tagged.agreesWhen_wireDecode (Link.agreesWhen_wireDecode sha256)⟩

/-- What an earlier packet left shows after the next one is decoded: a block of an application, a
type-specific TLV, a signature value, a delegation, and the tag with the face that the earlier packet
came from. -/
theorem observed_ne_of_earlier_packet :
    (∃ prior decoded fresh, MetaInfo.wireDecode {} ⟨20, [128, 1, 0], [20, 3, 128, 1, 0]⟩ = .ok prior ∧
      prior.wireDecode ⟨20, [], [20, 0]⟩ = .ok decoded ∧
      MetaInfo.wireDecode {} ⟨20, [], [20, 0]⟩ = .ok fresh ∧
      decoded.observed ≠ fresh.observed) ∧
    (∃ prior decoded fresh,
      SignatureInfo.wireDecode {} ⟨22, [27, 1, 0, 129, 0], [22, 5, 27, 1, 0, 129, 0]⟩ = .ok prior ∧
      prior.wireDecode ⟨22, [27, 1, 0], [22, 3, 27, 1, 0]⟩ = .ok decoded ∧
      SignatureInfo.wireDecode {} ⟨22, [27, 1, 0], [22, 3, 27, 1, 0]⟩ = .ok fresh ∧
      decoded.observed ≠ fresh.observed) ∧
    (∃ prior decoded fresh,
      Data.wireDecode {} (Block.ofValue 6 [7, 0, 20, 0, 21, 0, 22, 3, 27, 1, 0, 23, 1, 9]) =
        .ok prior ∧
      prior.wireDecode (Block.ofValue 6 [7, 0, 20, 0, 21, 0, 22, 3, 27, 1, 0]) = .ok decoded ∧
      Data.wireDecode {} (Block.ofValue 6 [7, 0, 20, 0, 21, 0, 22, 3, 27, 1, 0]) = .ok fresh ∧
      decoded.observed id ≠ fresh.observed id) ∧
    (∃ prior decoded fresh,
      Link.wireDecode {} (Block.ofValue 6 [7, 0, 20, 3, 24, 1, 1, 21, 10, 31, 8, 30, 1, 1, 7, 3, 8, 1,
        65, 22, 3, 27, 1, 0]) = .ok prior ∧
      prior.wireDecode (Block.ofValue 6 [7, 0, 20, 3, 24, 1, 1, 21, 0, 22, 3, 27, 1, 0]) =
        .ok decoded ∧
      Link.wireDecode {} (Block.ofValue 6 [7, 0, 20, 3, 24, 1, 1, 21, 0, 22, 3, 27, 1, 0]) =
        .ok fresh ∧
      decoded.observed id ≠ fresh.observed id) ∧
    ∃ decoded fresh : Tagged Interest ℕ,
      Tagged.wireDecode Interest.wireDecode (Tagged.setTag ⟨{}, fun _ ↦ none⟩ 10 (some 256))
        (Block.ofValue 5 [7, 3, 8, 1, 65, 10, 4, 1, 2, 3, 4]) = .ok decoded ∧
      Tagged.wireDecode Interest.wireDecode ⟨{}, fun _ ↦ none⟩
        (Block.ofValue 5 [7, 3, 8, 1, 65, 10, 4, 1, 2, 3, 4]) = .ok fresh ∧
      decoded.observed id ≠ fresh.observed id := by
  refine ⟨⟨_, _, _, rfl, rfl, rfl, ?_⟩, ⟨_, _, _, rfl, rfl, rfl, ?_⟩, ⟨_, _, _, rfl, rfl, rfl, ?_⟩,
    ⟨_, _, _, rfl, rfl, rfl, ?_⟩, ⟨_, _, rfl, rfl, ?_⟩⟩
  · intro hsame
    cases congrArg (fun view ↦ view.2.2.2.1) hsame
  · intro hsame
    cases congrFun (congrArg (fun view ↦ view.2.2.2.2.1) hsame) 129
  · intro hsame
    cases congrArg (fun view ↦ view.2.2.2.2.2.1) hsame
  · intro hsame
    cases congrArg (fun view ↦ view.2.entries) hsame
  · intro hsame
    cases congrFun (congrArg Prod.snd hsame) 10

end NdnCxx.Packet
