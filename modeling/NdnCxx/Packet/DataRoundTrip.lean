import NdnCxx.Packet.DataWire

/-!
# Decoding an encoded Data packet

A Data packet that can be encoded comes back with its name, its meta information, its content and its
signature. Signature information that was decoded is written again as the wire it was decoded from,
so it may hold a key locator of a kind that the encoder does not support. A packet that already has a
wire answers with it, and the packet must then be what that wire decodes to.
-/

namespace NdnCxx.Packet

namespace MetaInfo

/-- The decoded meta information has the fields of the one that was encoded. An absent FinalBlockId
is any component without a value. -/
structure Carries (written decoded : MetaInfo) : Prop where
  type : decoded.type = written.type
  freshnessPeriod : decoded.freshnessPeriod = written.freshnessPeriod
  finalBlockId : decoded.finalBlockId = written.finalBlockId ∨
    decoded.finalBlockId.isEmpty = true ∧ written.finalBlockId.isEmpty = true
  appMetaInfo : decoded.appMetaInfo.map Block.Element.toBlock =
    written.appMetaInfo.map Block.Element.toBlock

/-- Meta information with a content type of 32 bits, a freshness period, a FinalBlockId that is absent
or generic, and blocks in the application range. -/
structure IsRegular (metaInfo : MetaInfo) : Prop where
  type : metaInfo.type < 2 ^ 32
  freshnessPeriod_nonneg : 0 ≤ metaInfo.freshnessPeriod
  freshnessPeriod_lt : metaInfo.freshnessPeriod < 2 ^ 63
  finalBlockId : metaInfo.finalBlockId.isEmpty = true ∨ metaInfo.finalBlockId.isGeneric = true
  appMetaInfo : ∀ block ∈ metaInfo.appMetaInfo,
    isAppType block = true ∧ block.IsWellFormed ∧ block.Fits

theorem IsRegular.isEncodable {metaInfo : MetaInfo} (hregular : metaInfo.IsRegular) :
    metaInfo.IsEncodable where
  type := hregular.type
  freshnessPeriod := hregular.freshnessPeriod_lt
  finalBlockId := by
    intro hpresent
    rcases hregular.finalBlockId with hempty | hgeneric
    · rw [hempty] at hpresent
      cases hpresent
    · exact hgeneric
  appMetaInfo := by
    intro block hmem
    obtain ⟨happ, hwell, hfits⟩ := hregular.appMetaInfo block hmem
    simp only [isAppType, Bool.and_eq_true, decide_eq_true_eq] at happ
    refine ⟨hwell, hfits, ?_⟩
    simp only [List.mem_cons, List.not_mem_nil, or_false, Tlv.contentType, Tlv.freshnessPeriod,
      Tlv.finalBlockId]
    omega

theorem carries_overwrite {prior written : MetaInfo} (hempty : prior.appMetaInfo = [])
    (hregular : written.IsRegular) : written.Carries (prior.overwrite written) where
  type := rfl
  freshnessPeriod := if_pos hregular.freshnessPeriod_nonneg
  finalBlockId := by
    cases habsent : written.finalBlockId.isEmpty with
    | true =>
      right
      simp only [overwrite, habsent, if_true, and_true]
      rfl
    | false =>
      left
      simp [overwrite, habsent]
  appMetaInfo := by
    simp only [overwrite, hempty, List.nil_append, List.map_map]
    rfl

end MetaInfo

namespace SignatureInfo

/-- The decoded information shows what was encoded: the signature type, the key locator or its
absence, and the type-specific TLVs in their order. -/
structure Carries (written decoded : SignatureInfo) : Prop where
  type : decoded.type = written.type
  keyLocator : decoded.getKeyLocator.map KeyLocator.shown =
    written.getKeyLocator.map KeyLocator.shown
  otherTlvs : decoded.otherTlvs.map Block.Element.toBlock =
    written.otherTlvs.map Block.Element.toBlock

theorem Carries.refl (info : SignatureInfo) : info.Carries info := ⟨rfl, rfl, rfl⟩

/-- The wire that `wireEncode` answers with is not the one of an earlier state: the information is as
it was decoded from the wire, or it can be written, and is written as this wire. -/
def IsCurrent (info : SignatureInfo) (wire : Bytes) : Prop :=
  (∃ block : Block, block.IsWire ∧ block.wire = wire ∧ wireDecode {} block = .ok info) ∨
    codes.IsFresh info ∧ info.IsEncodable ∧ info.toBlock.wire = wire

/-- A block that the information is written as, and that shows it again when it is decoded. -/
structure IsWrittenAs (info : SignatureInfo) (block : Block) : Prop where
  isWire : block.IsWire
  type : block.type = Tlv.signatureInfo
  written : ∃ answered, info.wireEncode = .ok (block.wire, answered)
  decoded : ∃ decoded, wireDecode {} block = .ok decoded ∧ info.Carries decoded

/-- The type-specific TLVs come back in reverse order. -/
theorem carries_overwrite {written : SignatureInfo}
    (hreverse : (written.otherTlvs.map Block.Element.toBlock).reverse =
      written.otherTlvs.map Block.Element.toBlock) : written.Carries (overwrite {} written) where
  type := rfl
  keyLocator := by
    cases hpresent : written.hasKeyLocator with
    | true =>
      have hshown := KeyLocator.shown_overwrite {} written.keyLocator
      simp [getKeyLocator, overwrite, hpresent, Except.map, hshown]
    | false => simp [getKeyLocator, overwrite, hpresent, Except.map]
  otherTlvs := by
    rw [← hreverse, ← List.map_reverse]
    simp only [overwrite, writtenTlvs, List.nil_append, List.map_map]
    rfl

theorem reverse_eq_of_length_le_one {Value : Type*} {values : List Value}
    (hsingle : values.length ≤ 1) : values.reverse = values := by
  rcases values with - | ⟨first, - | ⟨second, rest⟩⟩
  · rfl
  · rfl
  · simp at hsingle

theorem wireDecode_type_wire {prior info : SignatureInfo} {block : Block}
    (hdecode : prior.wireDecode block = .ok info) :
    block.type = Tlv.signatureInfo ∧ info.wire = some block.wire := by
  obtain ⟨htype, first, rest, type, -, -, -, ⟨second, others, keyLocator, -, -, -, rfl⟩ | ⟨-, rfl⟩⟩ :=
    wireDecode_eq_ok_iff.mp hdecode
  · exact ⟨htype, rfl⟩
  · exact ⟨htype, rfl⟩

theorem IsCurrent.exists_isWrittenAs {info : SignatureInfo} {wire : Bytes}
    (hcurrent : info.IsCurrent wire) (hsingle : info.otherTlvs.length ≤ 1)
    (hsize : wire.length < 2 ^ 64) : ∃ block, block.wire = wire ∧ info.IsWrittenAs block := by
  rcases hcurrent with ⟨block, hwire, hbytes, hdecode⟩ | ⟨hfresh, hencodable, rfl⟩
  · obtain ⟨htype, hstored⟩ := wireDecode_type_wire hdecode
    refine ⟨block, hbytes, hwire, htype, ⟨info, ?_⟩, info, hdecode, Carries.refl info⟩
    simp [wireEncode, CodeStore.recallCode, codes, hstored]
  · exact ⟨info.toBlock, rfl, Block.ofElements_isWire (by decide) hsize, rfl,
      hfresh.exists_recall (encode_eq hencodable hsize) rfl,
      overwrite {} info, wireDecode_toBlock _ hencodable hsize,
      carries_overwrite (reverse_eq_of_length_le_one (by simpa using hsingle))⟩

end SignatureInfo

namespace Data

/-- The decoded packet has everything that was encoded. -/
structure Carries (written decoded : Data) : Prop where
  name : decoded.name = written.name
  metaInfo : written.metaInfo.Carries decoded.metaInfo
  content : decoded.getContent = written.getContent
  signatureInfo : written.signature.info.Carries decoded.signature.info
  signatureValue : decoded.signature.value.encode = written.signature.value.encode

theorem Carries.refl (data : Data) : data.Carries data where
  name := rfl
  metaInfo := ⟨rfl, rfl, Or.inl rfl, rfl⟩
  content := rfl
  signatureInfo := SignatureInfo.Carries.refl _
  signatureValue := rfl

/-- A signed packet with valid components and a signature value, whose content and signature value
are encoded as the given blocks, and whose signature information is written as the given wire. -/
structure IsRegular (data : Data) (content value : Block) (infoWire : Bytes) : Prop where
  name : ∀ component ∈ data.name, component.IsValid
  metaInfo : data.metaInfo.IsRegular
  content_eq : data.getContent = .ok content
  content_type : content.type = Tlv.content
  content_isWire : content.IsWire
  content_fits : content.wire.length < 2 ^ 32
  signed : data.signature.info.type ≠ -1
  info : data.signature.info.IsCurrent infoWire
  info_single : data.signature.info.otherTlvs.length ≤ 1
  info_fits : infoWire.length < 2 ^ 32
  value_eq : data.signature.value.encode = .ok value
  value_type : value.type = Tlv.signatureValue
  value_isWire : value.IsWire
  value_fits : value.wire.length < 2 ^ 32

/-- The packet has no wire, or it is as it was decoded from its wire: then no blocks of applications
and no signature value were left in it from before. -/
def IsCurrent (data : Data) : Prop :=
  data.wire = none ∨
    ∃ (prior : Data) (block : Block), block.IsWire ∧ prior.wireDecode block = .ok data ∧
      prior.metaInfo.appMetaInfo = [] ∧
      (prior.signature.value.type = Tlv.signatureValue →
        ∃ elements, Block.parse block.value = .ok elements ∧ hasSignatureValue elements = true)

/-- What stands in front of the signature value is written as a name, meta information and the given
blocks, and can be read again. -/
structure IsMadeOf (data : Data) (content info : Block) : Prop where
  name : data.name.IsWellFormed
  metaInfo : data.metaInfo.IsEncodable
  content_eq : data.getContent = .ok content
  content_type : content.type = Tlv.content
  content_isWire : content.IsWire
  content_fits : content.wire.length < 2 ^ 32
  signed : data.signature.info.type ≠ -1
  info_written : ∃ answered, data.signature.info.wireEncode = .ok (info.wire, answered)
  info_type : info.type = Tlv.signatureInfo
  info_isWire : info.IsWire
  info_fits : info.wire.length < 2 ^ 32

/-- A block that can stand as signature value. -/
structure IsSignatureValue (value : Block) : Prop where
  type : value.type = Tlv.signatureValue
  isWire : value.IsWire
  fits : value.wire.length < 2 ^ 32

/-- The elements in front of the signature value. -/
def unsignedElements (data : Data) (content info : Block) : List Block :=
  [data.name.toBlock, data.metaInfo.toBlock, content, info]

/-- The packet with the given signature value. -/
def signedBlock (data : Data) (content info value : Block) : Block :=
  Block.ofElements Tlv.data (data.unsignedElements content info ++ [value])

/-- Each element is found by its type, whatever comes behind. -/
theorem find_unsignedElements (data : Data) {content info : Block}
    (hcontentType : content.type = Tlv.content) (hinfoType : info.type = Tlv.signatureInfo)
    (later : List Block) :
    Block.find (data.unsignedElements content info ++ later) Tlv.name = some data.name.toBlock ∧
    Block.find (data.unsignedElements content info ++ later) Tlv.metaInfo =
      some data.metaInfo.toBlock ∧
    Block.find (data.unsignedElements content info ++ later) Tlv.content = some content ∧
    Block.find (data.unsignedElements content info ++ later) Tlv.signatureInfo = some info ∧
    Block.find (data.unsignedElements content info ++ later) Tlv.signatureValue =
      Block.find later Tlv.signatureValue := by
  have hname : data.name.toBlock.type = 7 := rfl
  have hmetaInfo : data.metaInfo.toBlock.type = 20 := rfl
  have hcontent : content.type = 21 := hcontentType
  have hinfo : info.type = 22 := hinfoType
  simp [unsignedElements, Block.find, hname, hmetaInfo, hcontent, hinfo, Tlv.name, Tlv.metaInfo,
    Tlv.content, Tlv.signatureInfo, Tlv.signatureValue]

section Encoded

variable {data : Data} {content info value : Block} (hparts : data.IsMadeOf content info)
include hparts

theorem unsignedElements_isWire
    (hsize : ((data.unsignedElements content info).flatMap Block.wire).length < 2 ^ 64) :
    ∀ element ∈ data.unsignedElements content info, element.IsWire := by
  intro element hmem
  have hshort : element.wire.length < 2 ^ 64 := by
    have hsublist := (List.singleton_sublist.mpr hmem).flatMap Block.wire
    have hle := hsublist.length_le
    rw [List.flatMap_singleton] at hle
    omega
  simp only [unsignedElements, List.mem_cons, List.not_mem_nil, or_false] at hmem
  rcases hmem with rfl | rfl | rfl | rfl
  · exact Block.ofElements_isWire (by decide) hshort
  · exact Block.ofElements_isWire (by decide) hshort
  · exact hparts.content_isWire
  · exact hparts.info_isWire

variable {encoded : Block}

theorem wireEncodeInto_eq_signedBlock (hencode : data.signature.value.encode = .ok encoded)
    (hsame : Block.prependWire encoded.wire = value.wire) :
    data.wireEncodeInto = .ok (data.signedBlock content info value).wire := by
  obtain ⟨answered, hwritten⟩ := hparts.info_written
  rw [wireEncodeInto_eq_of_blocks hparts.signed hencode hsame hwritten hparts.info_fits
    hparts.content_eq hparts.content_fits
    fun block hblock ↦ (hparts.metaInfo.appMetaInfo block hblock).2.1]
  rfl

variable (hvalue : IsSignatureValue value)
  (hsize : (data.signedBlock content info value).wire.length < 2 ^ 64)
include hvalue hsize

theorem parse_signedBlock :
    Block.parse (data.signedBlock content info value).value =
      .ok (data.unsignedElements content info ++ [value]) := by
  apply Block.parse_ofElements
  intro element hmem
  rcases List.mem_append.mp hmem with hmem | hmem
  · apply unsignedElements_isWire hparts _ element hmem
    have hle := Block.length_value_le_wire_ofValue Tlv.data
      ((data.unsignedElements content info ++ [value]).flatMap Block.wire)
    have htotal := lt_of_le_of_lt hle hsize
    rw [List.flatMap_append, List.length_append] at htotal
    omega
  · rw [List.mem_singleton.mp hmem]
    exact hvalue.isWire

variable {decodedInfo : SignatureInfo}

theorem wireDecode_signedBlock (hdecoded : SignatureInfo.wireDecode {} info = .ok decodedInfo)
    (prior : Data) :
    prior.wireDecode (data.signedBlock content info value) = .ok {
      name := data.name
      metaInfo := prior.metaInfo.overwrite data.metaInfo
      content := content.toUnencoded
      signature := { info := decodedInfo, value := value.toUnencoded }
      fullName := []
      wire := some (data.signedBlock content info value).wire } := by
  have hparse := parse_signedBlock hparts hvalue hsize
  obtain ⟨hgetName, hgetMetaInfo, hgetContent, hgetInfo, hfindValue⟩ :=
    data.find_unsignedElements hparts.content_type hparts.info_type [value]
  have hfound : Block.find [value] Tlv.signatureValue = some value := by
    simp [Block.find, hvalue.type]
  have hname : Name.wireDecode data.name.toBlock = .ok data.name :=
    Name.wireDecode_toBlock hparts.name
      (Block.length_wire_lt_of_mem hsize (by simp [unsignedElements]))
  have hmetaInfo : prior.metaInfo.wireDecode data.metaInfo.toBlock =
      .ok (prior.metaInfo.overwrite data.metaInfo) :=
    MetaInfo.wireDecode_toBlock _ hparts.metaInfo
      (Block.length_wire_lt_of_mem hsize (by simp [unsignedElements]))
  have hset : ∀ signature : Signature, signature.setValue value.toUnencoded =
      .ok { signature with value := value.toUnencoded } :=
    fun signature ↦ if_neg (not_not.mpr hvalue.type)
  simp only [wireDecode, hparse, Block.get_eq_ok hgetName, hname, Block.get_eq_ok hgetMetaInfo,
    hmetaInfo, Block.get_eq_ok hgetContent, Block.get_eq_ok hgetInfo, Signature.setInfo, hdecoded,
    hfindValue, hfound, Block.decodeIfFound, hset, bind, Except.bind, pure, Except.pure]

/-- The packet without a stored wire is encoded and read back. -/
theorem wireEncode_eq_signedBlock (hnone : data.wire = none)
    (hencode : data.signature.value.encode = .ok encoded)
    (hsame : Block.prependWire encoded.wire = value.wire)
    (hdecoded : SignatureInfo.wireDecode {} info = .ok decodedInfo) :
    ∃ next, data.wireEncode = .ok ((data.signedBlock content info value).wire, next) := by
  have hnot : codes.stored data = none := hnone
  have hmade : codes.encode data = .ok (data.signedBlock content info value).wire := by
    apply bind_eq_ok_iff.mpr
    exact ⟨_, wireEncodeInto_eq_signedBlock hparts hencode hsame,
      bufferBlock_ofElements (by decide) hsize⟩
  have hblock : Block.fromWire (data.signedBlock content info value).wire =
      .ok (data.signedBlock content info value) := Block.fromWire_ofElements (by decide) hsize
  have hread := fun prior ↦ wireDecode_signedBlock hparts hvalue hsize hdecoded prior
  have hkept : ∃ next,
      codes.store data (data.signedBlock content info value).wire = .ok next := by
    simp only [codes, readBack, hencode, hblock, bind, Except.bind, hread]
    exact ⟨_, rfl⟩
  obtain ⟨next, hstore⟩ := hkept
  exact ⟨next, by simp only [wireEncode, CodeStore.recallCode, hnot, hmade, hstore]⟩

end Encoded

/-- A packet that is as it was decoded is decoded again into any packet without blocks of
applications. -/
theorem wireDecode_of_wireDecode {prior data : Data} {block value : Block}
    (hdecode : prior.wireDecode block = .ok data) (hempty : prior.metaInfo.appMetaInfo = [])
    (hfound : prior.signature.value.type = Tlv.signatureValue →
      ∃ elements, Block.parse block.value = .ok elements ∧ hasSignatureValue elements = true)
    (hvalue : data.signature.value.encode = .ok value) (htype : value.type = Tlv.signatureValue)
    {fresh : Data} (hfresh : fresh.metaInfo.appMetaInfo = []) :
    fresh.wireDecode block = .ok data := by
  obtain ⟨elements, read, hparse, hread, rfl⟩ := wireDecode_eq_ok_iff.mp hdecode
  have hhas : hasSignatureValue elements = true := by
    by_contra hnot
    have hkept : prior.signature.value.type = Tlv.signatureValue := by
      rw [← htype, Block.Unencoded.type_of_encode hvalue]
      simp [keepFrom, hnot]
    obtain ⟨found, hfoundParse, hhas⟩ := hfound hkept
    rw [hparse] at hfoundParse
    cases hfoundParse
    exact hnot hhas
  have hsame : read.keepFrom prior (hasSignatureValue elements) =
      read.keepFrom fresh (hasSignatureValue elements) := by
    simp [keepFrom, hempty, hfresh, hhas]
  exact wireDecode_eq_ok_iff.mpr ⟨elements, read, hparse, hread, hsame⟩

theorem IsRegular.isMadeOf {data : Data} {content info value : Block}
    (hregular : data.IsRegular content value info.wire)
    (hinfo : data.signature.info.IsWrittenAs info) : data.IsMadeOf content info where
  name := fun component hmem ↦ (hregular.name component hmem).type_lt
  metaInfo := hregular.metaInfo.isEncodable
  content_eq := hregular.content_eq
  content_type := hregular.content_type
  content_isWire := hregular.content_isWire
  content_fits := hregular.content_fits
  signed := hregular.signed
  info_written := hinfo.written
  info_type := hinfo.type
  info_isWire := hinfo.isWire
  info_fits := hregular.info_fits

/-- Decoding what `wireEncode` returns into a packet without blocks of applications, such as a fresh
one, gives everything that the encoded packet has. -/
theorem wireEncode_carries {data : Data} {content value : Block} {infoWire : Bytes}
    (hcurrent : data.IsCurrent) (hregular : data.IsRegular content value infoWire)
    (hsize : ∀ bytes, data.wireEncodeInto = .ok bytes → bytes.length < 2 ^ 64) :
    ∃ wire next block, data.wireEncode = .ok (wire, next) ∧ Block.fromWire wire = .ok block ∧
      ∀ fresh : Data, fresh.metaInfo.appMetaInfo = [] →
        ∃ decoded, fresh.wireDecode block = .ok decoded ∧ data.Carries decoded := by
  rcases hcurrent with hnone | ⟨prior, block, hwire, hdecode, hempty, hfound⟩
  · obtain ⟨info, rfl, hinfo⟩ := hregular.info.exists_isWrittenAs hregular.info_single
      (hregular.info_fits.trans (by decide))
    obtain ⟨decodedInfo, hdecoded, hcarries⟩ := hinfo.decoded
    have hparts := hregular.isMadeOf hinfo
    have hsame : Block.prependWire value.wire = value.wire :=
      Block.prependWire_eq hregular.value_fits
    have hvalue : IsSignatureValue value :=
      ⟨hregular.value_type, hregular.value_isWire, hregular.value_fits⟩
    have hshort := hsize _ (wireEncodeInto_eq_signedBlock hparts hregular.value_eq hsame)
    have hblock : Block.fromWire (data.signedBlock content info value).wire =
        .ok (data.signedBlock content info value) := Block.fromWire_ofElements (by decide) hshort
    obtain ⟨next, hencode⟩ := wireEncode_eq_signedBlock hparts hvalue hshort hnone
      hregular.value_eq hsame hdecoded
    refine ⟨_, next, _, hencode, hblock, fun fresh hfresh ↦
      ⟨_, wireDecode_signedBlock hparts hvalue hshort hdecoded fresh, ?_⟩⟩
    exact {
      name := rfl
      metaInfo := MetaInfo.carries_overwrite hfresh hregular.metaInfo
      content := by
        rw [hregular.content_eq, getContent, if_neg]
        · rfl
        · change ¬ content.type = _
          rw [hregular.content_type]
          decide
      signatureInfo := hcarries
      signatureValue := hregular.value_eq.symm }
  · have hstored : codes.stored data = some block.wire := wire_of_wireDecode hdecode
    have hblock : Block.fromWire block.wire = .ok block :=
      Block.fromWire_eq_ok_iff.mpr ⟨rfl, hwire⟩
    refine ⟨block.wire, data, block, ?_, hblock, ?_⟩
    · simp only [wireEncode, CodeStore.recallCode, hstored]
    · intro fresh hfresh
      have hsame := wireDecode_of_wireDecode hdecode hempty hfound hregular.value_eq
        hregular.value_type hfresh
      exact ⟨data, hsame, Carries.refl data⟩

theorem wireEncode_carries_signed :
    ∃ (data : Data) (content value : Block) (infoWire : Bytes),
      data.IsCurrent ∧ data.IsRegular content value infoWire ∧
      data.metaInfo.appMetaInfo.length = 2 ∧ data.signature.info.otherTlvs.length = 1 ∧
      ∃ wire next block, data.wireEncode = .ok (wire, next) ∧ Block.fromWire wire = .ok block ∧
        ∀ fresh : Data, fresh.metaInfo.appMetaInfo = [] →
          ∃ decoded, fresh.wireDecode block = .ok decoded ∧ data.Carries decoded := by
  let info : SignatureInfo := {
    type := 1
    hasKeyLocator := true
    keyLocator := { type := .name, name := [Component.generic [75]] }
    otherTlvs := [(Block.ofValue Tlv.validityPeriod [1]).toElement] }
  let data : Data := {
    name := [Component.generic [65]]
    metaInfo := {
      type := 3
      freshnessPeriod := 10
      finalBlockId := Component.generic [9]
      appMetaInfo := [⟨128, .value [1]⟩, ⟨252, .empty⟩] }
    content := ⟨Tlv.content, .value [1, 2, 3], []⟩
    signature := { info := info, value := ⟨Tlv.signatureValue, .value [4, 5], []⟩ } }
  have hregular : data.IsRegular (Block.ofValue Tlv.content [1, 2, 3])
      (Block.ofValue Tlv.signatureValue [4, 5]) info.toBlock.wire := {
    name := by decide
    metaInfo := {
      type := by decide
      freshnessPeriod_nonneg := by decide
      freshnessPeriod_lt := by decide
      finalBlockId := by decide
      appMetaInfo := by decide }
    content_eq := rfl
    content_type := rfl
    content_isWire := by decide
    content_fits := by decide
    signed := by decide
    info := Or.inr ⟨CodeStore.isFresh_of_stored_eq_none rfl, {
      type_lower := by decide
      type_upper := by decide
      keyLocator := by decide
      otherTlvs := by decide
      notKeyLocator := by decide }, rfl⟩
    info_single := by decide
    info_fits := by decide
    value_eq := rfl
    value_type := rfl
    value_isWire := by decide
    value_fits := by decide }
  have hsize : ∀ bytes, data.wireEncodeInto = .ok bytes → bytes.length < 2 ^ 64 := by
    intro bytes hbytes
    have hlength : data.wireEncodeInto.toOption.map List.length = some 51 := by decide +kernel
    simp only [hbytes, Except.toOption, Option.map_some, Option.some.injEq] at hlength
    rw [hlength]
    decide
  exact ⟨data, _, _, _, Or.inl rfl, hregular, rfl, rfl,
    wireEncode_carries (Or.inl rfl) hregular hsize⟩

/-! ## Packets that do not come back -/

/-- A packet with the given signature information and a signature value. -/
def signedWith (info : SignatureInfo) : Data :=
  { signature := { info := info, value := ⟨Tlv.signatureValue, .value [0], []⟩ } }

/-- A content whose wire has exactly `2 ^ 32` bytes, which `Block::size` reports as zero. -/
def wrappingContent : Block := Block.ofValue Tlv.content (List.replicate (2 ^ 32 - 6) 0)

theorem prependWire_wrappingContent : Block.prependWire wrappingContent.wire = [] := by
  have hlength : wrappingContent.wire.length = 2 ^ 32 := by
    rw [wrappingContent, Block.length_wire_ofValue, List.length_replicate]
    decide
  rw [Block.prependWire, hlength, Nat.mod_self, List.take_zero]

/-- A packet that is written without its content cannot be read back. -/
theorem wireEncode_of_content_written_empty {content : Block} (htype : content.type = Tlv.content)
    (hempty : Block.prependWire content.wire = []) :
    wireEncode { signedWith { type := 0 } with content := content.toUnencoded } =
      .error ⟨.block, "(Block::get) Requested a non-existed type [21] from Block"⟩ := by
  have hcontent : getContent { signedWith { type := 0 } with content := content.toUnencoded } =
      .ok content := by
    have hset : content.type ≠ 2 ^ 32 - 1 := by
      rw [htype]
      decide
    exact if_neg hset
  have hwritten : wireEncodeInto { signedWith { type := 0 } with content := content.toUnencoded } =
      .ok [6, 12, 7, 0, 20, 0, 22, 3, 27, 1, 0, 23, 1, 0] := by
    simp only [wireEncodeInto, hcontent, bind, Except.bind, hempty]
    rfl
  have hencode : codes.encode { signedWith { type := 0 } with content := content.toUnencoded } =
      .ok [6, 12, 7, 0, 20, 0, 22, 3, 27, 1, 0, 23, 1, 0] := by
    simp only [codes, hwritten]
    rfl
  have hnone : codes.stored { signedWith { type := 0 } with content := content.toUnencoded } =
    none := rfl
  simp only [wireEncode, CodeStore.recallCode, hnone, hencode]
  rfl

theorem wireEncode_not_carried :
    (∃ keyLocator, KeyLocator.wireDecode {} ⟨Tlv.keyLocator, [240, 0], [28, 2, 240, 0]⟩ =
        .ok keyLocator ∧
      (signedWith (SignatureInfo.setKeyLocator { type := 0 } keyLocator)).wireEncode =
        .error ⟨.keyLocator, "Unsupported KeyLocator type"⟩) ∧
    (∃ wire next block decoded,
      (signedWith (SignatureInfo.appendTypeSpecificTlv { type := 0 }
        ⟨Tlv.keyLocator, .empty⟩)).wireEncode = .ok (wire, next) ∧
      Block.fromWire wire = .ok block ∧ wireDecode {} block = .ok decoded ∧
      decoded.signature.info.otherTlvs = []) ∧
    (∃ metaInfo wire next block decoded, MetaInfo.addAppMetaInfo {} ⟨128, .empty⟩ = .ok metaInfo ∧
      ((signedWith { type := 0 }).setMetaInfo metaInfo).wireEncode = .ok (wire, next) ∧
      next.wireEncode = .ok (wire, next) ∧
      Block.fromWire wire = .ok block ∧ wireDecode {} block = .ok decoded ∧
      next.metaInfo.appMetaInfo.length = 2 ∧ decoded.metaInfo.appMetaInfo.length = 1) ∧
    (∃ infoWire info wire next block decoded,
      SignatureInfo.wireEncode { type := 0 } = .ok (infoWire, info) ∧
      (signedWith (info.appendTypeSpecificTlv ⟨240, .empty⟩)).wireEncode = .ok (wire, next) ∧
      Block.fromWire wire = .ok block ∧ wireDecode {} block = .ok decoded ∧
      decoded.signature.info.otherTlvs = []) ∧
    wireEncode { signedWith { type := 0 } with content := wrappingContent.toUnencoded } =
      .error ⟨.block, "(Block::get) Requested a non-existed type [21] from Block"⟩ :=
  ⟨⟨_, rfl, rfl⟩, ⟨_, _, _, _, rfl, rfl, rfl, rfl⟩, ⟨_, _, _, _, _, rfl, rfl, rfl, rfl, rfl, rfl, rfl⟩,
    ⟨_, _, _, _, _, _, rfl, rfl, rfl, rfl, rfl⟩,
    wireEncode_of_content_written_empty rfl prependWire_wrappingContent⟩

end Data

end NdnCxx.Packet
