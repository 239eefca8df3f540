import NdnCxx.Packet.SettledFields

/-!
# What encoding changes in a Data packet

`wireEncode()` is a const method, but it changes the packet if its meta information or its signature
information does not come back from the wire as it was. Otherwise the getters return the same, and a
setter followed by another `wireEncode()` writes what it would have written without the first one.
-/

namespace NdnCxx.Packet

namespace Data

/-- The getters return the same. -/
structure SameFields (before after : Data) : Prop where
  name : after.name = before.name
  metaInfo : before.metaInfo.SameFields after.metaInfo
  content : after.getContent = before.getContent
  signatureInfo : before.signature.info.SameFields after.signature.info
  signatureInfoWire :
    encoding after.signature.info.wireEncode = encoding before.signature.info.wireEncode
  signatureValue : after.signature.value.encode = before.signature.value.encode

/-- What comes back from the wire that the packet is encoded to. -/
def IsSettled (data : Data) : Prop := data.metaInfo.IsSettled ∧ data.signature.info.IsSettled

/-- Members as their classes keep them, with blocks whose sizes `Block::size` reports. -/
structure IsRepresentable (data : Data) : Prop where
  name : data.name.IsWellFormed
  metaInfo : data.metaInfo.IsRepresentable
  content : ∀ content, data.getContent = .ok content →
    content.type = Tlv.content ∧ content.IsWire ∧ content.wire.length < 2 ^ 32
  info : data.signature.info.IsRepresentable
  info_short : ∀ bytes answered, data.signature.info.wireEncode = .ok (bytes, answered) →
    bytes.length < 2 ^ 32
  value : ∀ value, data.signature.value.encode = .ok value →
    value.IsWire ∧ value.wire.length < 2 ^ 32

/-- What decoding has read when it returns, if it finds the elements of `written`. -/
theorem wireDecode_cases {prior written next : Data} {content info value block : Block}
    (hcontent : content.type = Tlv.content) (hinfo : info.type = Tlv.signatureInfo)
    (hparse : Block.parse block.value = .ok (written.unsignedElements content info ++ [value]))
    (hdecode : prior.wireDecode block = .ok next) :
    Name.wireDecode written.name.toBlock = .ok next.name ∧
      prior.metaInfo.wireDecode written.metaInfo.toBlock = .ok next.metaInfo ∧
      next.content = content.toUnencoded ∧
      SignatureInfo.wireDecode {} info = .ok next.signature.info ∧
      (next.signature.value = value.toUnencoded ∨
        next.signature.value = prior.signature.value) := by
  obtain ⟨hname, hmetaInfo, hfindContent, hfindInfo, hfindValue⟩ :=
    written.find_unsignedElements hcontent hinfo [value]
  simp only [wireDecode, hparse, Block.get_eq_ok hname, Block.get_eq_ok hmetaInfo,
    Block.get_eq_ok hfindContent, Block.get_eq_ok hfindInfo, hfindValue, Signature.setInfo,
    bind_eq_ok_iff, Except.ok.injEq, exists_eq_left'] at hdecode
  obtain ⟨name, hnameRead, metaInfo, hmetaInfoRead, unvalued, ⟨decodedInfo, hinfoRead, hunvalued⟩,
    signature, hsignature, hnext⟩ := hdecode
  cases hunvalued
  cases hnext
  have hread : signature.info = decodedInfo ∧
      (signature.value = value.toUnencoded ∨ signature.value = prior.signature.value) := by
    refine Block.decodeIfFound_rule (fun signature : Signature ↦ signature.info = decodedInfo ∧
      (signature.value = value.toUnencoded ∨ signature.value = prior.signature.value)) hsignature
      ⟨rfl, Or.inr rfl⟩ ?_
    intro element read hfind hset
    obtain rfl := List.mem_singleton.mp (Block.mem_of_find hfind).1
    unfold Signature.setValue at hset
    split_ifs at hset
    cases hset
    exact ⟨rfl, Or.inl rfl⟩
  exact ⟨hnameRead, hmetaInfoRead, rfl, hread.1 ▸ hinfoRead, hread.2⟩

/-- The packet after `Signature::getValue` has encoded the value in its place. -/
def withValue (data : Data) (value : Block) : Data :=
  { data with signature := { data.signature with
      value := { data.signature.value with content := .wire value.value value.wire } } }

/-- The blocks of a packet that was encoded without a stored wire, and how it was read back. -/
structure IsReadBackFrom (data next : Data) (content info value block : Block) : Prop where
  content_eq : data.getContent = .ok content
  content_type : content.type = Tlv.content
  info_type : info.type = Tlv.signatureInfo
  info_written : ∃ answered, data.signature.info.wireEncode = .ok (info.wire, answered)
  info_read : ∀ decoded, SignatureInfo.wireDecode {} info = .ok decoded →
    (data.signature.info.SameFields decoded ↔ data.signature.info.IsSettled)
  value_eq : data.signature.value.encode = .ok value
  parsed : Block.parse block.value = .ok (data.unsignedElements content info ++ [value])
  short : ∀ element ∈ data.unsignedElements content info ++ [value], element.wire.length < 2 ^ 64
  decoded : (data.withValue value).wireDecode block = .ok next

variable {bytes : Bytes}

/-- What encoding has written and read back, if no wire was stored. -/
theorem exists_signedBlock_of_wireEncode {data next : Data} (hrepresentable : data.IsRepresentable)
    (hnone : data.wire = none) (hencode : data.wireEncode = .ok (bytes, next))
    (hsize : bytes.length < 2 ^ 64) :
    ∃ content info value, bytes = (data.signedBlock content info value).wire ∧ info.IsWire ∧
      info.wire.length < 2 ^ 32 ∧ data.signature.info.type ≠ -1 ∧
        data.IsReadBackFrom next content info value (data.signedBlock content info value) := by
  rcases CodeStore.recall_cases hencode with ⟨hstored, -⟩ | ⟨-, hmade, hread⟩
  · have hwire : data.wire = some bytes := hstored
    rw [hnone] at hwire
    cases hwire
  obtain ⟨written, hwritten, hbuffer⟩ := bind_eq_ok_iff.mp hmade
  have haccepted := hwritten
  unfold wireEncodeInto at hwritten
  split_ifs at hwritten with hsigned
  simp only [bind_eq_ok_iff] at hwritten
  obtain ⟨value, hvalue, ⟨infoBytes, answered⟩, hinfo, content, hcontent, -⟩ := hwritten
  obtain ⟨hcontentType, hcontentWire, hcontentShort⟩ := hrepresentable.content content hcontent
  obtain ⟨hvalueWire, hvalueShort⟩ := hrepresentable.value value hvalue
  have hinfoShort := hrepresentable.info_short infoBytes answered hinfo
  obtain ⟨info, hinfoWire, hinfoType, rfl, hinfoRead⟩ :=
    SignatureInfo.exists_block_of_wireEncode hrepresentable.info hinfo
      (hinfoShort.trans (by decide))
  have hbytes : data.wireEncodeInto = .ok (data.signedBlock content info value).wire :=
    wireEncodeInto_eq_of_blocks hsigned hvalue (Block.prependWire_eq hvalueShort) hinfo hinfoShort
      hcontent hcontentShort fun block hblock ↦ (hrepresentable.metaInfo.appMetaInfo block hblock).2
  obtain rfl := Except.ok.inj (haccepted.symm.trans hbytes)
  obtain ⟨-, rfl⟩ := (bufferBlock_eq_ok_iff (by decide)).mp hbuffer
  have hshort : ∀ element ∈ data.unsignedElements content info ++ [value],
      element.wire.length < 2 ^ 64 := fun element hmem ↦ Block.length_wire_lt_of_mem hsize hmem
  have hwires : ∀ element ∈ data.unsignedElements content info ++ [value], element.IsWire := by
    intro element hmem
    have hlength := hshort element hmem
    simp only [unsignedElements, List.mem_append, List.mem_cons, List.not_mem_nil, or_false] at hmem
    rcases hmem with (rfl | rfl | rfl | rfl) | rfl
    · exact Block.ofElements_isWire (by decide) hlength
    · exact Block.ofElements_isWire (by decide) hlength
    · exact hcontentWire
    · exact hinfoWire
    · exact hvalueWire
  have hblock : Block.fromWire (data.signedBlock content info value).wire =
      .ok (data.signedBlock content info value) := Block.fromWire_ofElements (by decide) hsize
  have hreadBack : data.readBack (data.signedBlock content info value).wire = .ok next := hread
  simp only [readBack, bind_eq_ok_iff] at hreadBack
  obtain ⟨value', hvalue', block, hblock', hdecode⟩ := hreadBack
  obtain rfl := Except.ok.inj (hvalue.symm.trans hvalue')
  obtain rfl := Except.ok.inj (hblock.symm.trans hblock')
  exact ⟨content, info, value, rfl, hinfoWire, hinfoShort, hsigned, hcontent, hcontentType,
    hinfoType, ⟨answered, hinfo⟩, hinfoRead, hvalue, Block.parse_ofElements hwires, hshort, hdecode⟩

section ReadBack

variable {data next : Data} {content info value block : Block}
  (hrepresentable : data.IsRepresentable)
  (hread : data.IsReadBackFrom next content info value block)
include hread

/-- The fields whose codecs lose nothing. -/
theorem IsReadBackFrom.same (hname : data.name.IsWellFormed) : next.name = data.name ∧
    next.getContent = data.getContent ∧
    encoding next.signature.info.wireEncode = encoding data.signature.info.wireEncode ∧
    next.signature.value.encode = data.signature.value.encode := by
  obtain ⟨hnameRead, -, hcontentRead, hinfoRead, hvalueRead⟩ :=
    wireDecode_cases hread.content_type hread.info_type hread.parsed hread.decoded
  have hnameShort : data.name.toBlock.wire.length < 2 ^ 64 :=
    hread.short _ (by simp [unsignedElements])
  refine ⟨Except.ok.inj (hnameRead.symm.trans (Name.wireDecode_toBlock hname hnameShort)), ?_, ?_,
    ?_⟩
  · have hset : content.type ≠ 2 ^ 32 - 1 := by
      rw [hread.content_type]
      decide
    rw [hread.content_eq, getContent, hcontentRead]
    exact if_neg hset
  · obtain ⟨answered, hwritten⟩ := hread.info_written
    have hstored := (SignatureInfo.wireDecode_type_wire hinfoRead).2
    have hrecall : next.signature.info.wireEncode = .ok (info.wire, next.signature.info) := by
      simp [SignatureInfo.wireEncode, CodeStore.recallCode, SignatureInfo.codes, hstored]
    rw [hwritten, hrecall]
    rfl
  · rw [hread.value_eq]
    rcases hvalueRead with hnew | hold
    · rw [hnew]
      rfl
    · have htype := Block.Unencoded.type_of_encode hread.value_eq
      rw [hold]
      simp only [withValue, Block.Unencoded.encode, ← htype]

include hrepresentable

theorem IsReadBackFrom.metaInfo_iff :
    data.metaInfo.SameFields next.metaInfo ↔ data.metaInfo.IsSettled := by
  obtain ⟨-, hmetaInfoRead, -⟩ :=
    wireDecode_cases hread.content_type hread.info_type hread.parsed hread.decoded
  have hshort : data.metaInfo.toBlock.wire.length < 2 ^ 64 :=
    hread.short _ (by simp [unsignedElements])
  exact MetaInfo.sameFields_iff hrepresentable.metaInfo
    (MetaInfo.parse_toBlock (fun app happ ↦ (hrepresentable.metaInfo.appMetaInfo app happ).1) hshort)
    hmetaInfoRead fun element hmem ↦ Block.length_wire_lt_of_mem hshort hmem

theorem IsReadBackFrom.sameFields_iff : data.SameFields next ↔ data.IsSettled := by
  obtain ⟨-, -, -, hinfoRead, -⟩ :=
    wireDecode_cases hread.content_type hread.info_type hread.parsed hread.decoded
  have hinfo := hread.info_read _ hinfoRead
  have hmetaInfo := hread.metaInfo_iff hrepresentable
  obtain ⟨hname, hcontent, hwritten, hvalue⟩ := hread.same hrepresentable.name
  constructor
  · intro hsame
    exact ⟨hmetaInfo.mp hsame.metaInfo, hinfo.mp hsame.signatureInfo⟩
  · rintro ⟨hsettled, hinfoSettled⟩
    exact ⟨hname, hmetaInfo.mpr hsettled, hcontent, hinfo.mpr hinfoSettled, hwritten, hvalue⟩

/-- The packets are written the same, whether they keep wires or not. -/
structure WritesLike (data other : Data) : Prop where
  name : data.name = other.name
  metaInfo : data.metaInfo.WritesLike other.metaInfo
  content : data.getContent = other.getContent
  type : data.signature.info.type = other.signature.info.type
  info : encoding data.signature.info.wireEncode = encoding other.signature.info.wireEncode
  value : data.signature.value.encode = other.signature.value.encode

omit hrepresentable in
theorem IsReadBackFrom.writesLike (hsame : data.SameFields next) (hsettled : data.IsSettled) :
    data.WritesLike next := by
  obtain ⟨-, hmetaInfoRead, -⟩ :=
    wireDecode_cases hread.content_type hread.info_type hread.parsed hread.decoded
  exact {
    name := hsame.name.symm
    metaInfo := hsame.metaInfo.writesLike hsettled.1.finalBlockId hmetaInfoRead
    content := hsame.content.symm
    type := hsame.signatureInfo.type.symm
    info := hsame.signatureInfoWire.symm
    value := hsame.signatureValue.symm }

end ReadBack

/-! ## Setters after an encoding -/

/-- A call of a setter. -/
inductive Setter
  | setName (name : Name)
  | setMetaInfo (metaInfo : MetaInfo)
  | setContentType (type : ℕ)
  | setFreshnessPeriod (freshnessPeriod : ℤ)
  | setFinalBlockId (finalBlockId : Component)
  | setContentBytes (content : Bytes)
  | setContentBuffer (contentValue : Bytes)
  | setContent (content : Block.Unencoded)
  | setSignature (signature : Signature)
  | setSignatureValue (value : Block.Unencoded)

/-- The packet after the call. -/
def assign (data : Data) : Setter → Except Error Data
  | .setName name => .ok (data.setName name)
  | .setMetaInfo metaInfo => .ok (data.setMetaInfo metaInfo)
  | .setContentType type => .ok (data.setContentType type)
  | .setFreshnessPeriod freshnessPeriod => .ok (data.setFreshnessPeriod freshnessPeriod)
  | .setFinalBlockId finalBlockId => .ok (data.setFinalBlockId finalBlockId)
  | .setContentBytes content => data.setContentBytes content
  | .setContentBuffer contentValue => .ok (data.setContentBuffer contentValue)
  | .setContent content => data.setContent content
  | .setSignature signature => .ok (data.setSignature signature)
  | .setSignatureValue value => data.setSignatureValue value

section Alike

variable {data other : Data} (hlike : data.WritesLike other)
include hlike

theorem WritesLike.wireEncodeInto_eq : data.wireEncodeInto = other.wireEncodeInto := by
  obtain ⟨hname, hmetaInfo, hcontent, htype, hinfo, hvalue⟩ := hlike
  have hwritten : ∀ next : Bytes → Except Error Bytes,
      (data.signature.info.wireEncode >>= fun answer ↦ next answer.1) =
        other.signature.info.wireEncode >>= fun answer ↦ next answer.1 := by
    intro next
    have hmap : ∀ info : SignatureInfo, (info.wireEncode >>= fun answer ↦ next answer.1) =
        encoding info.wireEncode >>= next := by
      intro info
      cases info.wireEncode <;> rfl
    rw [hmap, hmap, hinfo]
  unfold wireEncodeInto
  rw [hname, hmetaInfo.wireEncodeInto_eq, hcontent, htype, hvalue]
  split_ifs
  · rfl
  · cases other.signature.value.encode with
    | error error => rfl
    | ok value =>
      exact hwritten fun info ↦ other.getContent >>= fun content ↦
        .ok (Tlv.prependByteArrayBlock Tlv.data
          (other.name.wireEncode ++ (other.metaInfo.wireEncodeInto ++
            (Block.prependWire content.wire ++
              (Block.prependWire info ++ Block.prependWire value.wire)))))

omit hlike in
/-- Whether a wire is accepted does not depend on the packet that was there. -/
theorem map_wireDecode_eq (data other : Data) (block : Block) (code : Bytes) :
    (data.wireDecode block).map (fun _ ↦ code) = (other.wireDecode block).map fun _ ↦ code := by
  rw [wireDecode_eq_map data, wireDecode_eq_map other]
  cases Block.parse block.value with
  | error error => rfl
  | ok elements =>
    cases wireDecode {} block with
    | error error => rfl
    | ok fresh => rfl

/-- Without stored wires, the same bytes are returned. -/
theorem WritesLike.encoding_eq (hnone : data.wire = none) (hother : other.wire = none) :
    encoding data.wireEncode = encoding other.wireEncode := by
  have hstore : ∀ wire, (data.readBack wire).map (fun _ ↦ wire) =
      (other.readBack wire).map fun _ ↦ wire := by
    intro wire
    simp only [readBack, hlike.value, bind, Except.bind]
    cases other.signature.value.encode with
    | error error => rfl
    | ok value =>
      dsimp only
      cases Block.fromWire wire with
      | error error => rfl
      | ok block => exact map_wireDecode_eq _ _ block wire
  calc encoding data.wireEncode
      = codes.encode data >>= fun code ↦ (codes.store data code).map fun _ ↦ code :=
        CodeStore.map_fst_recall_of_none hnone
    _ = codes.encode other >>= fun code ↦ (codes.store other code).map fun _ ↦ code := by
        simp only [codes, hlike.wireEncodeInto_eq, hstore]
    _ = encoding other.wireEncode := (CodeStore.map_fst_recall_of_none hother).symm

/-- A setter discards the wire and changes both packets in the same way. -/
theorem WritesLike.assign_cases (setter : Setter) :
    (∃ error, data.assign setter = .error error ∧ other.assign setter = .error error) ∨
      ∃ next otherNext, data.assign setter = .ok next ∧ other.assign setter = .ok otherNext ∧
        next.WritesLike otherNext ∧ next.wire = none ∧ otherNext.wire = none := by
  cases setter with
  | setName name => exact Or.inr ⟨_, _, rfl, rfl, { hlike with name := rfl }, rfl, rfl⟩
  | setMetaInfo metaInfo =>
    exact Or.inr ⟨_, _, rfl, rfl, { hlike with metaInfo := .refl metaInfo }, rfl, rfl⟩
  | setContentType type =>
    have hmetaInfo : (data.metaInfo.setType type).WritesLike (other.metaInfo.setType type) :=
      { hlike.metaInfo with type := rfl }
    exact Or.inr ⟨_, _, rfl, rfl, { hlike with metaInfo := hmetaInfo }, rfl, rfl⟩
  | setFreshnessPeriod freshnessPeriod =>
    have hmetaInfo : (data.metaInfo.setFreshnessPeriod freshnessPeriod).WritesLike
        (other.metaInfo.setFreshnessPeriod freshnessPeriod) :=
      { hlike.metaInfo with freshnessPeriod := rfl }
    exact Or.inr ⟨_, _, rfl, rfl, { hlike with metaInfo := hmetaInfo }, rfl, rfl⟩
  | setFinalBlockId finalBlockId =>
    have hmetaInfo : (data.metaInfo.setFinalBlockId finalBlockId).WritesLike
        (other.metaInfo.setFinalBlockId finalBlockId) :=
      { hlike.metaInfo with finalBlockId := Or.inl rfl }
    exact Or.inr ⟨_, _, rfl, rfl, { hlike with metaInfo := hmetaInfo }, rfl, rfl⟩
  | setContentBytes content =>
    simp only [assign, setContentBytes]
    cases Block.makeBinaryBlock Tlv.content content with
    | error error => exact Or.inl ⟨error, rfl, rfl⟩
    | ok block => exact Or.inr ⟨_, _, rfl, rfl, { hlike with content := rfl }, rfl, rfl⟩
  | setContentBuffer contentValue =>
    exact Or.inr ⟨_, _, rfl, rfl, { hlike with content := rfl }, rfl, rfl⟩
  | setContent content =>
    simp only [assign, setContent]
    split_ifs
    · exact Or.inr ⟨_, _, rfl, rfl, { hlike with content := rfl }, rfl, rfl⟩
    · cases content.content with
      | wire value wire => exact Or.inr ⟨_, _, rfl, rfl, { hlike with content := rfl }, rfl, rfl⟩
      | value value => exact Or.inl ⟨_, rfl, rfl⟩
      | empty => exact Or.inl ⟨_, rfl, rfl⟩
  | setSignature signature =>
    exact Or.inr ⟨_, _, rfl, rfl, { hlike with type := rfl, info := rfl, value := rfl }, rfl, rfl⟩
  | setSignatureValue value =>
    simp only [assign, setSignatureValue, Signature.setValue]
    split_ifs
    · exact Or.inl ⟨_, rfl, rfl⟩
    · exact Or.inr ⟨_, _, rfl, rfl, { hlike with value := rfl }, rfl, rfl⟩

theorem WritesLike.encoding_assign_eq (setter : Setter) :
    encoding (data.assign setter >>= wireEncode) =
      encoding (other.assign setter >>= wireEncode) := by
  rcases hlike.assign_cases setter with ⟨error, herror, hother⟩ |
    ⟨next, otherNext, hnext, hotherNext, hsame, hnone, hotherNone⟩
  · rw [herror, hother]
  · rw [hnext, hotherNext]
    exact hsame.encoding_eq hnone hotherNone

end Alike

/-- The getters return the same, and whatever is set then, the same is written as if the packet had
not been encoded before. -/
structure IsUnchanged (data next : Data) : Prop where
  fields : data.SameFields next
  setters : ∀ setter, encoding (next.assign setter >>= wireEncode) =
    encoding (data.assign setter >>= wireEncode)

theorem IsUnchanged.refl (data : Data) : data.IsUnchanged data where
  fields := {
    name := rfl
    metaInfo := ⟨rfl, rfl, Component.equals_iff.mpr rfl, rfl⟩
    content := rfl
    signatureInfo := ⟨rfl, rfl, rfl, fun _ ↦ rfl, rfl⟩
    signatureInfoWire := rfl
    signatureValue := rfl }
  setters := fun _ ↦ rfl

/-- When encoding leaves a packet as it was. -/
theorem isUnchanged_iff {data next : Data} (hrepresentable : data.IsRepresentable)
    (hencode : data.wireEncode = .ok (bytes, next)) (hsize : bytes.length < 2 ^ 64) :
    data.IsUnchanged next ↔ (data.wire = none → data.IsSettled) := by
  cases hstored : data.wire with
  | some wire =>
    rcases CodeStore.recall_cases hencode with ⟨-, rfl⟩ | ⟨hnone, -⟩
    · exact iff_of_true (.refl next) nofun
    · have hwire : data.wire = none := hnone
      rw [hstored] at hwire
      cases hwire
  | none =>
    obtain ⟨content, info, value, -, -, -, -, hread⟩ :=
      exists_signedBlock_of_wireEncode hrepresentable hstored hencode hsize
    have hiff := hread.sameFields_iff hrepresentable
    constructor
    · intro hunchanged _
      exact hiff.mp hunchanged.fields
    · intro hsettled
      have hsame := hiff.mpr (hsettled rfl)
      have hlike := hread.writesLike hsame (hsettled rfl)
      exact ⟨hsame, fun setter ↦ (hlike.encoding_assign_eq setter).symm⟩

end Data

end NdnCxx.Packet
