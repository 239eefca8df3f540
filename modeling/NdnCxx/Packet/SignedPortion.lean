import NdnCxx.Packet.Writers

/-!
# The signed portion of a Data packet

A packet is signed in two calls on one encoder: the unsigned portion is written, its bytes are
signed, and then the signature value is appended and the header put in front. The verifier takes the
value of the decoded packet without the bytes of the signature value. Both must be the same bytes, and
the packet the same as the one that `wireEncode()` makes when the signature value is set.

`appendBlock` writes the signature value as it is. A value that only has sub-elements would have to be
encoded first, as `Signature::getValue` does on the other route.
-/

namespace NdnCxx.Packet

namespace Data

/-- `Data::wireEncode(EncodingBuffer&, const Block&)`, which writes on an encoder that holds the
unsigned portion -/
def wireEncodeSigned (data : Data) (encoder : Encoder) (signatureValue : Block.Unencoded) :
    Except Error Data := do
  let (valueLength, withValue) := encoder.appendBlock ⟨signatureValue.type, signatureValue.content⟩
  let totalLength := encoder.size + valueLength
  let (_, withLength) := withValue.prependVarNumber totalLength
  let (_, withType) := withLength.prependVarNumber Tlv.data
  data.wireDecode (← withType.block)

/-- The bytes that `Validator::verifySignature(const Data&, const PublicKey&)` hashes -/
def verifiedBytes (data : Data) : Except Error Bytes := do
  let (wire, encoded) ← data.wireEncode
  let block ← Block.fromWire wire
  let value ← encoded.signature.value.encode
  return block.value.take (block.value.length - value.size)

/-- Signing on the encoder gives the packet that `wireEncode()` gives with the same signature value,
and whoever decodes it hashes the bytes that were signed. -/
def SigningAgrees (data : Data) (encoder : Encoder) (signatureValue : Block.Unencoded) : Prop :=
  ∃ count unsigned signed packet block,
    data.wireEncodeOn true encoder = .ok (count, unsigned) ∧
    data.wireEncodeSigned unsigned signatureValue = .ok signed ∧ signed.wire = some packet ∧
    (∃ valued next, data.setSignatureValue signatureValue = .ok valued ∧
      valued.wireEncode = .ok (packet, next)) ∧
    Block.fromWire packet = .ok block ∧
    ∀ fresh : Data, ∃ received, fresh.wireDecode block = .ok received ∧
      received.verifiedBytes = .ok unsigned.content

/-- The block is appended as it would be encoded, and its size has 32 bits: it has a wire or a value
that is short enough, or its sub-elements have no bytes. -/
def IsAppendable (signatureValue : Block.Unencoded) : Prop :=
  match signatureValue.content with
  | .wire _ wire => wire.length < 2 ^ 32
  | .value value => (Block.ofValue signatureValue.type value).wire.length < 2 ^ 32
  | .empty => ∃ sizes, signatureValue.subBlocks.mapM Block.Element.size = .ok sizes ∧
      sizes.sum % 2 ^ 64 = 0

/-! ## The bytes of the two routes -/

/-- The second call puts the header in front of the unsigned portion and the signature value. -/
theorem wireEncodeSigned_eq (data : Data) (encoder : Encoder) (signatureValue : Block.Unencoded) :
    data.wireEncodeSigned encoder signatureValue = (do
      data.wireDecode (← Block.fromWire (Tlv.prependByteArrayBlock Tlv.data (encoder.content ++
        Block.Element.prependBlock ⟨signatureValue.type, signatureValue.content⟩)))) := by
  let element : Block.Element := ⟨signatureValue.type, signatureValue.content⟩
  obtain ⟨hcontent, hlength⟩ := encoder.appendBlock_spec element
  have hsize : encoder.size + (encoder.appendBlock element).1 =
      (encoder.content ++ element.prependBlock).length := by
    rw [hlength, List.length_append, Encoder.size, Window.length_content]
  have hheader := (((encoder.appendBlock element).2.prependVarNumber_spec
    (encoder.size + (encoder.appendBlock element).1)))
  have htype := Encoder.prependVarNumber_spec (((encoder.appendBlock element).2.prependVarNumber
    (encoder.size + (encoder.appendBlock element).1)).2) Tlv.data
  have hwhole := htype.1
  rw [hheader.1, hcontent, hsize] at hwhole
  simp only [wireEncodeSigned, Encoder.block]
  rw [← hsize] at hwhole
  rw [hwhole, hsize]
  rfl

theorem wireEncodeInto_eq_bind {data : Data} (hsigned : data.signature.info.type ≠ -1) :
    data.wireEncodeInto = (do
      let value ← data.signature.value.encode
      let unsigned ← data.unsignedBytes
      return Tlv.prependByteArrayBlock Tlv.data (unsigned ++ Block.prependWire value.wire)) := by
  rw [wireEncodeInto, if_neg hsigned]
  simp only [unsignedBytes, bind_assoc, pure_bind, List.append_assoc]

/-! ## Blocks that only have sub-elements -/

variable {subBlocks : List Block.Element} {decodedInfo : SignatureInfo}

/-- Sub-elements that have a size can be written, and what is written has that size in 32 bits. -/
theorem exists_written_of_sizes {sizes : List ℕ}
    (hsizes : subBlocks.mapM Block.Element.size = .ok sizes) :
    ∃ written, subBlocks.mapM Block.Element.write = .ok written ∧
      written.flatten.length % 2 ^ 32 = sizes.sum % 2 ^ 32 := by
  induction subBlocks generalizing sizes with
  | nil =>
    cases hsizes
    exact ⟨[], rfl, rfl⟩
  | cons element subBlocks ih =>
    rw [List.mapM_cons, bind_eq_ok_iff] at hsizes
    obtain ⟨size, hsize, hsizes⟩ := hsizes
    rw [bind_eq_ok_iff] at hsizes
    obtain ⟨laterSizes, hlater, hsizes⟩ := hsizes
    cases hsizes
    obtain ⟨written, hwritten, hlength⟩ := ih hlater
    have hfirst : ∃ bytes, element.write = .ok bytes ∧ bytes.length % 2 ^ 32 = size % 2 ^ 32 := by
      obtain ⟨type, content⟩ := element
      cases content with
      | wire value wire =>
        cases hsize
        refine ⟨_, rfl, ?_⟩
        have hle : wire.length % 2 ^ 32 ≤ wire.length := Nat.mod_le _ _
        rw [List.length_take, Nat.min_eq_left hle]
      | value value =>
        cases hsize
        refine ⟨_, rfl, ?_⟩
        rw [Nat.mod_mod, ← Block.length_wire_ofValue]
        rfl
      | empty => cases hsize
    obtain ⟨bytes, hbytes, hcount⟩ := hfirst
    refine ⟨bytes :: written, ?_, ?_⟩
    · simp only [List.mapM_cons, hbytes, hwritten, bind, Except.bind, pure, Except.pure]
    · rw [List.flatten_cons, List.length_append, List.sum_cons, Nat.add_mod, hcount, hlength,
        ← Nat.add_mod]

theorem assignWire_header {type length : ℕ} (htype : type < 2 ^ 32) (hlength : length < 2 ^ 64)
    (rest : Bytes) :
    Block.assignWire type (Tlv.writeVarNumber type ++ (Tlv.writeVarNumber length ++ rest)) =
      .ok ⟨type, rest, Tlv.writeVarNumber type ++ (Tlv.writeVarNumber length ++ rest)⟩ := by
  have hreadType := Tlv.readTypeOrThrow_eq_ok_iff.mpr
    (Tlv.readType_writeVarNumber_append htype (Tlv.writeVarNumber length ++ rest))
  have hreadLength := Tlv.readVarNumberOrThrow_eq_ok_iff.mpr
    (Tlv.readVarNumber_writeVarNumber_append hlength rest)
  simp only [Block.assignWire, hreadType, hreadLength, bind, Except.bind, pure, Except.pure]

variable {encoded : Block}

/-- Encoding a block without wire and value: the sub-elements stand behind the sum of their sizes. -/
theorem encode_subBlocks_eq_ok_iff {type : ℕ} (htype : type < 2 ^ 32) :
    Block.Unencoded.encode ⟨type, .empty, subBlocks⟩ = .ok encoded ↔
      ∃ sizes written, subBlocks.mapM Block.Element.size = .ok sizes ∧
        subBlocks.mapM Block.Element.write = .ok written ∧
        encoded = ⟨type, written.flatten, Tlv.writeVarNumber type ++
          (Tlv.writeVarNumber (sizes.sum % 2 ^ 64) ++ written.flatten)⟩ := by
  have hlength : ∀ sizes : List ℕ, sizes.sum % 2 ^ 64 < 2 ^ 64 := fun sizes ↦
    Nat.mod_lt _ (by decide)
  cases subBlocks with
  | nil =>
    have hempty := assignWire_header htype (hlength []) []
    have hencode : Block.Unencoded.encode ⟨type, .empty, []⟩ = .ok ⟨type, [],
        Tlv.writeVarNumber type ++ (Tlv.writeVarNumber 0 ++ [])⟩ := by
      rw [List.append_nil]
      exact hempty
    rw [hencode, Except.ok.injEq]
    constructor
    · rintro rfl
      exact ⟨[], [], rfl, rfl, rfl⟩
    · rintro ⟨sizes, written, hsizes, hwritten, rfl⟩
      cases hsizes
      cases hwritten
      rfl
  | cons element subBlocks =>
    simp only [Block.Unencoded.encode, List.isEmpty_cons, Bool.false_eq_true, if_false,
      bind_eq_ok_iff, assignWire_header htype (hlength _), Except.ok.injEq]
    constructor
    · rintro ⟨sizes, hsizes, written, hwritten, rfl⟩
      exact ⟨sizes, written, hsizes, hwritten, rfl⟩
    · rintro ⟨sizes, written, hsizes, hwritten, rfl⟩
      exact ⟨sizes, hsizes, written, hwritten, rfl⟩

/-- A signature value with 32 bits of size is appended as the block that it is encoded as. -/
theorem IsAppendable.exists_value {signatureValue : Block.Unencoded}
    (happendable : IsAppendable signatureValue) (htype : signatureValue.type = Tlv.signatureValue)
    (hwell : Block.Element.IsWellFormed ⟨signatureValue.type, signatureValue.content⟩) :
    ∃ encoded value, signatureValue.encode = .ok encoded ∧
      Block.prependWire encoded.wire = value.wire ∧
      Block.Element.prependBlock ⟨signatureValue.type, signatureValue.content⟩ = value.wire ∧
      IsSignatureValue value := by
  have hsmall : Tlv.signatureValue < 2 ^ 32 := by decide
  obtain ⟨type, content, subBlocks⟩ := signatureValue
  obtain rfl : type = Tlv.signatureValue := htype
  cases content with
  | wire value wire =>
    have hfits : wire.length < 2 ^ 32 := happendable
    exact ⟨_, _, rfl, Block.prependWire_eq hfits, Block.prependWire_eq hfits, rfl, hwell.2, hfits⟩
  | value value =>
    have hfits : (Block.ofValue Tlv.signatureValue value).wire.length < 2 ^ 32 := happendable
    have hvalue := Block.length_value_le_wire_ofValue Tlv.signatureValue value
    exact ⟨_, _, Block.assignWire_prependByteArrayBlock hsmall (by omega),
      Block.prependWire_eq hfits, rfl, rfl, Block.ofValue_isWire hsmall (by omega), hfits⟩
  | empty =>
    obtain ⟨sizes, hsizes, hsum⟩ := happendable
    obtain ⟨written, hwritten, hlength⟩ := exists_written_of_sizes hsizes
    have hencode := (encode_subBlocks_eq_ok_iff hsmall).mpr
      ⟨sizes, written, hsizes, hwritten, rfl⟩
    refine ⟨_, Block.ofValue Tlv.signatureValue [], hencode, ?_, rfl, rfl, by decide, by decide⟩
    rw [hsum]
    have hcount : (Tlv.writeVarNumber Tlv.signatureValue ++
        (Tlv.writeVarNumber 0 ++ written.flatten)).length % 2 ^ 32 = 2 := by
      have hheader : Tlv.writeVarNumber Tlv.signatureValue ++
        (Tlv.writeVarNumber 0 ++ written.flatten) = [23, 0] ++ written.flatten := rfl
      rw [hheader, List.length_append]
      change (2 + written.flatten.length) % 2 ^ 32 = 2
      omega
    rw [Block.prependWire, hcount]
    rfl

theorem eq_zero_of_writeVarNumber_append {number : ℕ} {behind rest : Bytes}
    (hhead : Tlv.writeVarNumber number ++ behind = 0 :: rest) : number = 0 := by
  unfold Tlv.writeVarNumber at hhead
  split_ifs at hhead with hsmall
  · have hbyte : UInt8.ofNat number = 0 := (List.cons.inj hhead).1
    have hnumber := congrArg UInt8.toNat hbyte
    rw [UInt8.toNat_ofNat'] at hnumber
    change number % 2 ^ 8 = 0 at hnumber
    omega
  all_goals exact absurd (List.cons.inj hhead).1 (by decide)

/-- A block that is not kept as a wire is appended as it is encoded only if it is appendable. -/
theorem isAppendable_of_same {signatureValue : Block.Unencoded}
    (htype : signatureValue.type = Tlv.signatureValue)
    (hnotWire : ∀ value wire, signatureValue.content ≠ .wire value wire)
    (hencode : signatureValue.encode = .ok encoded)
    (hsame : Block.Element.prependBlock ⟨signatureValue.type, signatureValue.content⟩ =
      Block.prependWire encoded.wire) : IsAppendable signatureValue := by
  have hsmall : Tlv.signatureValue < 2 ^ 32 := by decide
  obtain ⟨type, content, subBlocks⟩ := signatureValue
  obtain rfl : type = Tlv.signatureValue := htype
  cases content with
  | wire value wire => exact absurd rfl (hnotWire value wire)
  | value value =>
    have hassign : Block.assignWire Tlv.signatureValue
        (Tlv.prependByteArrayBlock Tlv.signatureValue value) = .ok encoded := hencode
    rw [Block.assignWire, bind_eq_ok_iff] at hassign
    obtain ⟨_, -, hassign⟩ := hassign
    rw [bind_eq_ok_iff] at hassign
    obtain ⟨_, -, hassign⟩ := hassign
    cases hassign
    have hcut := congrArg List.length hsame
    change (Block.ofValue Tlv.signatureValue value).wire.length =
      ((Block.ofValue Tlv.signatureValue value).wire.take
        ((Block.ofValue Tlv.signatureValue value).wire.length % 2 ^ 32)).length at hcut
    rw [List.length_take] at hcut
    have hmod := Nat.mod_lt (Block.ofValue Tlv.signatureValue value).wire.length
      (show 2 ^ 32 > 0 by decide)
    change (Block.ofValue Tlv.signatureValue value).wire.length < 2 ^ 32
    omega
  | empty =>
    obtain ⟨sizes, written, hsizes, -, rfl⟩ := (encode_subBlocks_eq_ok_iff hsmall).mp hencode
    refine ⟨sizes, hsizes, ?_⟩
    have hprefixed : [(23 : UInt8), 0] <+: Tlv.writeVarNumber Tlv.signatureValue ++
        (Tlv.writeVarNumber (sizes.sum % 2 ^ 64) ++ written.flatten) := by
      have htake : Block.prependWire (Tlv.writeVarNumber Tlv.signatureValue ++
          (Tlv.writeVarNumber (sizes.sum % 2 ^ 64) ++ written.flatten)) = [23, 0] := hsame.symm
      rw [← htake]
      exact List.take_prefix _ _
    obtain ⟨rest, hrest⟩ := hprefixed
    have hsecond : 0 :: rest = Tlv.writeVarNumber (sizes.sum % 2 ^ 64) ++ written.flatten :=
      (List.cons.inj hrest).2
    exact eq_zero_of_writeVarNumber_append hsecond.symm

/-! ## Signing and verifying -/

/-- A packet with a wire is verified over the value of the wire, up to the size of its signature
value. -/
theorem verifiedBytes_of_wire {data : Data} {wire unsigned : Bytes} {block value : Block}
    (hstored : data.wire = some wire) (hblock : Block.fromWire wire = .ok block)
    (hvalue : data.signature.value.encode = .ok value)
    (hbytes : block.value.take (block.value.length - value.size) = unsigned) :
    data.verifiedBytes = .ok unsigned := by
  have hencode : data.wireEncode = .ok (wire, data) := by
    have hcode : codes.stored data = some wire := hstored
    simp only [wireEncode, CodeStore.recallCode, hcode]
  simp only [verifiedBytes, hencode, hblock, hvalue, hbytes, bind, Except.bind, pure, Except.pure]

/-- With the signature value appended as a block, the second call decodes the packet of its elements,
in which the bytes of the encoder stand before it. -/
theorem wireEncodeSigned_eq_wireDecode {data : Data} {encoder : Encoder} {content info value : Block}
    (signatureValue : Block.Unencoded) (hvalue : IsSignatureValue value)
    (hcontent : encoder.content = (data.unsignedElements content info).flatMap Block.wire)
    (hsize : ((data.unsignedElements content info).flatMap Block.wire).length < 2 ^ 63)
    (happended : Block.Element.prependBlock ⟨signatureValue.type, signatureValue.content⟩ =
      value.wire) :
    (data.signedBlock content info value).wire.length < 2 ^ 64 ∧
      Block.fromWire (data.signedBlock content info value).wire =
        .ok (data.signedBlock content info value) ∧
      data.wireEncodeSigned encoder signatureValue =
        data.wireDecode (data.signedBlock content info value) ∧
      (data.signedBlock content info value).value.take
        ((data.signedBlock content info value).value.length - value.size) = encoder.content := by
  have hlength : (data.signedBlock content info value).wire.length < 2 ^ 64 := by
    have hfits := hvalue.fits
    have htypeSize := Tlv.sizeOfVarNumber_le Tlv.data
    have hlengthSize := Tlv.sizeOfVarNumber_le
      (((data.unsignedElements content info).flatMap Block.wire).length + value.wire.length)
    rw [signedBlock, Block.ofElements, Block.length_wire_ofValue, List.flatMap_append,
      List.flatMap_singleton, List.length_append]
    omega
  have hblock : Block.fromWire (data.signedBlock content info value).wire =
      .ok (data.signedBlock content info value) := Block.fromWire_ofElements (by decide) hlength
  have hbytes : Tlv.prependByteArrayBlock Tlv.data (encoder.content ++
      Block.Element.prependBlock ⟨signatureValue.type, signatureValue.content⟩) =
        (data.signedBlock content info value).wire := by
    rw [hcontent, happended]
    simp only [signedBlock, Block.ofElements, List.flatMap_append, List.flatMap_singleton]
    rfl
  refine ⟨hlength, hblock, ?_, ?_⟩
  · rw [wireEncodeSigned_eq, hbytes, hblock]
    rfl
  · rw [Block.size, Nat.mod_eq_of_lt hvalue.fits, hcontent]
    simp [signedBlock, Block.ofElements, Block.ofValue]

section Signing

variable {data : Data} {encoder : Encoder} {content info : Block} {signatureValue : Block.Unencoded}
  (hparts : data.IsMadeOf content info)
include hparts

theorem unsignedBytes_eq :
    data.unsignedBytes = .ok ((data.unsignedElements content info).flatMap Block.wire) := by
  obtain ⟨answered, hwritten⟩ := hparts.info_written
  simp only [unsignedBytes, hwritten, hparts.content_eq, bind, Except.bind, pure, Except.pure,
    Block.prependWire_eq hparts.content_fits, Block.prependWire_eq hparts.info_fits,
    Name.wireEncode_eq, MetaInfo.wireEncodeInto_eq hparts.metaInfo, unsignedElements,
    List.flatMap_cons, List.flatMap_nil, List.append_nil]

/-- The first call leaves the unsigned portion in an encoder that was empty. -/
theorem exists_unsigned (hempty : encoder.content = []) :
    ∃ count unsigned, data.wireEncodeOn true encoder = .ok (count, unsigned) ∧
      unsigned.content = (data.unsignedElements content info).flatMap Block.wire := by
  have hputs := data.puts_wireEncodeOn_unsigned
  rw [unsignedBytes_eq hparts] at hputs
  obtain ⟨⟨count, unsigned⟩, hresult, hcontent, -⟩ := hputs encoder
  rw [hempty, List.append_nil] at hcontent
  exact ⟨count, unsigned, hresult, hcontent⟩

/-- Setting the signature value changes neither the unsigned portion nor its parts. -/
theorem isMadeOf_setSignatureValue :
    IsMadeOf { data.onChanged with signature := { data.signature with value := signatureValue } }
      content info where
  name := hparts.name
  metaInfo := hparts.metaInfo
  content_eq := hparts.content_eq
  content_type := hparts.content_type
  content_isWire := hparts.content_isWire
  content_fits := hparts.content_fits
  signed := hparts.signed
  info_written := hparts.info_written
  info_type := hparts.info_type
  info_isWire := hparts.info_isWire
  info_fits := hparts.info_fits

theorem signingAgrees_of_isAppendable
    (hdecoded : SignatureInfo.wireDecode {} info = .ok decodedInfo) (hempty : encoder.content = [])
    (htype : signatureValue.type = Tlv.signatureValue)
    (hwell : Block.Element.IsWellFormed ⟨signatureValue.type, signatureValue.content⟩)
    (hsize : ((data.unsignedElements content info).flatMap Block.wire).length < 2 ^ 63)
    (happendable : IsAppendable signatureValue) : data.SigningAgrees encoder signatureValue := by
  obtain ⟨encoded, value, hencode, hsame, happended, hvalue⟩ :=
    happendable.exists_value htype hwell
  obtain ⟨count, unsigned, hunsigned, hcontent⟩ := exists_unsigned hparts hempty
  obtain ⟨hlength, hblock, hsigned, htake⟩ :=
    wireEncodeSigned_eq_wireDecode signatureValue hvalue hcontent hsize happended
  have hread := wireDecode_signedBlock hparts hvalue hlength hdecoded
  have hset : data.setSignatureValue signatureValue = .ok
      { data.onChanged with signature := { data.signature with value := signatureValue } } := by
    simp only [setSignatureValue, Signature.setValue, if_neg (not_not.mpr htype), bind, Except.bind,
      pure, Except.pure]
  obtain ⟨next, hnext⟩ := wireEncode_eq_signedBlock (isMadeOf_setSignatureValue hparts) hvalue
    hlength rfl hencode hsame hdecoded
  refine ⟨count, unsigned, _, _, _, hunsigned, hsigned.trans (hread data), rfl,
    ⟨_, next, hset, hnext⟩, hblock, fun fresh ↦ ⟨_, hread fresh, ?_⟩⟩
  exact verifiedBytes_of_wire rfl hblock rfl htake

/-- Both routes have written the same bytes for the signature value, behind the unsigned portion. -/
theorem SigningAgrees.exists_same (hagrees : data.SigningAgrees encoder signatureValue)
    (hempty : encoder.content = []) :
    ∃ encoded, signatureValue.encode = .ok encoded ∧
      Block.Element.prependBlock ⟨signatureValue.type, signatureValue.content⟩ =
        Block.prependWire encoded.wire ∧
      ∃ received, wireDecode {} (Block.ofValue Tlv.data
        ((data.unsignedElements content info).flatMap Block.wire ++
          Block.Element.prependBlock ⟨signatureValue.type, signatureValue.content⟩)) = .ok received ∧
        received.verifiedBytes = .ok ((data.unsignedElements content info).flatMap Block.wire) := by
  obtain ⟨count, unsigned, signed, packet, block, hunsigned, hsigned, hpacket,
    ⟨valued, next, hset, hnext⟩, hblock, hverify⟩ := hagrees
  obtain ⟨count', unsigned', hunsigned', hcontent⟩ := exists_unsigned hparts hempty
  rw [hunsigned] at hunsigned'
  obtain ⟨rfl, rfl⟩ := Prod.mk.inj (Except.ok.inj hunsigned')
  rw [wireEncodeSigned_eq, bind_eq_ok_iff, hcontent] at hsigned
  obtain ⟨made, hmade, hdecode⟩ := hsigned
  obtain ⟨-, rfl⟩ := (Block.fromWire_prependByteArrayBlock_eq_ok_iff (by decide)).mp hmade
  rw [wire_of_wireDecode hdecode] at hpacket
  cases hpacket
  rw [(show Block.fromWire (Block.ofValue Tlv.data _).wire = _ from hmade)] at hblock
  cases hblock
  obtain ⟨received, hreceived, hverified⟩ := hverify {}
  rw [hcontent] at hverified
  simp only [setSignatureValue, Signature.setValue, bind_eq_ok_iff] at hset
  obtain ⟨signature, hsignature, hvalued⟩ := hset
  split_ifs at hsignature with htype
  cases hsignature
  cases hvalued
  rcases CodeStore.recall_cases hnext with ⟨hstored, -⟩ | ⟨-, hencode, -⟩
  · cases hstored
  · have hbuffer : wireEncodeInto { data.onChanged with
        signature := { data.signature with value := signatureValue } } >>= bufferBlock = .ok _ :=
      hencode
    rw [wireEncodeInto_eq_bind (isMadeOf_setSignatureValue hparts).signed, bind_eq_ok_iff] at hbuffer
    obtain ⟨bytes, hbytes, hbuffer⟩ := hbuffer
    rw [bind_eq_ok_iff] at hbytes
    obtain ⟨encoded, hencoded, hbytes⟩ := hbytes
    rw [bind_eq_ok_iff] at hbytes
    obtain ⟨unsignedBytes, hunsignedBytes, hbytes⟩ := hbytes
    rw [unsignedBytes_eq (isMadeOf_setSignatureValue hparts)] at hunsignedBytes
    cases hunsignedBytes
    cases hbytes
    obtain ⟨-, hsame⟩ := (bufferBlock_eq_ok_iff (by decide)).mp hbuffer
    have hvalue := List.append_cancel_left (Block.prependByteArrayBlock_injective hsame)
    exact ⟨encoded, hencoded, hvalue, received, hreceived, hverified⟩

/-- A packet without a signature value is not verified over the bytes that were signed: the signature
value that a fresh packet has instead is taken for six bytes. -/
theorem verifiedBytes_ne_of_no_value {received : Data}
    (hsize : ((data.unsignedElements content info).flatMap Block.wire).length < 2 ^ 63)
    (hreceived : wireDecode {} (Block.ofValue Tlv.data
      ((data.unsignedElements content info).flatMap Block.wire)) = .ok received) :
    received.verifiedBytes ≠ .ok ((data.unsignedElements content info).flatMap Block.wire) := by
  have hwires := unsignedElements_isWire hparts (hsize.trans (by decide))
  have hvalue : received.signature.value = ⟨2 ^ 32 - 1, .empty, []⟩ := by
    obtain ⟨-, -, -, -, hnot⟩ := data.find_unsignedElements hparts.content_type hparts.info_type []
    rw [List.append_nil] at hnot
    simp only [wireDecode, Block.ofValue, Block.parse_flatMap_wire hwires, bind_eq_ok_iff,
      Except.ok.injEq, exists_eq_left', Signature.setInfo] at hreceived
    obtain ⟨nameBlock, -, name, -, metaInfoBlock, -, metaInfo, -, contentBlock, -, infoBlock, -,
      unvalued, hunvalued, signature, hsignature, hdata⟩ := hreceived
    obtain ⟨decoded, -, hunvalued⟩ := hunvalued
    cases hunvalued
    rw [hnot] at hsignature
    cases hsignature
    cases hdata
    rfl
  have hencode : received.signature.value.encode =
      .ok ⟨2 ^ 32 - 1, [], [254, 255, 255, 255, 255, 0]⟩ := by
    rw [hvalue]
    rfl
  have hblock := (Block.fromWire_prependByteArrayBlock_eq_ok_iff (show Tlv.data < 2 ^ 32 by decide)).mpr
    ⟨hsize.trans (by decide), rfl⟩
  intro hverified
  have hcut := verifiedBytes_of_wire (wire_of_wireDecode hreceived) hblock hencode rfl
  rw [hverified] at hcut
  have hlength := congrArg List.length (Except.ok.inj hcut)
  rw [List.length_take] at hlength
  have hname : 0 < ((data.unsignedElements content info).flatMap Block.wire).length := by
    have hne := (hwires data.name.toBlock (by simp [unsignedElements])).wire_ne_nil
    have hpos := List.length_pos_iff.mpr hne
    simp only [unsignedElements, List.flatMap_cons, List.length_append]
    omega
  have hsix : Block.size ⟨2 ^ 32 - 1, [], [254, 255, 255, 255, 255, 0]⟩ = 6 := rfl
  rw [hsix] at hlength
  change _ = min (((data.unsignedElements content info).flatMap Block.wire).length - 6)
    ((data.unsignedElements content info).flatMap Block.wire).length at hlength
  omega

theorem SigningAgrees.isAppendable (hagrees : data.SigningAgrees encoder signatureValue)
    (hempty : encoder.content = []) (htype : signatureValue.type = Tlv.signatureValue)
    (hwell : Block.Element.IsWellFormed ⟨signatureValue.type, signatureValue.content⟩)
    (hsize : ((data.unsignedElements content info).flatMap Block.wire).length < 2 ^ 63) :
    IsAppendable signatureValue := by
  obtain ⟨encoded, hencode, hsame, received, hreceived, hverified⟩ :=
    hagrees.exists_same hparts hempty
  obtain ⟨type, valueContent, subBlocks⟩ := signatureValue
  cases valueContent with
  | value value => exact isAppendable_of_same htype (by simp) hencode hsame
  | empty => exact isAppendable_of_same htype (by simp) hencode hsame
  | wire value wire =>
    by_contra hlong
    have htoo : ¬ wire.length < 2 ^ 32 := hlong
    have hmod := Nat.mod_lt wire.length (show 2 ^ 32 > 0 by decide)
    change wireDecode {} (Block.ofValue Tlv.data
      ((data.unsignedElements content info).flatMap Block.wire ++ Block.prependWire wire)) =
        .ok received at hreceived
    obtain ⟨elements, fresh, hparse, -, -⟩ := wireDecode_eq_ok_iff.mp hreceived
    obtain ⟨rest, -, hrest⟩ := Block.parse_flatMap_wire_append
      (unsignedElements_isWire hparts (hsize.trans (by decide))) hparse
    obtain ⟨hcut, hwires⟩ := Block.parse_eq_ok_iff.mp hrest
    cases rest with
    | nil =>
      rw [hcut, List.flatMap_nil, List.append_nil] at hreceived
      exact verifiedBytes_ne_of_no_value hparts hsize hreceived hverified
    | cons element later =>
      -- a wire that is cut off is no block
      have hread := (hwires element List.mem_cons_self).fromBuffer_append
        (later.flatMap Block.wire)
      rw [← List.flatMap_cons, ← hcut] at hread
      have hunfinished : (Block.prependWire wire).length < wire.length := by
        rw [Block.prependWire, List.length_take]
        omega
      have hnone := Block.IsWire.fromBuffer_eq_none hwell.2 (List.take_prefix _ wire) hunfinished
      rw [Block.prependWire] at hread
      rw [hread] at hnone
      cases hnone

end Signing

/-- Both routes give the same packet, and its signed bytes are those that are verified, exactly if the
signature value is appended as it is encoded and its size has 32 bits. -/
theorem signingAgrees_iff_isAppendable {data : Data} {encoder : Encoder} {content info : Block}
    {signatureValue : Block.Unencoded} (hparts : data.IsMadeOf content info)
    (hdecoded : SignatureInfo.wireDecode {} info = .ok decodedInfo)
    (hsize : ((data.unsignedElements content info).flatMap Block.wire).length < 2 ^ 63)
    (hempty : encoder.content = []) (htype : signatureValue.type = Tlv.signatureValue)
    (hwell : Block.Element.IsWellFormed ⟨signatureValue.type, signatureValue.content⟩) :
    data.SigningAgrees encoder signatureValue ↔ IsAppendable signatureValue :=
  ⟨fun hagrees ↦ hagrees.isAppendable hparts hempty htype hwell hsize,
    fun happendable ↦ signingAgrees_of_isAppendable hparts hdecoded hempty htype hwell hsize
      happendable⟩

def keySignatureInfo : SignatureInfo where
  type := 1
  hasKeyLocator := true
  keyLocator := { type := .name, name := [.generic [0x4b]] }

/-- A packet with a name, MetaInfo and content that is about to be signed -/
def unsignedPacket : Data where
  name := [.generic [0x41], .generic [0x42]]
  metaInfo := { freshnessPeriod := 10000, finalBlockId := .generic [0x43] }
  content := ⟨Tlv.content, .value [1, 2, 3], []⟩
  signature := { info := keySignatureInfo }

theorem signingAgrees_unsignedPacket :
    unsignedPacket.SigningAgrees (Encoder.make 8 0) ⟨Tlv.signatureValue, .value [4, 5], []⟩ := by
  have hparts : unsignedPacket.IsMadeOf (Block.ofValue Tlv.content [1, 2, 3])
      keySignatureInfo.toBlock := {
    name := by decide
    metaInfo := ⟨by decide, by decide, by decide, by decide⟩
    content_eq := rfl
    content_type := rfl
    content_isWire := by decide
    content_fits := by decide
    signed := by decide
    info_written := ⟨_, rfl⟩
    info_type := rfl
    info_isWire := by decide
    info_fits := by decide }
  apply (signingAgrees_iff_isAppendable hparts rfl (by decide) (by decide) rfl (by decide)).mpr
  change (Block.ofValue Tlv.signatureValue [4, 5]).wire.length < 2 ^ 32
  decide

/-- A signature value with a sub-element that has not been encoded is appended as an empty block, and
encoded with its sub-element on the other route. -/
theorem signing_loses_subBlocks :
    ∃ count unsigned signed valued next,
      wireEncodeOn { signature := { info := { type := 0 } } } true (Encoder.make 8 0) =
        .ok (count, unsigned) ∧
      wireEncodeSigned { signature := { info := { type := 0 } } } unsigned
        ⟨Tlv.signatureValue, .empty, [⟨1, .value [5]⟩]⟩ = .ok signed ∧
      signed.wire = some [6, 13, 7, 0, 20, 0, 21, 0, 22, 3, 27, 1, 0, 23, 0] ∧
      setSignatureValue { signature := { info := { type := 0 } } }
        ⟨Tlv.signatureValue, .empty, [⟨1, .value [5]⟩]⟩ = .ok valued ∧
      valued.wireEncode =
        .ok ([6, 16, 7, 0, 20, 0, 21, 0, 22, 3, 27, 1, 0, 23, 3, 1, 1, 5], next) :=
  ⟨_, _, _, _, _, rfl, rfl, rfl, rfl, rfl⟩

end Data

end NdnCxx.Packet
