import NdnCxx.Packet.StoredWires

/-!
# Stored wires of packets

An Interest and a Data packet read themselves back from the wire that they were encoded to. The wire
stays theirs only if what was read is written in the same way: an Interest loses a link that is not a
Data packet, and a Data packet takes the blocks of applications in once more, drops a FinalBlockId
that is a digest and turns the type-specific TLVs round.
-/

namespace NdnCxx.Packet

open Block (presentIf)

/-! ## Interests -/

variable {bytes : Bytes} {event : CodeStore.Event Call}

namespace Interest

def withoutWires (interest : Interest) : Interest :=
  { interest with selectors := interest.selectors.withoutWires, wire := none }

/-- A received wire holds what it is read as, in the form in which this is written. -/
def IsCanonical (random : UInt32) (wire : Block) : Prop :=
  wire.wire.length < 2 ^ 64 ∧ ∀ decoded, wireDecode {} wire = .ok decoded →
    decoded.IsWritable ∧ decoded.toBlock random = wire

/-- Received wires are canonical, and the stored wire is kept in step. A link of an Interest that is
encoded anew is a Data packet. -/
def Allows (random : UInt32) (interest : Interest) : CodeStore.Event Call → Prop
  | .change (.wireDecode wire _) => IsCanonical random wire
  | .change (.wireDecodeAssembled wire elements _) =>
      Block.parse wire.value = .ok elements ∧ IsCanonical random wire
  | .change call => interest.KeepsInStep (.change call)
  | .recallCode => interest.wire = none →
      interest.IsRepresentable ∧ (interest.toBlock random).wire.length < 2 ^ 64 ∧
        ∀ link ∈ interest.link, link.type = Tlv.data

/-- A stored wire is the one that the Interest is written as and would be read from. -/
def IsCurrent (random : UInt32) (interest : Interest) : Prop :=
  interest.wire ≠ none → interest.IsWritable ∧ (interest.toBlock random).wire.length < 2 ^ 64 ∧
    interest.IsReadFrom (interest.toBlock random)

variable {random : UInt32}

theorem isCurrent_of_wire_eq_none {interest : Interest} (hnone : interest.wire = none) :
    interest.IsCurrent random := fun hstored ↦ absurd hnone hstored

variable {word : UInt32}

/-- Of the nonce, only four bytes change, in the fields and in the wire. -/
theorem IsCurrent.setNonce_of_length {interest : Interest} {nonce : Block}
    (hcurrent : interest.IsCurrent random) (hspares : ¬ interest.SetsApart word)
    (hstored : interest.wire ≠ none) (hnonce : interest.nonce = some nonce)
    (hlength : nonce.value.length = 4) : (interest.setNonce word).IsCurrent random := by
  obtain ⟨hwritable, hsize, decoded, hdecode, hread⟩ := hcurrent hstored
  rcases hread.symm with rfl | rfl
  · rwa [setNonce_detach hdecode hnonce hlength hspares]
  have hwire : (interest.toBlock random).IsWire := Block.ofElements_isWire (by decide) hsize
  have hwritten : interest.writtenNonce random = nonce := by simp [writtenNonce, hnonce]
  obtain ⟨htype, hnonceWire, -⟩ := hwritable.nonce nonce hnonce
  have hparse := parse_toBlock hwritable hsize
  obtain ⟨elements, found, hread, hget, hfound, hshared⟩ := exists_elements_of_wireDecode hdecode
  obtain rfl : nonce = found := Option.some.inj (hnonce.symm.trans hfound)
  obtain rfl := Except.ok.inj (hparse.symm.trans hread)
  rw [elements_eq, hwritten] at hparse hshared
  obtain ⟨-, hparse', hset⟩ := setNonce_eq_of_length hwire hparse htype
    type_ne_of_mem_elementsBefore hshared hnonce hlength word
  have hsame : (wordBytes word).length = nonce.value.length := by rw [hlength, length_wordBytes]
  have hvalueLength : ((interest.elementsBefore ++ overwriteValue nonce (wordBytes word) ::
      interest.elementsBehind).flatMap Block.wire).length =
      ((interest.elements random).flatMap Block.wire).length := by
    rw [elements_eq, hwritten]
    simp only [List.flatMap_append, List.flatMap_cons, List.length_append,
      length_wire_overwriteValue hnonceWire hsame]
  have htoBlock : (interest.setNonce word).toBlock random = overwriteValue (interest.toBlock random)
      ((interest.elementsBefore ++ overwriteValue nonce (wordBytes word) ::
        interest.elementsBehind).flatMap Block.wire) := by
    rw [toBlock_eq, hset]
    exact (overwriteValue_ofValue hvalueLength).symm
  intro _
  refine ⟨?_, ?_, ?_⟩
  · rw [hset]
    refine { hwritable with nonce := ?_ }
    intro updated hupdated
    obtain rfl := Option.mem_some_iff.mp hupdated
    exact ⟨htype, overwriteValue_isWire hnonceWire hsame, by simp [overwriteValue]⟩
  · rw [htoBlock, length_wire_overwriteValue hwire hvalueLength]
    exact hsize
  · rw [htoBlock, hset]
    exact ⟨_, wireDecode_replace_nonce hparse hparse' rfl htype htype type_ne_of_mem_elementsBefore
      hdecode, .inl rfl⟩

theorem IsCurrent.setNonce {interest : Interest} (hcurrent : interest.IsCurrent random)
    (hspares : ¬ interest.SetsApart word) : (interest.setNonce word).IsCurrent random := by
  cases hstored : interest.wire with
  | none =>
    apply isCurrent_of_wire_eq_none
    simp [Interest.setNonce, hstored]
  | some shared =>
    cases hnonce : interest.nonce with
    | none =>
      apply isCurrent_of_wire_eq_none
      simp [Interest.setNonce, hstored, hnonce]
    | some nonce =>
      by_cases hlength : nonce.value.length = 4
      · exact hcurrent.setNonce_of_length hspares (by simp [hstored]) hnonce hlength
      · apply isCurrent_of_wire_eq_none
        simp [Interest.setNonce, hstored, hnonce, hlength]

theorem IsReadFrom.isCurrent {interest : Interest} {wire : Block} (hread : interest.IsReadFrom wire)
    (hcanonical : IsCanonical random wire) : interest.IsCurrent random := by
  obtain ⟨decoded, hdecode, hsame⟩ := hread
  obtain ⟨hwritable, hwritten⟩ := hcanonical.2 decoded hdecode
  have hshort := hwritten ▸ hcanonical.1
  have hread : wireDecode {} (decoded.toBlock random) = .ok decoded := hwritten ▸ hdecode
  intro _
  rcases hsame with rfl | rfl
  · exact ⟨hwritable, hshort, interest, hread, .inl rfl⟩
  · exact ⟨{ hwritable with }, hshort, decoded, hread, .inr rfl⟩

theorem IsCurrent.perform {interest next : Interest} {call : Call}
    (hcurrent : interest.IsCurrent random) (hallows : interest.Allows random (.change call))
    (hperform : interest.perform call = some next) : next.IsCurrent random := by
  rcases perform_cases hperform with hnone | rfl | ⟨nonce, rfl | rfl, rfl⟩ |
    ⟨wire, hwire, rfl, hdecode⟩ | ⟨wire, elements, hwire, rfl, hdecode⟩
  · exact isCurrent_of_wire_eq_none hnone
  · exact hcurrent
  · exact hcurrent.setNonce hallows
  · exact hcurrent.setNonce hallows
  · exact IsReadFrom.isCurrent ⟨next, hdecode, .inl rfl⟩ hallows
  · exact (isReadFrom_of_wireDecodeAssembled hallows.1 hdecode).isCurrent hallows.2

/-! ### Reading back what was written -/

/-- The default lifetime is not written. -/
theorem presentIf_lifetime (interest other : Interest)
    (hlifetime : other.interestLifetime =
      if interest.hasLifetime then interest.interestLifetime else defaultInterestLifetime) :
    presentIf other.hasLifetime (Block.ofValue Tlv.interestLifetime
      (Tlv.prependNonNegativeInteger (toUInt64 other.interestLifetime))) =
    presentIf interest.hasLifetime (Block.ofValue Tlv.interestLifetime
      (Tlv.prependNonNegativeInteger (toUInt64 interest.interestLifetime))) := by
  cases hpresent : interest.hasLifetime with
  | true =>
    rw [hpresent, if_pos rfl] at hlifetime
    have hsame : other.hasLifetime = true := by
      rw [← hpresent]
      simp only [hasLifetime, hlifetime]
    rw [hsame, hlifetime]
  | false =>
    rw [hpresent, if_neg Bool.false_ne_true] at hlifetime
    have habsent : other.hasLifetime = false := by simp [hasLifetime, hlifetime]
    rw [habsent]
    rfl

/-- A delegation that is not written is read as none. -/
theorem presentIf_delegation (interest other : Interest) (hlink : other.link = interest.link)
    (hindex : (interest.link.isSome && interest.hasSelectedDelegation) = false ∧
        other.selectedDelegationIndex = invalidSelectedDelegationIndex ∨
      (interest.link.isSome && interest.hasSelectedDelegation) = true ∧
        other.selectedDelegationIndex = interest.selectedDelegationIndex) :
    presentIf (other.link.isSome && other.hasSelectedDelegation)
        (Block.ofValue Tlv.selectedDelegation
          (Tlv.prependNonNegativeInteger other.selectedDelegationIndex)) =
      presentIf (interest.link.isSome && interest.hasSelectedDelegation)
        (Block.ofValue Tlv.selectedDelegation
          (Tlv.prependNonNegativeInteger interest.selectedDelegationIndex)) := by
  rcases hindex with ⟨habsent, hindex⟩ | ⟨hpresent, hindex⟩
  · have hnone : other.hasSelectedDelegation = false := by simp [hasSelectedDelegation, hindex]
    rw [habsent, hnone, Bool.and_false]
    rfl
  · have hsame : other.hasSelectedDelegation = interest.hasSelectedDelegation := by
      simp only [hasSelectedDelegation, hindex]
    rw [hlink, hsame, hindex]

section ReadBack

variable {interest next : Interest} (hrepresentable : interest.IsRepresentable)
  (hwritable : interest.IsWritable)
  (hdata : ∀ link ∈ interest.link, link.type = Tlv.data)
  (hsize : (interest.toBlock random).wire.length < 2 ^ 64)
  (hdecode : wireDecode {} (interest.toBlock random) = .ok next)
include hwritable hdata hsize hdecode

theorem toBlock_of_wireDecode : next.toBlock random = interest.toBlock random := by
  obtain ⟨selectors, index, rfl, hselectors, hindex⟩ :=
    exists_decoded_of_wireDecode hwritable hsize hdecode hdata
  have hselectorsSame : presentIf (!selectors.isEmpty) selectors.toBlock =
      presentIf (!interest.selectors.isEmpty) interest.selectors.toBlock := by
    rcases hselectors with ⟨hempty, rfl⟩ | ⟨-, hshort, hread⟩
    · rw [hempty]
      rfl
    · rw [Selectors.isEmpty_of_wireDecode hwritable.selectors hshort hread,
        Selectors.toBlock_of_wireDecode hwritable.selectors hshort hread]
  let read : Interest :=
    { interest.reread random with selectors := selectors, selectedDelegationIndex := index }
  have hfields : read.fields random = interest.fields random := by
    rw [fields, presentIf_lifetime interest read rfl, presentIf_delegation interest read rfl hindex,
      hselectorsSame]
    rfl
  exact congrArg (fun fields ↦ Block.ofElements Tlv.interest (Block.fieldElements fields)) hfields

include hrepresentable

theorem isWritable_of_wireDecode : next.IsWritable := by
  obtain ⟨selectors, index, rfl, hselectors, hindex⟩ :=
    exists_decoded_of_wireDecode hwritable hsize hdecode hdata
  refine ⟨hwritable.name, ?_, ?_, ?_, hwritable.link, ?_⟩
  · rcases hselectors with ⟨-, rfl⟩ | ⟨-, hshort, hread⟩
    · exact Selectors.isEncodable_default
    · exact Selectors.isEncodable_of_wireDecode hwritable.selectors
        hrepresentable.selectors.keyLocator.short hshort hread
  · intro nonce hnonce
    obtain rfl := Option.mem_some_iff.mp hnonce
    exact writtenNonce_spec hwritable
  · have hdefault : defaultInterestLifetime < 2 ^ 63 := by decide
    simp only [reread]
    split_ifs
    · exact hwritable.interestLifetime
    · exact hdefault
  · rcases hindex with ⟨-, rfl⟩ | ⟨-, rfl⟩
    · exact (by decide : invalidSelectedDelegationIndex < 2 ^ 64)
    · exact hwritable.index

end ReadBack

theorem IsCurrent.recall {interest next : Interest} (hcurrent : interest.IsCurrent random)
    (hallows : interest.Allows random .recallCode)
    (hencode : interest.wireEncode random = .ok (bytes, next)) : next.IsCurrent random := by
  rcases CodeStore.recall_cases hencode with ⟨-, rfl⟩ | ⟨hnone, hmade, -⟩
  · exact hcurrent
  have hwire : interest.wire = none := Option.map_eq_none_iff.mp hnone
  obtain ⟨hrepresentable, hsize, hdata⟩ := hallows hwire
  obtain ⟨hwritable, rfl⟩ := hrepresentable.written hmade
  obtain ⟨-, -, -, hdecode⟩ := wireEncode_cases hrepresentable hwire hencode hsize
  intro _
  rw [toBlock_of_wireDecode hwritable hdata hsize hdecode]
  exact ⟨isWritable_of_wireDecode hrepresentable hwritable hdata hsize hdecode, hsize, next, hdecode,
    .inl rfl⟩

theorem isCurrent_step {interest next : Interest} (hcurrent : interest.IsCurrent random)
    (hallows : interest.Allows random event)
    (hnext : (codes random).step perform interest event = some next) : next.IsCurrent random := by
  cases event with
  | change call => exact hcurrent.perform hallows hnext
  | recallCode =>
    obtain ⟨bytes, hencode⟩ := CodeStore.step_recall_eq_some_iff.mp hnext
    exact hcurrent.recall hallows hencode

/-! ### The answers -/

theorem writesLike_withoutWires (interest : Interest) :
    interest.withoutWires.WritesLike random interest where
  name := rfl
  selectors := ⟨rfl, rfl, rfl, rfl, rfl, rfl, rfl⟩
  nonce := rfl
  interestLifetime := rfl
  link := rfl
  selectedDelegationIndex := rfl

theorem IsCurrent.recall_withoutWires {interest next : Interest}
    (hcurrent : interest.IsCurrent random)
    (hencode : interest.wireEncode random = .ok (bytes, next)) :
    ∃ kept, interest.withoutWires.wireEncode random = .ok (bytes, kept) := by
  have hlike : interest.withoutWires.WritesLike random interest :=
    interest.writesLike_withoutWires
  cases hstored : interest.wire with
  | none =>
    exact CodeStore.exists_of_map_fst_recall (hlike.encoding_eq rfl hstored) hencode
  | some shared =>
    obtain ⟨hwritable, hsize, hread⟩ := hcurrent (by simp [hstored])
    rw [wireEncode_of_stored hstored, Except.ok.injEq, Prod.mk.injEq] at hencode
    obtain ⟨rfl, -⟩ := hencode
    have hbytes : shared.bytes = (interest.toBlock random).wire := hread.bytes_eq hstored
    obtain ⟨decoded, hdecode, -⟩ := hread
    have hwire : (interest.toBlock random).IsWire := Block.ofElements_isWire (by decide) hsize
    have hnone : (codes random).stored interest.withoutWires = none := rfl
    have hmade : (codes random).encode interest.withoutWires =
        .ok (interest.toBlock random).wire := by
      apply bind_eq_ok_iff.mpr
      rw [hlike.wireEncodeInto_eq]
      exact ⟨_, wireEncodeInto_eq hwritable, bufferBlock_of_isWire hwire⟩
    have hkept : (codes random).store interest.withoutWires (interest.toBlock random).wire =
        .ok decoded :=
      bind_eq_ok_iff.mpr ⟨_, Block.fromWire_eq_ok_iff.mpr ⟨rfl, hwire⟩, hdecode⟩
    refine ⟨decoded, ?_⟩
    simp only [wireEncode, CodeStore.recallCode, hnone, hmade, hkept, hbytes]

/-- Whatever was called before, an Interest answers with what its fields are written as. -/
theorem neverStale : (codes random).NeverStale perform (Allows random) withoutWires := by
  apply CodeStore.neverStale_of_invariant (IsCurrent random)
  · intro interest hfresh
    apply isCurrent_of_wire_eq_none
    rw [← hfresh]
    rfl
  · intro interest event next hcurrent hallows hnext
    exact isCurrent_step hcurrent hallows hnext
  · intro interest bytes next hcurrent hencode
    exact hcurrent.recall_withoutWires hencode

end Interest

/-! ## Data packets -/

namespace Data

/-- The same packet without stored wires. -/
def withoutWires (data : Data) : Data :=
  { data with
    metaInfo := data.metaInfo.withoutWires
    signature := { data.signature with info := data.signature.info.withoutWires }
    fullName := []
    wire := none }

/-- A call of a mutator. -/
inductive Call
  | assign (setter : Setter)
  | wireDecode (wire : Block)

/-- Perform a call that returns normally. -/
def perform (data : Data) : Call → Option Data
  | .assign setter => (data.assign setter).toOption
  | .wireDecode wire => (data.wireDecode wire).toOption

/-- The packet is signed, and what it consists of can be written. -/
structure IsWritable (data : Data) (content value : Block) : Prop where
  appMetaInfo : ∀ block ∈ data.metaInfo.appMetaInfo, block.IsWellFormed ∧ block.Fits
  content_eq : data.getContent = .ok content
  content_type : content.type = Tlv.content
  content_isWire : content.IsWire
  content_fits : content.wire.length < 2 ^ 32
  signed : data.signature.info.type ≠ -1
  info : data.signature.info.IsWritable
  info_fits : data.signature.info.toBlock.wire.length < 2 ^ 32
  value_eq : data.signature.value.encode = .ok value
  value_isWire : value.IsWire
  value_fits : value.wire.length < 2 ^ 32

/-- The wire that a packet is written as. -/
def writtenBlock (data : Data) (content value : Block) : Block :=
  data.signedBlock content data.signature.info.toBlock value

/-- A signature is set with information that was made by allowed calls, and a received wire holds
what it is read as, in the form in which this is written. A packet that is encoded anew fits into the
memory, and its meta information and its signature information are written in the same way after they
were read back. -/
def Allows (data : Data) : CodeStore.Event Call → Prop
  | .change (.assign (.setSignature signature)) => signature.info.IsMade
  | .change (.assign _) => True
  | .change (.wireDecode wire) => wire.IsWire ∧ wire.wire.length < 2 ^ 64 ∧
      ∀ decoded, data.wireDecode wire = .ok decoded → ∃ content value,
        decoded.IsWritable content value ∧ decoded.writtenBlock content value = wire
  | .recallCode => data.wire = none →
      data.IsRepresentable ∧ (∀ bytes, data.wireEncodeInto = .ok bytes → bytes.length < 2 ^ 64) ∧
        data.metaInfo.ComesBack ∧
        ∃ keyLocator tlvs, data.signature.info.ComesBackAs keyLocator tlvs

/-- The signature information has no stale wire, and the packet has none. -/
structure NoStaleWire (data : Data) : Prop where
  info : SignatureInfo.codes.IsFresh data.signature.info
  wire : ∀ bytes, data.wire = some bytes → ∃ kept, data.withoutWires.wireEncode = .ok (bytes, kept)

theorem writesLike_withoutWires {data : Data}
    (hfresh : SignatureInfo.codes.IsFresh data.signature.info) :
    data.withoutWires.WritesLike data where
  name := rfl
  metaInfo := ⟨rfl, rfl, Or.inl rfl, rfl⟩
  content := rfl
  type := rfl
  info := SignatureInfo.onlyStores.map_fst_recall_fresh hfresh
  value := rfl

variable {next : Data}

/-- A packet that can be written, without a wire, answers with what it is written as if this is read
back by any packet. -/
theorem exists_wireEncode_of_written {data prior : Data} {block value : Block}
    (hnone : data.wire = none) (hwritten : data.wireEncodeInto = .ok bytes)
    (hvalue : data.signature.value.encode = .ok value) (hblock : Block.fromWire bytes = .ok block)
    (hdecode : prior.wireDecode block = .ok next) :
    ∃ kept, data.wireEncode = .ok (bytes, kept) := by
  have hencode : codes.encode data = .ok bytes := by
    apply bind_eq_ok_iff.mpr
    refine ⟨bytes, hwritten, ?_⟩
    rw [bufferBlock, hblock]
    exact congrArg Except.ok (Block.fromWire_eq_ok_iff.mp hblock).1
  have hread : ∃ kept, data.readBack bytes = .ok kept := by
    have hsame := map_wireDecode_eq (data.withValue value) prior block bytes
    rw [hdecode] at hsame
    cases hkept : (data.withValue value).wireDecode block with
    | error error =>
      rw [hkept] at hsame
      cases hsame
    | ok kept =>
      refine ⟨kept, ?_⟩
      simp only [readBack, hvalue, hblock, bind, Except.bind]
      exact hkept
  obtain ⟨kept, hkept⟩ := hread
  have hstored : codes.stored data = none := hnone
  have hstore : codes.store data bytes = .ok kept := hkept
  exact ⟨kept, by simp only [wireEncode, CodeStore.recallCode, hstored, hencode, hstore]⟩

section Written

variable {data : Data} {content value : Block} (hwritable : data.IsWritable content value)
  (hsize : (data.writtenBlock content value).wire.length < 2 ^ 64)
include hwritable hsize

theorem IsWritable.elements_isWire :
    ∀ element ∈ data.unsignedElements content data.signature.info.toBlock ++ [value],
      element.IsWire := by
  intro element hmem
  have hshort := Block.length_wire_lt_of_mem hsize hmem
  simp only [unsignedElements, List.mem_append, List.mem_cons, List.not_mem_nil, or_false] at hmem
  rcases hmem with (rfl | rfl | rfl | rfl) | rfl
  · exact Block.ofElements_isWire (by decide) hshort
  · exact Block.ofElements_isWire (by decide) hshort
  · exact hwritable.content_isWire
  · exact Block.ofElements_isWire (by decide) hshort
  · exact hwritable.value_isWire

theorem IsWritable.info_isWire : data.signature.info.toBlock.IsWire :=
  hwritable.elements_isWire hsize _ (by simp [unsignedElements])

/-- Without its wires, the packet is written as the same block. -/
theorem IsWritable.wireEncodeInto_withoutWires :
    data.withoutWires.wireEncodeInto = .ok (data.writtenBlock content value).wire := by
  have hencode := SignatureInfo.encode_eq_ok_of_isWritable hwritable.info
    (hwritable.info_isWire hsize)
  have hencode' : SignatureInfo.codes.encode data.signature.info.withoutWires =
      .ok data.signature.info.toBlock.wire := hencode
  obtain ⟨answered, hinfo⟩ := (CodeStore.isFresh_of_stored_eq_none
    (SignatureInfo.onlyStores.stored_fresh data.signature.info)).exists_recall hencode' rfl
  exact wireEncodeInto_eq_of_blocks hwritable.signed hwritable.value_eq
    (Block.prependWire_eq hwritable.value_fits) hinfo hwritable.info_fits hwritable.content_eq
    hwritable.content_fits fun block hblock ↦ (hwritable.appMetaInfo block hblock).2

/-- A packet that was read from the wire that it is written as. -/
theorem IsWritable.noStaleWire {prior : Data}
    (hdecode : prior.wireDecode (data.writtenBlock content value) = .ok data) : data.NoStaleWire := by
  have hparse : Block.parse (data.writtenBlock content value).value =
      .ok (data.unsignedElements content data.signature.info.toBlock ++ [value]) :=
    Block.parse_ofElements (hwritable.elements_isWire hsize)
  have hblock : (data.writtenBlock content value).IsWire := Block.ofElements_isWire (by decide) hsize
  obtain ⟨-, -, -, hinfo, -⟩ := wireDecode_cases hwritable.content_type rfl hparse hdecode
  refine ⟨SignatureInfo.isFresh_of_wireDecode (hwritable.info_isWire hsize) hinfo hwritable.info rfl,
    fun bytes hbytes ↦ ?_⟩
  obtain rfl := Option.some.inj ((wire_of_wireDecode hdecode).symm.trans hbytes)
  exact exists_wireEncode_of_written rfl (hwritable.wireEncodeInto_withoutWires hsize)
    hwritable.value_eq (Block.fromWire_eq_ok_iff.mpr ⟨rfl, hblock⟩) hdecode

end Written

/-! ### Mutators -/

theorem noStaleWire_of_wire_eq_none {data : Data}
    (hfresh : SignatureInfo.codes.IsFresh data.signature.info) (hnone : data.wire = none) :
    data.NoStaleWire := by
  refine ⟨hfresh, fun bytes hbytes ↦ ?_⟩
  rw [hnone] at hbytes
  cases hbytes

theorem NoStaleWire.perform {data : Data} {call : Call} (hcurrent : data.NoStaleWire)
    (hallows : data.Allows (.change call)) (hnext : data.perform call = some next) :
    next.NoStaleWire := by
  cases call with
  | assign setter =>
    have hassign := toOption_eq_some_iff.mp hnext
    cases setter with
    | setSignature signature =>
      obtain rfl := Except.ok.inj hassign
      exact noStaleWire_of_wire_eq_none hallows.isFresh rfl
    | setContentBytes content =>
      obtain ⟨block, -, hset⟩ := bind_eq_ok_iff.mp hassign
      obtain rfl := Except.ok.inj hset
      exact noStaleWire_of_wire_eq_none hcurrent.info rfl
    | setContent content =>
      simp only [assign, setContent] at hassign
      split_ifs at hassign
      · obtain rfl := Except.ok.inj hassign
        exact noStaleWire_of_wire_eq_none hcurrent.info rfl
      · cases hcontent : content.content with
        | wire value wire =>
          rw [hcontent] at hassign
          obtain rfl := Except.ok.inj hassign
          exact noStaleWire_of_wire_eq_none hcurrent.info rfl
        | value value =>
          rw [hcontent] at hassign
          cases hassign
        | empty =>
          rw [hcontent] at hassign
          cases hassign
    | setSignatureValue value =>
      obtain ⟨signature, hsignature, hset⟩ := bind_eq_ok_iff.mp hassign
      obtain rfl := Except.ok.inj hset
      unfold Signature.setValue at hsignature
      split_ifs at hsignature
      obtain rfl := Except.ok.inj hsignature
      exact noStaleWire_of_wire_eq_none hcurrent.info rfl
    | _ =>
      obtain rfl := Except.ok.inj hassign
      exact noStaleWire_of_wire_eq_none hcurrent.info rfl
  | wireDecode wire =>
    have hdecode := toOption_eq_some_iff.mp hnext
    obtain ⟨hwire, hsize, hcanonical⟩ := hallows
    obtain ⟨content, value, hwritable, rfl⟩ := hcanonical next hdecode
    exact hwritable.noStaleWire hsize hdecode

/-! ### Reading back what was written -/

/-- A packet that was written without a stored wire is read back as one that is written the same. -/
theorem IsReadBackFrom.noStaleWire {data : Data} {content info value : Block}
    {keyLocator : Option KeyLocator} {tlvs : List Block} (hrepresentable : data.IsRepresentable)
    (hcurrent : data.NoStaleWire) (hmetaInfo : data.metaInfo.ComesBack)
    (hinfo : data.signature.info.ComesBackAs keyLocator tlvs)
    (hsigned : data.signature.info.type ≠ -1) (hinfoWire : info.IsWire)
    (hinfoFits : info.wire.length < 2 ^ 32)
    (hsize : (data.signedBlock content info value).wire.length < 2 ^ 64)
    (hread : data.IsReadBackFrom next content info value (data.signedBlock content info value)) :
    next.NoStaleWire := by
  obtain ⟨answered, hinfoWritten⟩ := hread.info_written
  obtain ⟨hinfoWritable, hinfoBytes⟩ := hrepresentable.info.eq_toBlock_of_encode
    (hcurrent.info.encode_eq_of_recall hinfoWritten)
  have hinfoBlock : data.signature.info.toBlock.IsWire :=
    Block.ofElements_isWire (by decide) (hinfoBytes ▸ hinfoFits.trans (by decide))
  obtain rfl : info = data.signature.info.toBlock := Except.ok.inj
    ((Block.fromWire_eq_ok_iff.mpr ⟨rfl, hinfoWire⟩).symm.trans
      (Block.fromWire_eq_ok_iff.mpr ⟨hinfoBytes.symm, hinfoBlock⟩))
  obtain ⟨-, hmetaInfoRead, -, hinfoRead, -⟩ :=
    wireDecode_cases hread.content_type hread.info_type hread.parsed hread.decoded
  obtain ⟨hnextInfo, htype, hsameInfo⟩ :=
    hinfo.toBlock_of_wireDecode hrepresentable.info hinfoFits hinfoRead
  have hmetaInfoSize : data.metaInfo.toBlock.wire.length < 2 ^ 64 :=
    hread.short _ (by simp [unsignedElements])
  have hnextMetaInfo : next.metaInfo = data.metaInfo.overwrite data.metaInfo :=
    Except.ok.inj (hmetaInfoRead.symm.trans (MetaInfo.wireDecode_toBlock _
      (hmetaInfo.isEncodable hrepresentable.metaInfo) hmetaInfoSize))
  obtain ⟨hname, hcontent, -, hvalue⟩ := hread.same hrepresentable.name
  obtain ⟨-, hcontentWire, hcontentFits⟩ := hrepresentable.content content hread.content_eq
  obtain ⟨hvalueWire, hvalueFits⟩ := hrepresentable.value value hread.value_eq
  have hwritable : next.IsWritable content value := {
    appMetaInfo := by simp [hnextMetaInfo, MetaInfo.overwrite, hmetaInfo.appMetaInfo]
    content_eq := hcontent.trans hread.content_eq
    content_type := hread.content_type
    content_isWire := hcontentWire
    content_fits := hcontentFits
    signed := htype ▸ hsigned
    info := hnextInfo
    info_fits := hsameInfo ▸ hinfoFits
    value_eq := hvalue.trans hread.value_eq
    value_isWire := hvalueWire
    value_fits := hvalueFits }
  have hsame : next.writtenBlock content value =
      data.signedBlock content data.signature.info.toBlock value := by
    have hmetaInfoSame : next.metaInfo.toBlock = data.metaInfo.toBlock := by
      rw [hnextMetaInfo, MetaInfo.toBlock_overwrite hmetaInfo.appMetaInfo]
    simp only [writtenBlock, signedBlock, unsignedElements, hname, hmetaInfoSame, hsameInfo]
  exact hwritable.noStaleWire (hsame ▸ hsize) (hsame ▸ hread.decoded)

theorem NoStaleWire.recall {data : Data} (hcurrent : data.NoStaleWire)
    (hallows : data.Allows .recallCode) (hencode : data.wireEncode = .ok (bytes, next)) :
    next.NoStaleWire := by
  rcases CodeStore.recall_cases hencode with ⟨-, rfl⟩ | ⟨hstored, hmade, -⟩
  · exact hcurrent
  have hnone : data.wire = none := hstored
  obtain ⟨hrepresentable, hfits, hmetaInfo, keyLocator, tlvs, hinfo⟩ := hallows hnone
  obtain ⟨written, hwritten, hbuffer⟩ := bind_eq_ok_iff.mp hmade
  obtain ⟨block, hblock, rfl⟩ := map_eq_ok_iff.mp hbuffer
  have hsize : block.wire.length < 2 ^ 64 := by
    rw [(Block.fromWire_eq_ok_iff.mp hblock).1]
    exact hfits written hwritten
  obtain ⟨content, info, value, hbytes, hinfoWire, hinfoFits, hsigned, hread⟩ :=
    exists_signedBlock_of_wireEncode hrepresentable hnone hencode hsize
  exact hread.noStaleWire hrepresentable hcurrent hmetaInfo hinfo hsigned hinfoWire hinfoFits
    (hbytes ▸ hsize)

theorem noStaleWire_step {data : Data} (hcurrent : data.NoStaleWire) (hallows : data.Allows event)
    (hnext : codes.step perform data event = some next) : next.NoStaleWire := by
  cases event with
  | change call => exact hcurrent.perform hallows hnext
  | recallCode =>
    obtain ⟨bytes, hencode⟩ := CodeStore.step_recall_eq_some_iff.mp hnext
    exact hcurrent.recall hallows hencode

theorem NoStaleWire.recall_withoutWires {data : Data} (hcurrent : data.NoStaleWire)
    (hencode : data.wireEncode = .ok (bytes, next)) :
    ∃ kept, data.withoutWires.wireEncode = .ok (bytes, kept) := by
  cases hstored : data.wire with
  | none =>
    exact CodeStore.exists_of_map_fst_recall
      ((writesLike_withoutWires hcurrent.info).encoding_eq rfl hstored) hencode
  | some stored =>
    rcases CodeStore.recall_cases hencode with ⟨hknown, -⟩ | ⟨hnone, -⟩
    · exact hcurrent.wire bytes hknown
    · have hwire : data.wire = none := hnone
      rw [hstored] at hwire
      cases hwire

/-- Whatever was called before, a packet answers with what its fields are written as. -/
theorem neverStale : codes.NeverStale perform Allows withoutWires := by
  apply CodeStore.neverStale_of_invariant NoStaleWire
  · intro data hfresh
    rw [← hfresh]
    exact ⟨CodeStore.isFresh_of_stored_eq_none rfl, fun bytes hbytes ↦ by cases hbytes⟩
  · intro data event next hcurrent hallows hnext
    exact noStaleWire_step hcurrent hallows hnext
  · intro data bytes next hcurrent hencode
    exact hcurrent.recall_withoutWires hencode

end Data

/-! ## All types -/

/-- An object that keeps its wire answers with what its fields are written as. -/
theorem neverStale_of_allows (random : UInt32) :
    Exclude.codes.NeverStale Exclude.perform (CodeStore.Event.OnChange Exclude.Allows)
        Exclude.withoutWires ∧
      Selectors.codes.NeverStale Selectors.perform (CodeStore.Event.OnChange Selectors.Allows)
        Selectors.withoutWires ∧
      MetaInfo.codes.NeverStale MetaInfo.perform (CodeStore.Event.OnChange MetaInfo.Allows)
        MetaInfo.withoutWires ∧
      SignatureInfo.codes.NeverStale SignatureInfo.perform
        (CodeStore.Event.OnChange SignatureInfo.Allows) SignatureInfo.withoutWires ∧
      KeyLocator.codes.NeverStale KeyLocator.perform (CodeStore.Event.OnChange KeyLocator.Allows)
        KeyLocator.withoutWires ∧
      (Interest.codes random).NeverStale Interest.perform (Interest.Allows random)
        Interest.withoutWires ∧
      Data.codes.NeverStale Data.perform Data.Allows Data.withoutWires :=
  ⟨Exclude.neverStale, Selectors.neverStale, MetaInfo.neverStale, SignatureInfo.neverStale,
    KeyLocator.neverStale, Interest.neverStale, Data.neverStale⟩

/-- A boundary that is appended to a filter, and a TLV that is appended to signature information,
are not in the wires that were stored before, and neither is a nonce that lies in another buffer. -/
theorem not_neverStale_append :
    ¬ Exclude.codes.NeverStale Exclude.perform (fun _ _ ↦ True) Exclude.withoutWires ∧
      ¬ SignatureInfo.codes.NeverStale SignatureInfo.perform (fun _ _ ↦ True)
        SignatureInfo.withoutWires ∧
      ¬ (Interest.codes 7).NeverStale Interest.perform (fun _ _ ↦ True) Interest.withoutWires := by
  refine ⟨?_, ?_, ?_⟩
  · have hanswers : Exclude.codes.answersAfter Exclude.perform Exclude.withoutWires ({} : Exclude)
        [.change (.excludeOne ⟨8, [0x41]⟩), .recallCode,
          .change (.appendExclude ⟨8, [0x42]⟩ false)] =
        some ([0x10, 0x03, 0x08, 0x01, 0x41], [0x10, 0x06, 0x08, 0x01, 0x41, 0x08, 0x01, 0x42]) := by
      decide +kernel
    exact CodeStore.not_neverStale rfl hanswers (by decide)
  · have hanswers : SignatureInfo.codes.answersAfter SignatureInfo.perform
        SignatureInfo.withoutWires ({} : SignatureInfo)
        [.change (.setSignatureType 0), .recallCode,
          .change (.appendTypeSpecificTlv ⟨0x81, .wire [] [0x81, 0x00]⟩)] =
        some ([0x16, 0x03, 0x1b, 0x01, 0x00], [0x16, 0x05, 0x1b, 0x01, 0x00, 0x81, 0x00]) := by
      decide +kernel
    exact CodeStore.not_neverStale rfl hanswers (by decide)
  · have hanswers : (Interest.codes 7).answersAfter Interest.perform Interest.withoutWires
        ({} : Interest) [.change (.wireDecodeAssembled Interest.assembledWire
          Interest.assembledElements (by decide)), .change (.setNonce 2)] =
        some ([0x05, 0x08, 0x07, 0x00, 0x0a, 0x04, 0x01, 0x00, 0x00, 0x00],
          [0x05, 0x08, 0x07, 0x00, 0x0a, 0x04, 0x02, 0x00, 0x00, 0x00]) := by
      decide +kernel
    exact CodeStore.not_neverStale rfl hanswers (by decide)

end NdnCxx.Packet
