import NdnCxx.Packet.Writers

/-!
# The order of type-specific TLVs

Signature information is meant to come back with its type-specific TLVs in their order, and to be
written in front of what an encoder holds. Both fail because the TLVs are appended in a loop that
runs backwards, while everything else is prepended. The conditions under which nothing of this shows
are exact: the TLVs read the same from behind, and appending them is the same as prepending them.
-/

namespace NdnCxx.Packet

/-- Names and digests that the setters accept. -/
structure KeyLocator.IsWellFormed (keyLocator : KeyLocator) : Prop where
  name : keyLocator.name.IsWellFormed
  keyDigest : keyLocator.type = .keyDigest →
    keyLocator.keyDigest.type = Tlv.keyDigest ∧ keyLocator.keyDigest.IsWellFormed

/-! ## Bytes that are cut off -/

/-- A block that is too long is written with fewer bytes. -/
theorem Element.fits_of_length_le {element : Block.Element}
    (hlength : element.toBlock.wire.length ≤ element.prependBlock.length) : element.Fits := by
  obtain ⟨type, content⟩ := element
  cases content with
  | wire value wire =>
    have hmod : wire.length % 2 ^ 32 < 2 ^ 32 := Nat.mod_lt _ (by decide)
    have hcut : wire.length ≤ (wire.take (wire.length % 2 ^ 32)).length := hlength
    rw [List.length_take] at hcut
    change wire.length < 2 ^ 32
    omega
  | value value => trivial
  | empty => trivial

theorem Element.length_prependBlock_le (element : Block.Element) :
    element.prependBlock.length ≤ element.toBlock.wire.length := by
  obtain ⟨type, content⟩ := element
  cases content with
  | wire value wire => exact List.length_take_le' _ _
  | value value => exact le_rfl
  | empty => exact le_rfl

theorem length_flatMap_prependBlock_le (elements : List Block.Element) :
    (elements.flatMap Block.Element.prependBlock).length ≤
      ((elements.map Block.Element.toBlock).flatMap Block.wire).length := by
  induction elements with
  | nil => exact le_rfl
  | cons element elements ih =>
    have hfirst := Element.length_prependBlock_le element
    simp only [List.flatMap_cons, List.map_cons, List.length_append]
    omega

variable {elements : List Block.Element}

theorem forall_fits_of_length_le
    (hlength : ((elements.map Block.Element.toBlock).flatMap Block.wire).length ≤
      (elements.flatMap Block.Element.prependBlock).length) :
    ∀ element ∈ elements, element.Fits := by
  induction elements with
  | nil => simp
  | cons element elements ih =>
    have hfirst := Element.length_prependBlock_le element
    have hrest := length_flatMap_prependBlock_le elements
    simp only [List.flatMap_cons, List.map_cons, List.length_append] at hlength
    exact List.forall_mem_cons.mpr
      ⟨Element.fits_of_length_le (by omega), ih (by omega)⟩

/-- If the blocks are found again in their order, although they were written in reverse order, then
nothing was cut off and the order does not matter. -/
theorem fits_and_reverse_of_parse
    (hparse : Block.parse (elements.reverse.flatMap Block.Element.prependBlock) =
      .ok (elements.map Block.Element.toBlock)) :
    (∀ element ∈ elements, element.Fits) ∧ (elements.map Block.Element.toBlock).reverse =
      elements.map Block.Element.toBlock := by
  obtain ⟨hvalue, hwires⟩ := Block.parse_eq_ok_iff.mp hparse
  have hfits : ∀ element ∈ elements, element.Fits := by
    apply forall_fits_of_length_le
    have hlength := congrArg List.length hvalue
    have hperm : (elements.reverse.flatMap Block.Element.prependBlock).length =
        (elements.flatMap Block.Element.prependBlock).length :=
      ((List.reverse_perm elements).flatMap_right _).length_eq
    omega
  have hwritten : elements.reverse.flatMap Block.Element.prependBlock =
      (elements.map Block.Element.toBlock).reverse.flatMap Block.wire := by
    rw [← List.map_reverse, List.flatMap_map]
    apply List.flatMap_congr
    intro element hmem
    exact Block.Element.prependBlock_eq (hfits element (List.mem_reverse.mp hmem))
  have hreverse : Block.parse (elements.reverse.flatMap Block.Element.prependBlock) =
      .ok (elements.map Block.Element.toBlock).reverse := by
    rw [hwritten]
    apply Block.parse_flatMap_wire
    intro element hmem
    exact hwires element (List.mem_reverse.mp hmem)
  rw [hparse] at hreverse
  exact ⟨hfits, (Except.ok.inj hreverse).symm⟩

/-- A key locator that is found again was not cut off. -/
theorem KeyLocator.isEncodable_of_wireDecode {keyLocator decoded prior : KeyLocator} {body : Bytes}
    (hwell : keyLocator.IsWellFormed)
    (hwritten : keyLocator.wireEncodeInto = .ok (Tlv.prependByteArrayBlock Tlv.keyLocator body))
    (hdecode : prior.wireDecode (Block.ofValue Tlv.keyLocator body) = .ok decoded)
    (hshown : decoded.shown = keyLocator.shown) : keyLocator.IsEncodable := by
  unfold IsEncodable
  cases hkind : keyLocator.type with
  | none => trivial
  | name => exact hwell.name
  | unknown => simp [wireEncodeInto, hkind] at hwritten
  | keyDigest =>
    obtain ⟨hdigest, hwellDigest⟩ := hwell.keyDigest hkind
    refine ⟨hdigest, hwellDigest, ?_⟩
    simp only [wireEncodeInto, hkind, Except.ok.injEq] at hwritten
    have hbody := Block.prependByteArrayBlock_injective hwritten
    have htype : decoded.type = .keyDigest := (congrArg Prod.fst hshown).trans hkind
    have hsame : decoded.keyDigest.toBlock = keyLocator.keyDigest.toBlock := by
      have hlast := congrArg (fun getters ↦ getters.2.2) hshown
      simpa [shown, getKeyDigest, htype, hkind, Except.map] using hlast
    have hmine : (Block.ofValue Tlv.keyLocator body).type = Tlv.keyLocator := rfl
    rw [wireDecode, if_neg (not_not.mpr hmine), bind_eq_ok_iff] at hdecode
    obtain ⟨elements, hparse, hdecode⟩ := hdecode
    obtain ⟨hvalue, -⟩ := Block.parse_eq_ok_iff.mp hparse
    cases elements with
    | nil =>
      cases hdecode
      cases htype
    | cons first later =>
      have hfirst : first = keyLocator.keyDigest.toBlock := by
        rw [← hsame]
        dsimp only at hdecode
        split_ifs at hdecode with hname hkeyDigest
        · rw [bind_eq_ok_iff] at hdecode
          obtain ⟨name, -, hdecode⟩ := hdecode
          cases hdecode
          cases htype
        · cases hdecode
          rfl
        · cases hdecode
          cases htype
      apply Element.fits_of_length_le
      have hlength : body.length = ((first :: later).flatMap Block.wire).length :=
        congrArg List.length hvalue
      rw [List.flatMap_cons, List.length_append, hfirst, ← hbody] at hlength
      omega

namespace SignatureInfo

/-- Information that the setters can build: the signature type is an `int32_t`, and the blocks have
the wires of blocks. -/
structure IsWellFormed (info : SignatureInfo) : Prop where
  type_lower : -2 ^ 31 ≤ info.type
  type_upper : info.type < 2 ^ 31
  keyLocator : info.keyLocator.IsWellFormed
  otherTlvs : ∀ block ∈ info.otherTlvs, block.IsWellFormed

/-- Decoding the encoding into a fresh object gives the same information. -/
def RoundTrips (info : SignatureInfo) : Prop :=
  ∃ wire next block decoded, info.wireEncode = .ok (wire, next) ∧ Block.fromWire wire = .ok block ∧
    wireDecode {} block = .ok decoded ∧ info.Carries decoded

def GoesInFront (info : SignatureInfo) (encoder : Encoder) : Prop :=
  ∃ written result, info.wireEncodeInto = .ok written ∧ info.wireEncodeOn encoder = .ok result ∧
    result.2.content = written ++ encoder.content

/-- The key locator can be encoded, the TLVs have sizes of 32 bits and read the same from behind, and
without a key locator the first one on the wire is not taken for it. -/
structure IsSymmetric (info : SignatureInfo) : Prop where
  keyLocator : info.hasKeyLocator = true → info.keyLocator.IsEncodable
  fits : ∀ block ∈ info.otherTlvs, block.Fits
  reverse : (info.otherTlvs.map Block.Element.toBlock).reverse =
    info.otherTlvs.map Block.Element.toBlock
  notKeyLocator : info.hasKeyLocator = false →
    ∀ block ∈ info.otherTlvs.getLast?, block.type ≠ Tlv.keyLocator

variable {info : SignatureInfo}

theorem IsSymmetric.isEncodable (hsymmetric : info.IsSymmetric) (hwell : info.IsWellFormed) :
    info.IsEncodable where
  type_lower := hwell.type_lower
  type_upper := hwell.type_upper
  keyLocator := hsymmetric.keyLocator
  otherTlvs := fun block hmem ↦ ⟨hwell.otherTlvs block hmem, hsymmetric.fits block hmem⟩
  notKeyLocator := hsymmetric.notKeyLocator

theorem IsSymmetric.roundTrips (hsymmetric : info.IsSymmetric) (hwell : info.IsWellFormed)
    (hnew : info.wire = none) (hsize : info.toBlock.wire.length < 2 ^ 64) : info.RoundTrips := by
  have hencodable := hsymmetric.isEncodable hwell
  have hfresh : codes.IsFresh info := CodeStore.isFresh_of_stored_eq_none hnew
  obtain ⟨answered, hanswer⟩ := hfresh.exists_recall (encode_eq hencodable hsize) rfl
  exact ⟨_, answered, info.toBlock, _, hanswer, Block.fromWire_ofElements (by decide) hsize,
    wireDecode_toBlock _ hencodable hsize, carries_overwrite hsymmetric.reverse⟩

/-! ## Nothing else round-trips -/

/-- What was written and read by a round trip: the key locator and the TLVs stand behind the type. -/
theorem RoundTrips.exists_rest (hround : info.RoundTrips) (hnew : info.wire = none) :
    ∃ keyLocator block rest decoded,
      Block.writtenIf info.hasKeyLocator info.keyLocator.wireEncodeInto = .ok keyLocator ∧
      (keyLocator ++ info.tlvBytes).length < 2 ^ 64 ∧
      Block.parse block.value = .ok (info.typeElement :: rest) ∧
      Block.parse (keyLocator ++ info.tlvBytes) = .ok rest ∧
      wireDecode {} block = .ok decoded ∧ info.Carries decoded := by
  obtain ⟨wire, next, block, decoded, hencode, hblock, hdecode, hcarries⟩ := hround
  rcases CodeStore.recall_cases hencode with ⟨hstored, -⟩ | ⟨-, hmade, -⟩
  · have hwire : info.wire = some wire := hstored
    rw [hnew] at hwire
    cases hwire
  · have hbuffer : info.wireEncodeInto >>= bufferBlock = .ok wire := hmade
    rw [bind_eq_ok_iff] at hbuffer
    obtain ⟨bytes, hbytes, hbuffer⟩ := hbuffer
    rw [wireEncodeInto, bind_eq_ok_iff] at hbytes
    obtain ⟨keyLocator, hkeyLocator, hbytes⟩ := hbytes
    cases hbytes
    obtain ⟨hlength, rfl⟩ := (bufferBlock_eq_ok_iff (by decide)).mp hbuffer
    obtain ⟨-, rfl⟩ := (Block.fromWire_prependByteArrayBlock_eq_ok_iff (by decide)).mp hblock
    have hfront : ∀ element ∈ [info.typeElement], element.IsWire := by
      simp only [List.mem_singleton, forall_eq]
      exact Block.ofValue_integer_isWire (by decide)
    obtain ⟨-, first, rest, type, hparse, -⟩ := wireDecode_eq_ok_iff.mp hdecode
    have hsplit : Block.parse ([info.typeElement].flatMap Block.wire ++
        (keyLocator ++ info.tlvBytes)) = .ok (first :: rest) := by
      rw [List.flatMap_singleton]
      exact hparse
    obtain ⟨others, hothers, hrest⟩ := Block.parse_flatMap_wire_append hfront hsplit
    obtain ⟨rfl, rfl⟩ := List.cons.inj hothers
    refine ⟨keyLocator, _, rest, decoded, hkeyLocator, ?_, hparse, hrest, hdecode, hcarries⟩
    have htotal : (Block.prependNonNegativeIntegerBlock Tlv.signatureType (toUInt64 info.type) ++
        (keyLocator ++ info.tlvBytes)).length < 2 ^ 64 := hlength
    rw [List.length_append] at htotal
    omega

theorem exists_body_of_wireEncodeInto {keyLocator : KeyLocator} {bytes : Bytes}
    (hwritten : keyLocator.wireEncodeInto = .ok bytes) :
    ∃ body, bytes = Tlv.prependByteArrayBlock Tlv.keyLocator body := by
  unfold KeyLocator.wireEncodeInto at hwritten
  split at hwritten <;> cases hwritten <;> exact ⟨_, rfl⟩

theorem RoundTrips.isSymmetric (hround : info.RoundTrips) (hwell : info.IsWellFormed)
    (hnew : info.wire = none) : info.IsSymmetric := by
  obtain ⟨keyLocator, block, rest, decoded, hkeyLocator, hlength, hparse, hrest, hdecode,
    hcarries⟩ := hround.exists_rest hnew
  obtain ⟨-, first, others, type, hparse', -, -, hcases⟩ := wireDecode_eq_ok_iff.mp hdecode
  rw [hparse] at hparse'
  obtain ⟨rfl, rfl⟩ := List.cons.inj (Except.ok.inj hparse')
  have hothers := hcarries.otherTlvs
  have hlocators := hcarries.keyLocator
  cases hpresent : info.hasKeyLocator with
  | true =>
    rw [hpresent] at hkeyLocator
    obtain ⟨body, rfl⟩ := exists_body_of_wireEncodeInto hkeyLocator
    have hfront : ∀ element ∈ [Block.ofValue Tlv.keyLocator body], element.IsWire := by
      simp only [List.mem_singleton, forall_eq]
      apply Block.ofValue_isWire_of_length (by decide)
      have hshorter : (Tlv.prependByteArrayBlock Tlv.keyLocator body).length < 2 ^ 64 := by
        rw [List.length_append] at hlength
        omega
      exact hshorter
    have hsplit : Block.parse ([Block.ofValue Tlv.keyLocator body].flatMap Block.wire ++
        info.tlvBytes) = .ok rest := by
      rw [List.flatMap_singleton]
      exact hrest
    obtain ⟨tlvs, rfl, htlvs⟩ := Block.parse_flatMap_wire_append hfront hsplit
    rcases hcases with ⟨second, later, decodedLocator, hlater, -, hdecodeLocator, rfl⟩ | ⟨hnot, -⟩
    · obtain ⟨rfl, rfl⟩ := List.cons.inj hlater
      have hfound : tlvs = info.otherTlvs.map Block.Element.toBlock := by
        rw [← hothers]
        exact (Block.map_toBlock_map_toElement _).symm
      have hshown : decodedLocator.shown = info.keyLocator.shown := by
        simpa [getKeyLocator, hpresent, Except.map] using hlocators
      rw [hfound] at htlvs
      obtain ⟨hfits, hreverse⟩ := fits_and_reverse_of_parse htlvs
      exact {
        keyLocator := fun _ ↦ KeyLocator.isEncodable_of_wireDecode hwell.keyLocator hkeyLocator
          hdecodeLocator hshown
        fits := hfits
        reverse := hreverse
        notKeyLocator := by simp [hpresent] }
    · exact absurd rfl (hnot _ rfl)
  | false =>
    rw [hpresent] at hkeyLocator
    cases hkeyLocator
    rcases hcases with ⟨second, later, decodedLocator, hlater, -, hdecodeLocator, rfl⟩ | ⟨hnot, rfl⟩
    · simp [getKeyLocator, hpresent, Except.map] at hlocators
    · have hfound : rest = info.otherTlvs.map Block.Element.toBlock := by
        rw [← hothers]
        exact (Block.map_toBlock_map_toElement _).symm
      rw [hfound] at hrest
      obtain ⟨hfits, hreverse⟩ := fits_and_reverse_of_parse hrest
      exact {
        keyLocator := by simp [hpresent]
        fits := hfits
        reverse := hreverse
        notKeyLocator := by
          intro _ block hblock
          have hhead : rest.head? = some block.toBlock := by
            rw [hfound, ← hreverse, List.head?_reverse, List.getLast?_map, hblock]
            rfl
          have hne := hnot block.toBlock hhead
          rwa [Block.Element.type_toBlock] at hne }

variable {encoder : Encoder}

theorem goesInFront_iff :
    info.GoesInFront encoder ↔ (∃ lead, info.leadBytes = .ok lead) ∧
      encoder.content ++ info.tlvBytes = info.tlvBytes ++ encoder.content := by
  have hspec := info.wireEncodeOn_spec encoder
  rw [GoesInFront, wireEncodeInto_eq_leadBytes]
  cases hlead : info.leadBytes with
  | error error => simp [Functor.map, Except.map]
  | ok lead =>
    simp only [hlead] at hspec
    obtain ⟨result, hresult, hcontent⟩ := hspec
    constructor
    · rintro ⟨written, other, hwritten, hother, hfront⟩
      rw [hresult] at hother
      cases hother
      cases hwritten
      rw [hcontent, List.append_assoc] at hfront
      exact ⟨⟨lead, rfl⟩, List.append_cancel_left hfront⟩
    · rintro ⟨-, hcommute⟩
      refine ⟨_, result, rfl, hresult, ?_⟩
      rw [hcontent, hcommute, List.append_assoc]

/-- A round trip gives back the same information, and the encoding goes in front of the encoder's
bytes, exactly if the TLVs read the same from behind and commute with those bytes. -/
theorem roundTrips_and_goesInFront_iff (hwell : info.IsWellFormed) (hnew : info.wire = none)
    (hsize : info.toBlock.wire.length < 2 ^ 64) :
    info.RoundTrips ∧ info.GoesInFront encoder ↔
      info.IsSymmetric ∧ encoder.content ++ info.tlvBytes = info.tlvBytes ++ encoder.content := by
  constructor
  · rintro ⟨hround, hfront⟩
    exact ⟨hround.isSymmetric hwell hnew, (goesInFront_iff.mp hfront).2⟩
  · rintro ⟨hsymmetric, hcommute⟩
    have hlead : ∃ lead, info.leadBytes = .ok lead := by
      have hkeyLocator : Block.writtenIf info.hasKeyLocator info.keyLocator.wireEncodeInto =
          .ok _ := Block.writtenIf_eq fun hpresent ↦
            KeyLocator.wireEncodeInto_eq (hsymmetric.keyLocator hpresent)
      exact ⟨_, by rw [leadBytes, hkeyLocator]; rfl⟩
    exact ⟨hsymmetric.roundTrips hwell hnew hsize, goesInFront_iff.mpr ⟨hlead, hcommute⟩⟩

/-- Signature information with a key locator and three TLVs that read the same from behind -/
def palindrome : SignatureInfo where
  type := 1
  hasKeyLocator := true
  keyLocator := { type := .name, name := [.generic [0x41]] }
  otherTlvs := [⟨240, .value [1]⟩, ⟨Tlv.validityPeriod, .value [2, 3]⟩, ⟨240, .value [1]⟩]

theorem roundTrips_and_goesInFront_palindrome :
    palindrome.RoundTrips ∧
      palindrome.GoesInFront ((Encoder.make 8 0).prependByteArray palindrome.tlvBytes).2 := by
  apply (roundTrips_and_goesInFront_iff ?_ rfl (by decide)).mpr ⟨?_, by decide⟩
  · exact {
      type_lower := by decide
      type_upper := by decide
      keyLocator := ⟨by decide, by decide⟩
      otherTlvs := by decide }
  · exact {
      keyLocator := by decide
      fits := by decide
      reverse := rfl
      notKeyLocator := by decide }

/-- Two TLVs come back in reverse order, and a TLV is written behind the byte that the encoder holds,
inside what the length in front of it announces as one element. -/
theorem wireEncode_reverses_and_appends :
    (∃ wire next block decoded,
      ((appendTypeSpecificTlv { type := 1 } ⟨240, .empty⟩).appendTypeSpecificTlv
        ⟨241, .empty⟩).wireEncode = .ok (wire, next) ∧
      Block.fromWire wire = .ok block ∧ wireDecode {} block = .ok decoded ∧
      decoded.otherTlvs.map Block.Element.type = [241, 240] ∧
      ¬ Carries ((appendTypeSpecificTlv { type := 1 } ⟨240, .empty⟩).appendTypeSpecificTlv
        ⟨241, .empty⟩) decoded) ∧
    ∃ written result,
      (appendTypeSpecificTlv { type := 1 } ⟨240, .empty⟩).wireEncodeInto = .ok written ∧
      (appendTypeSpecificTlv { type := 1 } ⟨240, .empty⟩).wireEncodeOn
        ((Encoder.make 8 0).prependByte 9).2 = .ok result ∧
      result.2.content = [22, 5, 27, 1, 1, 9, 240, 0] ∧ result.2.content ≠ written ++ [9] :=
  ⟨⟨_, _, _, _, rfl, rfl, rfl, rfl, fun hcarries ↦ absurd hcarries.otherTlvs (by decide)⟩,
    ⟨_, _, rfl, rfl, rfl, by decide⟩⟩

end SignatureInfo

end NdnCxx.Packet
