import NdnCxx.Packet.Decoded
import NdnCxx.Packet.PriorState
import NdnCxx.Packet.TlvOrder

/-!
# What comes back from the wire

`wireEncode()` of a Data packet decodes the wire that it has made into the packet itself. The meta
information stays as it is only if its fields come back from the wire and nothing is added to what was
there: a block of an application is added once more, and a negative freshness period becomes the least
one. The type-specific TLVs of the signature information change places.
-/

namespace NdnCxx.Packet

/-! ## Elements that are taken from the front -/

/-- The elements that are left once those of the types have been taken from the front. -/
def leftover : List ℕ → List Block → List Block
  | [], elements => elements
  | type :: types, elements => leftover types (takeIf type elements).2

variable {elements : List Block} {types : List ℕ} {written : Bytes}

theorem leftover_eq_nil_iff :
    leftover types elements = [] ↔ (elements.map Block.type).Sublist types := by
  induction types generalizing elements with
  | nil => simp [leftover]
  | cons type types ih =>
    rw [leftover, ih]
    cases elements with
    | nil => simp [takeIf]
    | cons first rest =>
      by_cases htype : first.type = type
      · simp [takeIf, htype]
      · have hother : ((first :: rest).map Block.type).Sublist (type :: types) ↔
            ((first :: rest).map Block.type).Sublist types := by
          simp only [List.map_cons]
          exact ⟨fun hsublist ↦ hsublist.of_cons_of_ne htype, fun hsublist ↦ hsublist.cons type⟩
        rw [hother]
        simp [takeIf, htype]

/-- The element that is taken is the one that would be found by its type. -/
theorem takeIf_eq_find {type : ℕ} (hplaces : (elements.map Block.type).Sublist (type :: types))
    (hnew : type ∉ types) :
    (takeIf type elements).1 = Block.find elements type ∧
      ((takeIf type elements).2.map Block.type).Sublist types ∧
      ∀ other, other ≠ type → Block.find (takeIf type elements).2 other =
        Block.find elements other := by
  cases elements with
  | nil => exact ⟨rfl, List.nil_sublist types, fun _ _ ↦ rfl⟩
  | cons first rest =>
    by_cases htype : first.type = type
    · have hrest : (rest.map Block.type).Sublist types := by
        simpa [htype] using hplaces
      refine ⟨by simp [takeIf, Block.find, htype], by simpa [takeIf, htype] using hrest, ?_⟩
      intro other hne
      have hskip : first.type ≠ other := htype.trans_ne hne.symm
      simp [takeIf, Block.find, htype, hne.symm]
    · have hall : ((first :: rest).map Block.type).Sublist types :=
        hplaces.of_cons_of_ne htype
      have hnone : Block.find (first :: rest) type = none := by
        apply Block.find_eq_none_of_forall_ne
        intro element hmem heq
        exact hnew (hall.subset (List.mem_map.mpr ⟨element, hmem, heq⟩))
      simpa [takeIf, htype, hnone] using hall

variable {element : Block}

theorem find_eq_some_of_mem (hnodup : (elements.map Block.type).Nodup) (hmem : element ∈ elements) :
    Block.find elements element.type = some element := by
  induction elements with
  | nil => cases hmem
  | cons first rest ih =>
    obtain ⟨hfirst, hrest⟩ := List.nodup_cons.mp hnodup
    rcases List.mem_cons.mp hmem with rfl | hlater
    · simp [Block.find]
    · have hne : first.type ≠ element.type := fun heq ↦
        hfirst (List.mem_map.mpr ⟨element, hlater, heq.symm⟩)
      have hskip : Block.find (first :: rest) element.type = Block.find rest element.type := by
        simp [Block.find, hne]
      rw [hskip, ih hrest hlater]

theorem find_ne_none_of_mem {type : ℕ} (hmem : element ∈ elements) (htype : element.type = type) :
    Block.find elements type ≠ none := by
  intro hnone
  have hall := List.find?_eq_none.mp hnone element hmem
  simp [htype] at hall

/-! ## Meta information -/

namespace MetaInfo

/-- The getters return the same; components are compared with `operator==`. -/
structure SameFields (before after : MetaInfo) : Prop where
  type : after.type = before.type
  freshnessPeriod : after.freshnessPeriod = before.freshnessPeriod
  finalBlockId : after.finalBlockId.equals before.finalBlockId = true
  appMetaInfo : after.appMetaInfo = before.appMetaInfo

/-- An element that is read as one of the three fields gives the value of that field. -/
structure ReadsAs (metaInfo : MetaInfo) (element : Block) : Prop where
  type : element.type = Tlv.contentType → element.readUInt32 = .ok metaInfo.type
  freshnessPeriod : element.type = Tlv.freshnessPeriod →
    element.readInt64 = .ok metaInfo.freshnessPeriod
  finalBlockId : element.type = Tlv.finalBlockId →
    ∃ read, decodeFinalBlockId element = .ok read ∧ read.equals metaInfo.finalBlockId = true

def places : List ℕ := [Tlv.contentType, Tlv.freshnessPeriod, Tlv.finalBlockId]

/-- There is no block of an application, unless one stands in the place of an absent field and shows
what the field shows. An absent freshness period is the least one, and a FinalBlockId is absent or
generic. -/
structure IsSettled (metaInfo : MetaInfo) : Prop where
  places : (metaInfo.elements.map Block.type).Sublist places
  appMetaInfo : ∀ block ∈ metaInfo.appMetaInfo, metaInfo.ReadsAs block.toBlock
  freshnessPeriod : 0 ≤ metaInfo.freshnessPeriod ∨
    metaInfo.freshnessPeriod = millisecondsMin ∨
    ∃ block ∈ metaInfo.appMetaInfo, block.type = Tlv.freshnessPeriod
  finalBlockId : metaInfo.finalBlockId.isEmpty = true ∨ metaInfo.finalBlockId.isGeneric = true

/-- What decoding assigns if it reads the given elements. -/
theorem wireDecode_cases {prior decoded : MetaInfo} {block : Block}
    (hparse : Block.parse block.value = .ok elements)
    (hdecode : prior.wireDecode block = .ok decoded) :
    let afterType := (takeIf Tlv.contentType elements).2
    let afterFreshness := (takeIf Tlv.freshnessPeriod afterType).2
    Block.decodeIfFound (takeIf Tlv.contentType elements).1 Tlv.contentTypeBlob Block.readUInt32 =
        .ok decoded.type ∧
      Block.decodeIfFound (takeIf Tlv.freshnessPeriod afterType).1 millisecondsMin
          Block.readInt64 = .ok decoded.freshnessPeriod ∧
      Block.decodeIfFound (takeIf Tlv.finalBlockId afterFreshness).1 Component.reset
          decodeFinalBlockId = .ok decoded.finalBlockId ∧
      decoded.appMetaInfo = prior.appMetaInfo ++ (leftover places elements).map Block.toElement := by
  simp only [wireDecode, hparse, bind_eq_ok_iff, Except.ok.injEq, exists_eq_left'] at hdecode
  obtain ⟨type, htype, freshnessPeriod, hfreshness, finalBlockId, hfinal, hdecoded⟩ := hdecode
  cases hdecoded
  exact ⟨htype, hfreshness, hfinal, rfl⟩

/-- A number of 32 bits, a count of 64 bits with a sign, a component, and blocks whose sizes
`Block::size` reports. -/
structure IsRepresentable (metaInfo : MetaInfo) : Prop where
  type : metaInfo.type < 2 ^ 32
  freshnessPeriod : metaInfo.freshnessPeriod < 2 ^ 63
  finalBlockId : metaInfo.finalBlockId.isEmpty = false → metaInfo.finalBlockId.IsValid
  appMetaInfo : ∀ block ∈ metaInfo.appMetaInfo, block.IsWellFormed ∧ block.Fits

/-- What an element is that the meta information is written as. -/
theorem mem_elements_iff {metaInfo : MetaInfo} : element ∈ metaInfo.elements ↔
    metaInfo.type ≠ Tlv.contentTypeBlob ∧
        element = Block.ofValue Tlv.contentType (Tlv.prependNonNegativeInteger metaInfo.type) ∨
      0 ≤ metaInfo.freshnessPeriod ∧ element = Block.ofValue Tlv.freshnessPeriod
        (Tlv.prependNonNegativeInteger (toUInt64 metaInfo.freshnessPeriod)) ∨
      metaInfo.finalBlockId.isEmpty = false ∧
        element = Block.ofElements Tlv.finalBlockId [metaInfo.finalBlockId.toBlock] ∨
      ∃ block ∈ metaInfo.appMetaInfo, block.toBlock = element := by
  simp only [elements, List.mem_append, Option.mem_toList, ← Option.mem_def, contentTypeElement,
    Block.integerElement, finalBlockIdElement, Block.mem_presentIf, List.mem_map,
    decide_eq_true_eq, Bool.not_eq_true', ge_iff_le]

variable {component : Component}

theorem decodeFinalBlockId_digest (hdigest : component.isImplicitSha256Digest = true)
    (hsize : component.toBlock.wire.length < 2 ^ 64) :
    decodeFinalBlockId (Block.ofElements Tlv.finalBlockId [component.toBlock]) =
      .ok Component.reset := by
  have hvalid : component.IsValid := Or.inr hdigest
  have htype : component.type ≠ Tlv.nameComponent := by
    simp only [Component.isImplicitSha256Digest, Bool.and_eq_true, beq_iff_eq] at hdigest
    rw [hdigest.1]
    decide
  rw [decodeFinalBlockId_ofElements hvalid hsize, if_pos htype]

section Written

variable {metaInfo : MetaInfo} (hrepresentable : metaInfo.IsRepresentable)
include hrepresentable

/-- The elements of the fields themselves are read as they were written. -/
theorem readsAs_of_mem (hfinal : metaInfo.finalBlockId.isEmpty = true ∨
      metaInfo.finalBlockId.isGeneric = true)
    (happ : ∀ block ∈ metaInfo.appMetaInfo, metaInfo.ReadsAs block.toBlock)
    (hsize : ∀ element ∈ metaInfo.elements, element.wire.length < 2 ^ 64) :
    ∀ element ∈ metaInfo.elements, metaInfo.ReadsAs element := by
  intro element hmem
  have hshort := hsize element hmem
  rcases mem_elements_iff.mp hmem with ⟨-, rfl⟩ | ⟨hnonneg, rfl⟩ | ⟨hpresent, rfl⟩ |
    ⟨block, hblock, rfl⟩
  · refine ⟨fun _ ↦ ?_, by rintro ⟨⟩, by rintro ⟨⟩⟩
    have hsmall := hrepresentable.type
    rw [Block.readUInt32, Block.readNonNegativeInteger_ofValue _ (by omega)]
    exact congrArg Except.ok (Nat.mod_eq_of_lt hsmall)
  · refine ⟨by rintro ⟨⟩, fun _ ↦ ?_, by rintro ⟨⟩⟩
    rw [Block.readInt64, Block.readNonNegativeInteger_ofValue _ (toUInt64_lt _)]
    exact congrArg Except.ok (toInt64_toUInt64 (by omega) hrepresentable.freshnessPeriod)
  · refine ⟨by rintro ⟨⟩, by rintro ⟨⟩,
      fun _ ↦ ⟨metaInfo.finalBlockId, ?_, Component.equals_iff.mpr rfl⟩⟩
    have hgeneric : metaInfo.finalBlockId.isGeneric = true := hfinal.resolve_left (by simp [hpresent])
    exact decodeFinalBlockId_toBlock hgeneric (Block.length_wire_lt_of_mem hshort (by simp))
  · exact happ block hblock

end Written

/-- If nothing is left over, the fields are read from the elements of their types. -/
theorem wireDecode_cases_of_places {prior decoded : MetaInfo} {block : Block}
    (hparse : Block.parse block.value = .ok elements)
    (hdecode : prior.wireDecode block = .ok decoded)
    (hplaces : (elements.map Block.type).Sublist places) :
    Block.decodeIfFound (Block.find elements Tlv.contentType) Tlv.contentTypeBlob
        Block.readUInt32 = .ok decoded.type ∧
      Block.decodeIfFound (Block.find elements Tlv.freshnessPeriod) millisecondsMin
        Block.readInt64 = .ok decoded.freshnessPeriod ∧
      Block.decodeIfFound (Block.find elements Tlv.finalBlockId) Component.reset
        decodeFinalBlockId = .ok decoded.finalBlockId := by
  obtain ⟨htype, hfreshness, hfinal, -⟩ := wireDecode_cases hparse hdecode
  obtain ⟨hfindType, hafterType, hkeepType⟩ := takeIf_eq_find hplaces (by decide)
  obtain ⟨hfindFreshness, hafterFreshness, hkeepFreshness⟩ := takeIf_eq_find hafterType (by decide)
  obtain ⟨hfindFinal, -, -⟩ := takeIf_eq_find hafterFreshness (by decide)
  rw [hfindType] at htype
  rw [hfindFreshness, hkeepType _ (by decide)] at hfreshness
  rw [hfindFinal, hkeepFreshness _ (by decide), hkeepType _ (by decide)] at hfinal
  exact ⟨htype, hfreshness, hfinal⟩

section Unchanged

variable {metaInfo decoded : MetaInfo} {block : Block}
  (hrepresentable : metaInfo.IsRepresentable)
  (hparse : Block.parse block.value = .ok metaInfo.elements)
  (hdecode : metaInfo.wireDecode block = .ok decoded)
  (hsize : ∀ element ∈ metaInfo.elements, element.wire.length < 2 ^ 64)
include hrepresentable hparse hdecode hsize

omit hrepresentable hsize in
theorem appMetaInfo_eq_iff : decoded.appMetaInfo = metaInfo.appMetaInfo ↔
    (metaInfo.elements.map Block.type).Sublist places := by
  obtain ⟨-, -, -, happ⟩ := wireDecode_cases hparse hdecode
  rw [happ, List.append_right_eq_self, List.map_eq_nil_iff, leftover_eq_nil_iff]

theorem IsSettled.sameFields (hsettled : metaInfo.IsSettled) : metaInfo.SameFields decoded := by
  obtain ⟨htype, hfreshness, hfinal⟩ :=
    wireDecode_cases_of_places hparse hdecode hsettled.places
  have hreads := readsAs_of_mem hrepresentable hsettled.finalBlockId hsettled.appMetaInfo hsize
  refine ⟨?_, ?_, ?_, (appMetaInfo_eq_iff hparse hdecode).mpr hsettled.places⟩
  · cases hfind : Block.find metaInfo.elements Tlv.contentType with
    | some element =>
      obtain ⟨hmem, helement⟩ := Block.mem_of_find hfind
      rw [hfind, Block.decodeIfFound, (hreads element hmem).type helement] at htype
      exact (Except.ok.inj htype).symm
    | none =>
      have hblob : metaInfo.type = Tlv.contentTypeBlob := by
        by_contra hne
        have hmem := mem_elements_iff.mpr (Or.inl ⟨hne, rfl⟩)
        exact absurd hfind (find_ne_none_of_mem hmem rfl)
      rw [hfind, Block.decodeIfFound] at htype
      exact (Except.ok.inj htype).symm.trans hblob.symm
  · cases hfind : Block.find metaInfo.elements Tlv.freshnessPeriod with
    | some element =>
      obtain ⟨hmem, helement⟩ := Block.mem_of_find hfind
      rw [hfind, Block.decodeIfFound, (hreads element hmem).freshnessPeriod helement] at hfreshness
      exact (Except.ok.inj hfreshness).symm
    | none =>
      have hmin : metaInfo.freshnessPeriod = millisecondsMin := by
        rcases hsettled.freshnessPeriod with hnonneg | hmin | ⟨app, happ, htype⟩
        · have hmem := mem_elements_iff.mpr (Or.inr (Or.inl ⟨hnonneg, rfl⟩))
          exact absurd hfind (find_ne_none_of_mem hmem rfl)
        · exact hmin
        · have hmem : app.toBlock ∈ metaInfo.elements :=
            mem_elements_iff.mpr (Or.inr (Or.inr (Or.inr ⟨app, happ, rfl⟩)))
          exact absurd hfind (find_ne_none_of_mem hmem
            ((Block.Element.type_toBlock app).trans htype))
      rw [hfind, Block.decodeIfFound] at hfreshness
      exact (Except.ok.inj hfreshness).symm.trans hmin.symm
  · cases hfind : Block.find metaInfo.elements Tlv.finalBlockId with
    | some element =>
      obtain ⟨hmem, helement⟩ := Block.mem_of_find hfind
      obtain ⟨read, hread, hequals⟩ := (hreads element hmem).finalBlockId helement
      rw [hfind, Block.decodeIfFound, hread] at hfinal
      rwa [← Except.ok.inj hfinal]
    | none =>
      have hempty : metaInfo.finalBlockId.isEmpty = true := by
        by_contra hne
        have hmem := mem_elements_iff.mpr (Or.inr (Or.inr (Or.inl ⟨by simpa using hne, rfl⟩)))
        exact absurd hfind (find_ne_none_of_mem hmem rfl)
      rw [hfind, Block.decodeIfFound] at hfinal
      rw [← Except.ok.inj hfinal]
      have hvalue : metaInfo.finalBlockId.value = [] := by simpa [Component.isEmpty] using hempty
      exact Component.equals_iff.mpr hvalue.symm

/-- A FinalBlockId that is a digest is dropped. -/
theorem SameFields.isGeneric (hsame : metaInfo.SameFields decoded)
    (hplaces : (metaInfo.elements.map Block.type).Sublist places) :
    metaInfo.finalBlockId.isEmpty = true ∨ metaInfo.finalBlockId.isGeneric = true := by
  cases hempty : metaInfo.finalBlockId.isEmpty with
  | true => exact Or.inl rfl
  | false =>
    refine Or.inr ((hrepresentable.finalBlockId hempty).resolve_right fun hdigest ↦ ?_)
    have hmem := mem_elements_iff.mpr (Or.inr (Or.inr (Or.inl ⟨hempty, rfl⟩)))
    have hshort := Block.length_wire_lt_of_mem (hsize _ hmem) (List.mem_singleton.mpr rfl)
    have hfind := find_eq_some_of_mem (hplaces.nodup (by decide)) hmem
    obtain ⟨-, -, hfinal⟩ := wireDecode_cases_of_places hparse hdecode hplaces
    have htype : (Block.ofElements Tlv.finalBlockId [metaInfo.finalBlockId.toBlock]).type =
        Tlv.finalBlockId := rfl
    rw [htype] at hfind
    rw [hfind, Block.decodeIfFound, decodeFinalBlockId_digest hdigest hshort] at hfinal
    have hequals := hsame.finalBlockId
    rw [← Except.ok.inj hfinal, Component.equals_iff] at hequals
    have hvalue : metaInfo.finalBlockId.value = [] := hequals.symm
    simp [Component.isEmpty, hvalue] at hempty

theorem SameFields.isSettled (hsame : metaInfo.SameFields decoded) : metaInfo.IsSettled := by
  have hplaces := (appMetaInfo_eq_iff hparse hdecode).mp hsame.appMetaInfo
  obtain ⟨htype, hfreshness, hfinal⟩ := wireDecode_cases_of_places hparse hdecode hplaces
  refine ⟨hplaces, ?_, ?_, hsame.isGeneric hrepresentable hparse hdecode hsize hplaces⟩
  · intro app happ
    have hmem : app.toBlock ∈ metaInfo.elements :=
      mem_elements_iff.mpr (Or.inr (Or.inr (Or.inr ⟨app, happ, rfl⟩)))
    have hfind := find_eq_some_of_mem (hplaces.nodup (by decide)) hmem
    refine ⟨fun hat ↦ ?_, fun hat ↦ ?_, fun hat ↦ ⟨decoded.finalBlockId, ?_, hsame.finalBlockId⟩⟩
    · rw [hat] at hfind
      rwa [hfind, hsame.type] at htype
    · rw [hat] at hfind
      rwa [hfind, hsame.freshnessPeriod] at hfreshness
    · rw [hat] at hfind
      rwa [hfind] at hfinal
  · by_contra hnone
    obtain ⟨hnegative, hnotMin, hnoBlock⟩ := not_or.mp hnone |>.imp_right not_or.mp
    have habsent : Block.find metaInfo.elements Tlv.freshnessPeriod = none := by
      apply Block.find_eq_none_of_forall_ne
      intro element hmem hat
      rcases mem_elements_iff.mp hmem with ⟨-, rfl⟩ | ⟨hnonneg, -⟩ | ⟨-, rfl⟩ | ⟨app, happ, rfl⟩
      · cases hat
      · exact hnegative hnonneg
      · cases hat
      · exact hnoBlock ⟨app, happ, (Block.Element.type_toBlock app).symm.trans hat⟩
    rw [habsent, Block.decodeIfFound] at hfreshness
    exact hnotMin (hsame.freshnessPeriod.symm.trans (Except.ok.inj hfreshness).symm)

theorem sameFields_iff : metaInfo.SameFields decoded ↔ metaInfo.IsSettled :=
  ⟨fun hsame ↦ hsame.isSettled hrepresentable hparse hdecode hsize,
    fun hsettled ↦ hsettled.sameFields hrepresentable hparse hdecode hsize⟩

end Unchanged

theorem isGeneric_of_decodeFinalBlockId (hread : decodeFinalBlockId element = .ok component) :
    component.isEmpty = true ∨ component.isGeneric = true := by
  simp only [decodeFinalBlockId, bind_eq_ok_iff] at hread
  obtain ⟨block, -, finalBlockId, -, hcomponent⟩ := hread
  split_ifs at hcomponent with htype
  · cases hcomponent
    exact Or.inl rfl
  · cases hcomponent
    exact Or.inr (by simpa [Component.isGeneric] using htype)

/-- They are written the same. -/
structure WritesLike (metaInfo other : MetaInfo) : Prop where
  type : metaInfo.type = other.type
  freshnessPeriod : metaInfo.freshnessPeriod = other.freshnessPeriod
  finalBlockId : metaInfo.finalBlockId = other.finalBlockId ∨
    metaInfo.finalBlockId.isEmpty = true ∧ other.finalBlockId.isEmpty = true
  appMetaInfo : metaInfo.appMetaInfo = other.appMetaInfo

theorem WritesLike.refl (metaInfo : MetaInfo) : metaInfo.WritesLike metaInfo :=
  ⟨rfl, rfl, Or.inl rfl, rfl⟩

theorem WritesLike.wireEncodeInto_eq {metaInfo other : MetaInfo} (hlike : metaInfo.WritesLike other) :
    metaInfo.wireEncodeInto = other.wireEncodeInto := by
  obtain ⟨htype, hfreshness, hfinal, happ⟩ := hlike
  unfold wireEncodeInto
  rw [htype, hfreshness, happ]
  rcases hfinal with hsame | ⟨hempty, hother⟩
  · rw [hsame]
  · rw [hempty, hother]
    rfl

/-- What is read back shows the same, and a FinalBlockId keeps its type. -/
theorem SameFields.writesLike {metaInfo decoded prior : MetaInfo} {block : Block}
    (hsame : metaInfo.SameFields decoded)
    (hfinal : metaInfo.finalBlockId.isEmpty = true ∨ metaInfo.finalBlockId.isGeneric = true)
    (hdecode : prior.wireDecode block = .ok decoded) : metaInfo.WritesLike decoded := by
  obtain ⟨elements, hparse, -⟩ := bind_eq_ok_iff.mp hdecode
  obtain ⟨-, -, hread, -⟩ := wireDecode_cases hparse hdecode
  have hdecoded : decoded.finalBlockId.isEmpty = true ∨ decoded.finalBlockId.isGeneric = true :=
    Block.decodeIfFound_rule
      (fun component : Component ↦ component.isEmpty = true ∨ component.isGeneric = true)
      hread (Or.inl rfl) fun _ _ _ ↦ isGeneric_of_decodeFinalBlockId
  have hvalue := Component.equals_iff.mp hsame.finalBlockId
  have hempty : decoded.finalBlockId.isEmpty = metaInfo.finalBlockId.isEmpty := by
    simp only [Component.isEmpty, hvalue]
  refine ⟨hsame.type.symm, hsame.freshnessPeriod.symm, ?_, hsame.appMetaInfo.symm⟩
  rcases hfinal with hnone | hgeneric
  · exact Or.inr ⟨hnone, hempty.trans hnone⟩
  rcases hdecoded with hnone | hdecodedGeneric
  · exact Or.inr ⟨hempty.symm.trans hnone, hnone⟩
  · have htype : metaInfo.finalBlockId.type = decoded.finalBlockId.type := by
      simp only [Component.isGeneric, beq_iff_eq] at hgeneric hdecodedGeneric
      exact hgeneric.trans hdecodedGeneric.symm
    refine Or.inl ?_
    calc metaInfo.finalBlockId = ⟨metaInfo.finalBlockId.type, metaInfo.finalBlockId.value⟩ := rfl
      _ = decoded.finalBlockId := by rw [htype, ← hvalue]

end MetaInfo

/-! ## Signature information -/

/-- Names and digests that the setters accept, with sizes that `Block::size` reports. -/
structure KeyLocator.IsRepresentable (keyLocator : KeyLocator) : Prop extends
    keyLocator.IsWellFormed where
  short : keyLocator.type = .keyDigest → keyLocator.keyDigest.toBlock.wire.length < 2 ^ 32

theorem fits_of_length_wire_lt {element : Block.Element}
    (hshort : element.toBlock.wire.length < 2 ^ 32) : element.Fits := by
  obtain ⟨type, content⟩ := element
  cases content with
  | wire value wire => exact hshort
  | value value => trivial
  | empty => trivial

theorem KeyLocator.IsRepresentable.isEncodable {keyLocator : KeyLocator}
    (hrepresentable : keyLocator.IsRepresentable)
    (hwritten : keyLocator.wireEncodeInto = .ok written) : keyLocator.IsEncodable := by
  unfold IsEncodable
  cases hkind : keyLocator.type with
  | none => trivial
  | name => exact hrepresentable.name
  | keyDigest =>
    obtain ⟨htype, hwell⟩ := hrepresentable.keyDigest hkind
    exact ⟨htype, hwell, fits_of_length_wire_lt (hrepresentable.short hkind)⟩
  | unknown => simp [wireEncodeInto, hkind] at hwritten

namespace SignatureInfo

/-- Of each type the same TLV is found first, and the same ValidityPeriod stands in front. -/
def ShowSameBlocks (tlvs others : List Block) : Prop :=
  (∀ type, Block.find tlvs type = Block.find others type) ∧
    tlvs.head?.filter (fun block ↦ block.type == Tlv.validityPeriod) =
      others.head?.filter fun block ↦ block.type == Tlv.validityPeriod

/-- The getters return the same, where blocks are compared as they are written. -/
structure SameFields (before after : SignatureInfo) : Prop where
  type : after.type = before.type
  hasKeyLocator : after.hasKeyLocator = before.hasKeyLocator
  keyLocator : after.getKeyLocator.map KeyLocator.shown =
    before.getKeyLocator.map KeyLocator.shown
  typeSpecificTlv : ∀ type, (after.getTypeSpecificTlv type).map Block.Element.toBlock =
    (before.getTypeSpecificTlv type).map Block.Element.toBlock
  validityPeriod : after.getValidityPeriod.map Block.Element.toBlock =
    before.getValidityPeriod.map Block.Element.toBlock

/-- Where there is a stored wire, it shows what the getters show. Otherwise the first TLV on the wire
is not taken for the key locator, and the TLVs in the order of the wire show the same as in theirs. -/
def IsSettled (info : SignatureInfo) : Prop :=
  match info.wire with
  | some wire => ∃ block decoded, block.IsWire ∧ block.wire = wire ∧
      wireDecode {} block = .ok decoded ∧ info.SameFields decoded
  | none =>
      (info.hasKeyLocator = false → ∀ block ∈ info.otherTlvs.getLast?, block.type ≠ Tlv.keyLocator) ∧
        ShowSameBlocks info.writtenTlvs (info.otherTlvs.map Block.Element.toBlock)

/-- The signature type is an `int32_t`, blocks have sizes that `Block::size` reports, and a stored
wire is a SignatureInfo. -/
structure IsRepresentable (info : SignatureInfo) : Prop where
  type_lower : -2 ^ 31 ≤ info.type
  type_upper : info.type < 2 ^ 31
  keyLocator : info.keyLocator.IsRepresentable
  otherTlvs : ∀ block ∈ info.otherTlvs, block.IsWellFormed ∧ block.Fits
  wire : ∀ wire ∈ info.wire, ∃ block : Block,
    block.IsWire ∧ block.type = Tlv.signatureInfo ∧ block.wire = wire

theorem map_getTypeSpecificTlv (info : SignatureInfo) (type : ℕ) :
    (info.getTypeSpecificTlv type).map Block.Element.toBlock =
      Block.find (info.otherTlvs.map Block.Element.toBlock) type := by
  rw [getTypeSpecificTlv, Block.find, List.find?_map]
  simp only [Function.comp_def, Block.Element.type_toBlock]

theorem map_getValidityPeriod (info : SignatureInfo) :
    info.getValidityPeriod.map Block.Element.toBlock =
      (info.otherTlvs.map Block.Element.toBlock).head?.filter
        fun block ↦ block.type == Tlv.validityPeriod := by
  rw [getValidityPeriod, List.head?_map]
  cases info.otherTlvs.head? with
  | none => rfl
  | some block => by_cases htype : block.type = Tlv.validityPeriod <;> simp [Option.filter, htype]

/-- Apart from the TLVs, the getters return the same after the wire of the information is read. -/
theorem sameFields_iff_of_tlvs {before after : SignatureInfo} {tlvs : List Block}
    (htype : after.type = before.type) (hpresent : after.hasKeyLocator = before.hasKeyLocator)
    (hkeyLocator : after.hasKeyLocator = true → after.keyLocator.shown = before.keyLocator.shown)
    (htlvs : after.otherTlvs = tlvs.map Block.toElement) :
    before.SameFields after ↔
      ShowSameBlocks tlvs (before.otherTlvs.map Block.Element.toBlock) := by
  have hblocks : after.otherTlvs.map Block.Element.toBlock = tlvs := by
    rw [htlvs, Block.map_toBlock_map_toElement]
  have hlocator : after.getKeyLocator.map KeyLocator.shown =
      before.getKeyLocator.map KeyLocator.shown := by
    unfold getKeyLocator
    rw [← hpresent]
    split_ifs with hhas
    · exact congrArg Except.ok (hkeyLocator hhas)
    · rfl
  constructor
  · rintro ⟨-, -, -, hspecific, hvalidity⟩
    simp only [map_getTypeSpecificTlv, map_getValidityPeriod, hblocks] at hspecific hvalidity
    exact ⟨hspecific, hvalidity⟩
  · rintro ⟨hspecific, hvalidity⟩
    refine ⟨htype, hpresent, hlocator, ?_, ?_⟩
    · simpa only [map_getTypeSpecificTlv, hblocks] using hspecific
    · simpa only [map_getValidityPeriod, hblocks] using hvalidity

section Written

variable {info decoded : SignatureInfo}
  (hencodable : info.hasKeyLocator = true → info.keyLocator.IsEncodable)
  (hrepresentable : info.IsRepresentable)
  (hsize : info.toBlock.wire.length < 2 ^ 64)
include hencodable hrepresentable hsize

/-- Without a stored wire, the information is read from what it was written as. -/
theorem sameFields_iff_of_wireDecode (hdecode : wireDecode {} info.toBlock = .ok decoded) :
    info.SameFields decoded ↔
      (info.hasKeyLocator = false → ∀ block ∈ info.otherTlvs.getLast?, block.type ≠ Tlv.keyLocator) ∧
        ShowSameBlocks info.writtenTlvs (info.otherTlvs.map Block.Element.toBlock) := by
  obtain ⟨-, first, rest, type, hparse, -, hread, hcases⟩ := wireDecode_eq_ok_iff.mp hdecode
  rw [parse_toBlock hrepresentable.otherTlvs hsize] at hparse
  obtain ⟨rfl, rfl⟩ := List.cons.inj (Except.ok.inj hparse)
  rw [readInt32_typeElement hrepresentable.type_lower hrepresentable.type_upper] at hread
  obtain rfl := Except.ok.inj hread
  cases hpresent : info.hasKeyLocator with
  | true =>
    rw [hpresent] at hcases
    rcases hcases with ⟨second, others, keyLocator, hrest, -, hkeyLocator, hdecoded⟩ | ⟨hnot, -⟩
    · obtain ⟨rfl, rfl⟩ := List.cons.inj hrest
      have hshort : info.keyLocator.toBlock.wire.length < 2 ^ 64 := by
        apply Block.length_wire_lt_of_mem hsize
        simp [elements, Block.presentIf, hpresent]
      have hlocator := KeyLocator.wireDecode_toBlock {} (hencodable hpresent) hshort
      obtain rfl := Except.ok.inj (hlocator.symm.trans hkeyLocator)
      have hshown : decoded.keyLocator.shown = info.keyLocator.shown := by
        rw [hdecoded]
        exact KeyLocator.shown_overwrite {} info.keyLocator
      have htlvs : decoded.otherTlvs = info.writtenTlvs.map Block.toElement := by
        rw [hdecoded]
        rfl
      rw [sameFields_iff_of_tlvs (by rw [hdecoded]) (by rw [hdecoded, hpresent]) (fun _ ↦ hshown)
        htlvs]
      simp
    · exact absurd rfl (hnot info.keyLocator.toBlock rfl)
  | false =>
    rw [hpresent] at hcases
    rcases hcases with ⟨second, others, keyLocator, hrest, hsecond, -, hdecoded⟩ | ⟨hnot, hdecoded⟩
    · have hhead : info.writtenTlvs.head? = some second := by
        have hwritten : info.writtenTlvs = second :: others := hrest
        rw [hwritten]
        rfl
      rw [head?_writtenTlvs] at hhead
      obtain ⟨block, hblock, rfl⟩ := Option.map_eq_some_iff.mp hhead
      rw [Block.Element.type_toBlock] at hsecond
      constructor
      · intro hsame
        have hhas := hsame.hasKeyLocator
        rw [hdecoded, hpresent] at hhas
        cases hhas
      · rintro ⟨hnot, -⟩
        exact absurd hsecond (hnot rfl block hblock)
    · have hlast : ∀ block ∈ info.otherTlvs.getLast?, block.type ≠ Tlv.keyLocator := by
        intro block hblock
        have hhead : block.toBlock ∈ info.writtenTlvs.head? := by
          rw [head?_writtenTlvs, Option.mem_def.mp hblock]
          rfl
        have hne := hnot block.toBlock hhead
        rwa [Block.Element.type_toBlock] at hne
      have hhas : decoded.hasKeyLocator = false := by rw [hdecoded]
      have htlvs : decoded.otherTlvs = info.writtenTlvs.map Block.toElement := by
        rw [hdecoded]
        rfl
      rw [sameFields_iff_of_tlvs (by rw [hdecoded]) (hhas.trans hpresent.symm)
        (fun hpresent' ↦ absurd (hhas.symm.trans hpresent') Bool.false_ne_true) htlvs]
      exact (and_iff_right fun _ ↦ hlast).symm

end Written

/-- The key locator of information that the encoder has accepted. -/
theorem IsRepresentable.isEncodable_of_wireEncodeInto {info : SignatureInfo}
    (hrepresentable : info.IsRepresentable) (hwritten : info.wireEncodeInto = .ok written)
    (hpresent : info.hasKeyLocator = true) : info.keyLocator.IsEncodable := by
  rw [wireEncodeInto, bind_eq_ok_iff] at hwritten
  obtain ⟨keyLocator, hkeyLocator, -⟩ := hwritten
  rw [hpresent] at hkeyLocator
  exact hrepresentable.keyLocator.isEncodable hkeyLocator

/-- The block that the information is written as, and what its decoding shows. -/
theorem exists_block_of_wireEncode {info answered : SignatureInfo} {bytes : Bytes}
    (hrepresentable : info.IsRepresentable) (hencode : info.wireEncode = .ok (bytes, answered))
    (hsize : bytes.length < 2 ^ 64) :
    ∃ block : Block, block.IsWire ∧ block.type = Tlv.signatureInfo ∧ block.wire = bytes ∧
      ∀ decoded, wireDecode {} block = .ok decoded → (info.SameFields decoded ↔ info.IsSettled) := by
  rcases CodeStore.recall_cases hencode with ⟨hstored, -⟩ | ⟨hnone, hmade, -⟩
  · have hwire : info.wire = some bytes := hstored
    obtain ⟨block, hblock, htype, hbytes⟩ := hrepresentable.wire bytes hwire
    refine ⟨block, hblock, htype, hbytes, ?_⟩
    intro decoded hdecode
    simp only [IsSettled, hwire]
    constructor
    · intro hsame
      exact ⟨block, decoded, hblock, hbytes, hdecode, hsame⟩
    · rintro ⟨other, decoded', hother, hotherBytes, hdecode', hsame⟩
      have hread := Block.fromWire_eq_ok_iff.mpr ⟨hbytes, hblock⟩
      have hread' := Block.fromWire_eq_ok_iff.mpr ⟨hotherBytes, hother⟩
      obtain rfl := Except.ok.inj (hread.symm.trans hread')
      obtain rfl := Except.ok.inj (hdecode.symm.trans hdecode')
      exact hsame
  · have hwire : info.wire = none := hnone
    obtain ⟨written, hwritten, hbuffer⟩ := bind_eq_ok_iff.mp hmade
    have hencodable : info.hasKeyLocator = true → info.keyLocator.IsEncodable :=
      hrepresentable.isEncodable_of_wireEncodeInto hwritten
    obtain rfl := Except.ok.inj (hwritten.symm.trans
      (wireEncodeInto_eq_toBlock hencodable hrepresentable.otherTlvs))
    obtain ⟨-, rfl⟩ := (bufferBlock_eq_ok_iff (by decide)).mp hbuffer
    refine ⟨info.toBlock, Block.ofElements_isWire (by decide) hsize, rfl, rfl, ?_⟩
    intro decoded hdecode
    simp only [IsSettled, hwire]
    exact sameFields_iff_of_wireDecode hencodable hrepresentable hsize hdecode

end SignatureInfo

end NdnCxx.Packet
