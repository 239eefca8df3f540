import NdnCxx.Packet.DataUnchanged
import NdnCxx.Packet.ExcludeRoundTrip
import NdnCxx.Packet.InterestRoundTrip

/-!
# What encoding changes in an Interest

`wireEncode()` reads the Interest back so that its nonce lies inside the wire. An absent lifetime is
then the default one, negative integers other than -1 become -1, a link that is not a Data packet
is lost, and so is a delegation without a link. The nonce in the wire is overwritten by `setNonce`,
whatever the form of its header is.
-/

namespace NdnCxx.Packet

open Block (presentIf)

/-! ## Exclude filters and key locators -/

/-- A filter comes back from the wire as the same map just if it is unambiguous. -/
theorem Exclude.filter_eq_iff_isUnambiguous {filter : NdnCxx.Exclude} {prior decoded : Exclude}
    (hnonempty : filter.boundaries.entries ≠ []) (hvalid : IsValid filter)
    (hsize : (toBlock filter).wire.length < 2 ^ 64)
    (hdecode : prior.wireDecode (toBlock filter) = .ok decoded) :
    decoded.filter = filter ↔ IsUnambiguous filter := by
  rcases isUnambiguous_or_anyBetween hvalid with ⟨hclear, -⟩ |
    ⟨hany, above, below, digest, flag, hbetween, hnext⟩
  · rw [wireDecode_toBlock prior hnonempty hvalid hclear hsize] at hdecode
    cases hdecode
    exact iff_of_true rfl hclear
  · have hambiguous : ¬ IsUnambiguous filter := by
      intro hclear
      have hmem : (digest, flag) ∈ filter.boundaries.entries := by simp [hbetween.entries]
      exact absurd hbetween.digest_lt (not_lt.mpr
        (hclear _ (OrderedMap.mem_def.mp hany) rfl rfl _ hmem))
    refine iff_of_false (fun hsame ↦ ?_) hambiguous
    cases flag with
    | true =>
      rw [hbetween.wireDecode_flagged hvalid prior hsize] at hdecode
      cases hdecode
    | false =>
      obtain ⟨found, hfound, hmoved⟩ := hbetween.wireDecode_unflagged hvalid prior hsize
      obtain rfl := Except.ok.inj (hfound.symm.trans hdecode)
      have hcount := congrArg List.length (hmoved.symm.trans
        ((congrArg (fun filter ↦ filter.boundaries.entries) hsame).trans hbetween.entries))
      simp only [List.length_append, List.length_cons] at hcount
      omega

theorem KeyLocator.wireEncodeInto_overwrite {written : KeyLocator}
    (hrepresentable : written.IsRepresentable) :
    (overwrite {} written).wireEncodeInto = written.wireEncodeInto := by
  cases hkind : written.type with
  | keyDigest =>
    have hshort := hrepresentable.short hkind
    have hread : written.keyDigest.toBlock.toElement.prependBlock = written.keyDigest.prependBlock := by
      have hwritten : written.keyDigest.prependBlock = written.keyDigest.toBlock.wire :=
        Block.Element.prependBlock_eq (fits_of_length_wire_lt hshort)
      rw [hwritten]
      exact Block.Element.prependBlock_eq (fits_of_length_wire_lt hshort)
    simp [wireEncodeInto, overwrite, hkind, hread]
  | _ => simp [wireEncodeInto, overwrite, hkind]

/-! ## Selectors -/

namespace Selectors

/-- The getters return the same, where a key digest is the block that it is written as. -/
structure SameFields (before after : Selectors) : Prop where
  minSuffixComponents : after.minSuffixComponents = before.minSuffixComponents
  maxSuffixComponents : after.maxSuffixComponents = before.maxSuffixComponents
  publisherPublicKeyLocator :
    after.publisherPublicKeyLocator.shown = before.publisherPublicKeyLocator.shown
  exclude : after.exclude.filter = before.exclude.filter
  childSelector : after.childSelector = before.childSelector
  mustBeFresh : after.mustBeFresh = before.mustBeFresh

/-- Absent integers are -1, and the exclude filter comes back. -/
structure IsSettled (selectors : Selectors) : Prop where
  minSuffixComponents : -1 ≤ selectors.minSuffixComponents
  maxSuffixComponents : -1 ≤ selectors.maxSuffixComponents
  exclude : Exclude.IsUnambiguous selectors.exclude.filter
  childSelector : -1 ≤ selectors.childSelector

/-- Integers of 32 bits with a sign, and a key locator and components as their classes make them. -/
structure IsRepresentable (selectors : Selectors) : Prop where
  minSuffixComponents : selectors.minSuffixComponents < 2 ^ 31
  maxSuffixComponents : selectors.maxSuffixComponents < 2 ^ 31
  keyLocator : selectors.publisherPublicKeyLocator.IsRepresentable
  exclude : Exclude.IsValid selectors.exclude.filter
  childSelector : selectors.childSelector < 2 ^ 31

/-- They are written the same. -/
structure WritesLike (selectors other : Selectors) : Prop where
  minSuffixComponents : selectors.minSuffixComponents = other.minSuffixComponents
  maxSuffixComponents : selectors.maxSuffixComponents = other.maxSuffixComponents
  keyLocator_isEmpty :
    selectors.publisherPublicKeyLocator.isEmpty = other.publisherPublicKeyLocator.isEmpty
  keyLocator : selectors.publisherPublicKeyLocator.wireEncodeInto =
    other.publisherPublicKeyLocator.wireEncodeInto
  exclude : selectors.exclude.filter = other.exclude.filter
  childSelector : selectors.childSelector = other.childSelector
  mustBeFresh : selectors.mustBeFresh = other.mustBeFresh

theorem WritesLike.refl (selectors : Selectors) : selectors.WritesLike selectors :=
  ⟨rfl, rfl, rfl, rfl, rfl, rfl, rfl⟩

variable {selectors : Selectors} {other : Selectors}

theorem WritesLike.isEmpty_eq (hlike : selectors.WritesLike other) :
    selectors.isEmpty = other.isEmpty := by
  simp only [isEmpty, Exclude.isEmpty, hlike.minSuffixComponents, hlike.maxSuffixComponents,
    hlike.keyLocator_isEmpty, hlike.exclude, hlike.childSelector, hlike.mustBeFresh]

theorem WritesLike.wireEncodeInto_eq (hlike : selectors.WritesLike other) :
    selectors.wireEncodeInto = other.wireEncodeInto := by
  have hisEmpty : selectors.exclude.isEmpty = other.exclude.isEmpty := by
    simp only [Exclude.isEmpty, hlike.exclude]
  have hexclude : selectors.exclude.wireEncodeInto = other.exclude.wireEncodeInto := by
    simp only [Exclude.wireEncodeInto, hisEmpty, hlike.exclude]
  simp only [wireEncodeInto, hisEmpty, hexclude, hlike.minSuffixComponents,
    hlike.maxSuffixComponents, hlike.keyLocator_isEmpty, hlike.keyLocator, hlike.childSelector,
    hlike.mustBeFresh]

theorem IsRepresentable.isEncodable {written : Bytes} (hrepresentable : selectors.IsRepresentable)
    (hwritten : Block.writtenIf (!selectors.isEmpty) selectors.wireEncodeInto = .ok written) :
    selectors.IsEncodable where
  minSuffixComponents := hrepresentable.minSuffixComponents
  maxSuffixComponents := hrepresentable.maxSuffixComponents
  childSelector := hrepresentable.childSelector
  exclude := hrepresentable.exclude
  keyLocator := by
    cases hempty : selectors.publisherPublicKeyLocator.isEmpty with
    | true =>
      have hnone : selectors.publisherPublicKeyLocator.type = .none := by
        simpa [KeyLocator.isEmpty] using hempty
      simp [KeyLocator.IsEncodable, hnone]
    | false =>
      have hpresent : selectors.isEmpty = false := by simp [isEmpty, hempty]
      simp only [hpresent, Block.writtenIf, Bool.not_false, if_true, wireEncodeInto, hempty,
        bind_eq_ok_iff] at hwritten
      obtain ⟨exclude, -, keyLocator, hkeyLocator, -⟩ := hwritten
      exact hrepresentable.keyLocator.isEncodable hkeyLocator

section ReadBack

variable {written decoded : Selectors} (hrepresentable : written.IsRepresentable)
  (hencodable : written.IsEncodable) (hsize : written.toBlock.wire.length < 2 ^ 64)
  (hdecode : wireDecode {} written.toBlock = .ok decoded)
include hencodable hsize hdecode

/-- What was written is read, apart from the exclude filter, which is decoded if there is one. -/
theorem exists_decoded_exclude : ∃ exclude,
    decoded = { written.reread with exclude := exclude } ∧
      (written.exclude.isEmpty = true ∧ exclude = {} ∨
        written.exclude.isEmpty = false ∧
          (Exclude.toBlock written.exclude.filter).wire.length < 2 ^ 64 ∧
            Exclude.wireDecode {} (Exclude.toBlock written.exclude.filter) = .ok exclude) := by
  rw [wireDecode_toBlock_eq {} hencodable hsize] at hdecode
  cases hempty : written.exclude.isEmpty with
  | true =>
    rw [hempty] at hdecode
    exact ⟨{}, (Except.ok.inj hdecode).symm, Or.inl ⟨rfl, rfl⟩⟩
  | false =>
    rw [hempty, map_eq_pure_bind, bind_eq_ok_iff] at hdecode
    obtain ⟨exclude, hread, hdecoded⟩ := hdecode
    have hmem : (Tlv.exclude, presentIf (!written.exclude.isEmpty)
        (Exclude.toBlock written.exclude.filter)) ∈ written.fields := by simp [fields]
    have hshort := Block.length_wire_lt_of_presentIf hsize hmem (by simp [hempty])
    exact ⟨exclude, (Except.ok.inj hdecoded).symm, Or.inr ⟨rfl, hshort, hread⟩⟩

theorem exists_exclude_of_wireDecode : ∃ exclude,
    decoded = { written.reread with exclude := exclude } ∧
      (exclude.filter = written.exclude.filter ↔ Exclude.IsUnambiguous written.exclude.filter) := by
  obtain ⟨exclude, hdecoded, ⟨hempty, rfl⟩ | ⟨hempty, hshort, hread⟩⟩ :=
    exists_decoded_exclude hencodable hsize hdecode
  · have hfilter := filter_of_isEmpty hempty
    have hclear : Exclude.IsUnambiguous NdnCxx.Exclude.empty :=
      fun entry hentry ↦ absurd hentry (OrderedMap.not_mem_empty entry)
    exact ⟨{}, hdecoded, iff_of_true hfilter (hfilter ▸ hclear)⟩
  · have hnonempty : written.exclude.filter.boundaries.entries ≠ [] := by
      simpa [Exclude.isEmpty] using hempty
    exact ⟨exclude, hdecoded,
      Exclude.filter_eq_iff_isUnambiguous hnonempty hencodable.exclude hshort hread⟩

theorem sameFields_iff : written.SameFields decoded ↔ written.IsSettled := by
  obtain ⟨exclude, rfl, hexclude⟩ := exists_exclude_of_wireDecode hencodable hsize hdecode
  constructor
  · rintro ⟨hmin, hmax, -, hfilter, hchild, -⟩
    exact ⟨max_eq_left_iff.mp hmin, max_eq_left_iff.mp hmax, hexclude.mp hfilter,
      max_eq_left_iff.mp hchild⟩
  · rintro ⟨hmin, hmax, hclear, hchild⟩
    exact {
      minSuffixComponents := max_eq_left hmin
      maxSuffixComponents := max_eq_left hmax
      publisherPublicKeyLocator := (carries_reread written).keyLocator
      exclude := hexclude.mpr hclear
      childSelector := max_eq_left hchild
      mustBeFresh := rfl }

include hrepresentable

theorem SameFields.writesLike (hsame : written.SameFields decoded) : written.WritesLike decoded := by
  obtain ⟨exclude, rfl, -⟩ := exists_exclude_of_wireDecode hencodable hsize hdecode
  have hread : written.reread.publisherPublicKeyLocator =
      if !written.publisherPublicKeyLocator.isEmpty then
        KeyLocator.overwrite {} written.publisherPublicKeyLocator
      else {} := rfl
  refine ⟨hsame.minSuffixComponents.symm, hsame.maxSuffixComponents.symm, ?_, ?_,
    hsame.exclude.symm, hsame.childSelector.symm, rfl⟩
  · change _ = written.reread.publisherPublicKeyLocator.isEmpty
    rw [hread]
    split_ifs with hpresent
    · rfl
    · have hempty : written.publisherPublicKeyLocator.isEmpty = true := by simpa using hpresent
      exact hempty
  · change _ = written.reread.publisherPublicKeyLocator.wireEncodeInto
    rw [hread]
    split_ifs with hpresent
    · exact (KeyLocator.wireEncodeInto_overwrite hrepresentable.keyLocator).symm
    · have hnone : written.publisherPublicKeyLocator.type = .none := by
        simpa [KeyLocator.isEmpty] using hpresent
      simp [KeyLocator.wireEncodeInto, hnone]

end ReadBack

theorem sameFields_default_iff (hempty : selectors.isEmpty = true) :
    selectors.SameFields {} ↔ selectors.IsSettled := by
  have hcarries := carries_of_isEmpty hempty
  simp only [isEmpty, Bool.and_eq_true, decide_eq_true_eq, Bool.not_eq_true'] at hempty
  obtain ⟨⟨⟨⟨⟨hmin, hmax⟩, -⟩, hexclude⟩, hchild⟩, -⟩ := hempty
  have hclear : Exclude.IsUnambiguous selectors.exclude.filter := by
    rw [← filter_of_isEmpty hexclude]
    exact fun entry hentry ↦ absurd hentry (OrderedMap.not_mem_empty entry)
  constructor
  · rintro ⟨hmin', hmax', -, -, hchild', -⟩
    exact ⟨hmin'.le, hmax'.le, hclear, hchild'.le⟩
  · rintro ⟨hmin', hmax', -, hchild'⟩
    exact {
      minSuffixComponents := by simp only; omega
      maxSuffixComponents := by simp only; omega
      publisherPublicKeyLocator := hcarries.keyLocator
      exclude := hcarries.exclude
      childSelector := by simp only; omega
      mustBeFresh := hcarries.mustBeFresh }

theorem SameFields.writesLike_default (hempty : selectors.isEmpty = true)
    (hsame : selectors.SameFields {}) : selectors.WritesLike {} := by
  simp only [isEmpty, Bool.and_eq_true] at hempty
  have hkeyLocator : selectors.publisherPublicKeyLocator.isEmpty = true := hempty.1.1.1.2
  have hnone : selectors.publisherPublicKeyLocator.type = .none := by
    simpa [KeyLocator.isEmpty] using hkeyLocator
  exact ⟨hsame.minSuffixComponents.symm, hsame.maxSuffixComponents.symm, hkeyLocator,
    by simp [KeyLocator.wireEncodeInto, hnone], hsame.exclude.symm, hsame.childSelector.symm,
    hsame.mustBeFresh.symm⟩

end Selectors

namespace Interest

/-! ## Fields -/

/-- The getters return the same; a nonce is compared once it has been assigned. -/
structure SameFields (before after : Interest) : Prop where
  name : after.name = before.name
  selectors : before.selectors.SameFields after.selectors
  nonce : ∀ nonce ∈ before.nonce, after.nonce = some nonce
  interestLifetime : after.interestLifetime = before.interestLifetime
  link : after.link = before.link
  selectedDelegationIndex : after.selectedDelegationIndex = before.selectedDelegationIndex

/-- There is a lifetime, a link is a Data packet, a selected delegation has a link, and a nonce of four
bytes has the header that `setNonce` gives it. -/
structure IsSettled (interest : Interest) : Prop where
  selectors : interest.selectors.IsSettled
  nonce : ∀ nonce ∈ interest.nonce,
    nonce.value.length = 4 → nonce = Block.ofValue Tlv.nonce nonce.value
  interestLifetime : 0 ≤ interest.interestLifetime
  link : ∀ link ∈ interest.link, link.type = Tlv.data
  delegation : interest.hasSelectedDelegation = true → interest.link.isSome = true

/-- Members as their classes keep them, with blocks whose sizes `Block::size` reports. -/
structure IsRepresentable (interest : Interest) : Prop where
  name : interest.name.IsWellFormed
  selectors : interest.selectors.IsRepresentable
  nonce : ∀ nonce ∈ interest.nonce, nonce.type = Tlv.nonce ∧ nonce.IsWire
  interestLifetime : interest.interestLifetime < 2 ^ 63
  link : ∀ link ∈ interest.link, link.IsWire ∧ link.wire.length < 2 ^ 32
  index : interest.selectedDelegationIndex < 2 ^ 64

variable {random : UInt32}

/-- An Interest that the encoder has accepted. -/
theorem IsRepresentable.isWritable {interest : Interest} {written : Bytes}
    (hrepresentable : interest.IsRepresentable)
    (hwritten : wireEncodeInto random interest = .ok written) : interest.IsWritable := by
  simp only [wireEncodeInto, bind_eq_ok_iff] at hwritten
  obtain ⟨answer, hanswer, selectors, hselectors, -⟩ := hwritten
  exact ⟨hrepresentable.name, hrepresentable.selectors.isEncodable hselectors,
    nonce_of_getNonce hrepresentable.nonce hanswer, hrepresentable.interestLifetime,
    hrepresentable.link, hrepresentable.index⟩

/-- What has been encoded can be written, and is the wire of the block. -/
theorem IsRepresentable.written {interest : Interest} {bytes : Bytes}
    (hrepresentable : interest.IsRepresentable)
    (hmade : (codes random).encode interest = .ok bytes) :
    interest.IsWritable ∧ bytes = (interest.toBlock random).wire := by
  obtain ⟨written, hwritten, hbuffer⟩ := bind_eq_ok_iff.mp hmade
  have hwritable := hrepresentable.isWritable hwritten
  obtain rfl := Except.ok.inj (hwritten.symm.trans (wireEncodeInto_eq hwritable))
  exact ⟨hwritable, ((bufferBlock_eq_ok_iff (by decide)).mp hbuffer).2⟩

variable {bytes : Bytes}

/-- What encoding has written and read back, if no wire was stored. -/
theorem wireEncode_cases {interest next : Interest} (hrepresentable : interest.IsRepresentable)
    (hnone : interest.wire = none) (hencode : interest.wireEncode random = .ok (bytes, next))
    (hsize : bytes.length < 2 ^ 64) :
    interest.IsWritable ∧ bytes = (interest.toBlock random).wire ∧
      (interest.toBlock random).wire.length < 2 ^ 64 ∧
      wireDecode {} (interest.toBlock random) = .ok next := by
  rcases CodeStore.recall_cases hencode with ⟨hstored, -⟩ | ⟨-, hmade, hread⟩
  · simp [codes, hnone] at hstored
  obtain ⟨hwritable, rfl⟩ := hrepresentable.written hmade
  have hblock : Block.fromWire (interest.toBlock random).wire = .ok (interest.toBlock random) :=
    Block.fromWire_ofElements (by decide) hsize
  obtain ⟨block, hblock', hdecode⟩ := bind_eq_ok_iff.mp hread
  obtain rfl := Except.ok.inj (hblock.symm.trans hblock')
  exact ⟨hwritable, rfl, hsize, hdecode⟩

theorem isData_of_wireDecode {prior next : Interest} {wire : Block}
    (hdecode : prior.wireDecode wire = .ok next) : ∀ link ∈ next.link, link.type = Tlv.data := by
  obtain ⟨elements, nonce, -, -, -, -, -, -, hlink, -⟩ := wireDecode_cases hdecode
  intro link hmem
  rw [hlink] at hmem
  exact (Block.mem_of_find hmem).2

theorem eq_of_decodeSelectedDelegation {link : Option Block} {index number : ℕ}
    (hnumber : number < 2 ^ 64)
    (hread : decodeSelectedDelegation link (Block.ofValue Tlv.selectedDelegation
      (Tlv.prependNonNegativeInteger number)) = .ok index) : index = number := by
  cases link with
  | none => cases hread
  | some link =>
    simp only [decodeSelectedDelegation, Block.readNonNegativeInteger_ofValue _ hnumber,
      bind_eq_ok_iff, Except.ok.injEq, exists_eq_left'] at hread
    obtain ⟨count, -, hindex⟩ := hread
    split_ifs at hindex
    exact (Except.ok.inj hindex).symm

section ReadBack

variable {interest next : Interest} (hwritable : interest.IsWritable)
  (hshort : (interest.toBlock random).wire.length < 2 ^ 64)
  (hdecode : wireDecode {} (interest.toBlock random) = .ok next)
include hwritable hshort hdecode

/-- What was written is read, apart from the selectors and the selected delegation, which are decoded
if they are there. -/
theorem exists_decoded_of_wireDecode (hdata : ∀ link ∈ interest.link, link.type = Tlv.data) :
    ∃ selectors index, next = { interest.reread random with
        selectors := selectors, selectedDelegationIndex := index } ∧
      (interest.selectors.isEmpty = true ∧ selectors = {} ∨
        interest.selectors.isEmpty = false ∧
          interest.selectors.toBlock.wire.length < 2 ^ 64 ∧
            Selectors.wireDecode {} interest.selectors.toBlock = .ok selectors) ∧
      ((interest.link.isSome && interest.hasSelectedDelegation) = false ∧
          index = invalidSelectedDelegationIndex ∨
        (interest.link.isSome && interest.hasSelectedDelegation) = true ∧
          index = interest.selectedDelegationIndex) := by
  rw [wireDecode_toBlock_eq hwritable hdata {} hshort] at hdecode
  obtain ⟨selectors, hselectors, hdecode⟩ := bind_eq_ok_iff.mp hdecode
  obtain ⟨index, hindex, hdecode⟩ := bind_eq_ok_iff.mp hdecode
  refine ⟨selectors, index, (Except.ok.inj hdecode).symm, ?_, ?_⟩
  · cases hempty : interest.selectors.isEmpty with
    | true =>
      rw [hempty] at hselectors
      exact Or.inl ⟨rfl, (Except.ok.inj hselectors).symm⟩
    | false =>
      have hmem : (Tlv.selectors, presentIf (!interest.selectors.isEmpty)
          interest.selectors.toBlock) ∈ interest.fields random := by simp [fields]
      have hsize := Block.length_wire_lt_of_presentIf hshort hmem (by simp [hempty])
      rw [hempty] at hselectors
      exact Or.inr ⟨rfl, hsize, hselectors⟩
  · cases hpresent : interest.link.isSome && interest.hasSelectedDelegation with
    | false =>
      rw [hpresent] at hindex
      exact Or.inl ⟨rfl, (Except.ok.inj hindex).symm⟩
    | true =>
      rw [hpresent] at hindex
      exact Or.inr ⟨rfl, eq_of_decodeSelectedDelegation hwritable.index hindex⟩

theorem exists_read_of_wireDecode (hdata : ∀ link ∈ interest.link, link.type = Tlv.data) :
    ∃ selectors index, next = { interest.reread random with
        selectors := selectors, selectedDelegationIndex := index } ∧
      (interest.selectors.SameFields selectors ↔ interest.selectors.IsSettled) ∧
      (interest.selectors.IsRepresentable → interest.selectors.SameFields selectors →
        interest.selectors.WritesLike selectors) ∧
      (index = interest.selectedDelegationIndex ↔
        (interest.hasSelectedDelegation = true → interest.link.isSome = true)) := by
  obtain ⟨selectors, index, hnext, hselectors, hindex⟩ :=
    exists_decoded_of_wireDecode hwritable hshort hdecode hdata
  refine ⟨selectors, index, hnext, ?_⟩
  rw [← and_assoc]
  constructor
  · rcases hselectors with ⟨hempty, rfl⟩ | ⟨-, hsize, hread⟩
    · exact ⟨Selectors.sameFields_default_iff hempty,
        fun _ hsame ↦ hsame.writesLike_default hempty⟩
    · exact ⟨Selectors.sameFields_iff hwritable.selectors hsize hread,
        fun hmembers hsame ↦ hsame.writesLike hmembers hwritable.selectors hsize hread⟩
  · rcases hindex with ⟨habsent, rfl⟩ | ⟨hpresent, rfl⟩
    · have hinvalid : interest.hasSelectedDelegation = false ↔
          invalidSelectedDelegationIndex = interest.selectedDelegationIndex := by
        rw [hasSelectedDelegation, bne_eq_false_iff_eq]
        exact eq_comm
      rw [← hinvalid]
      cases hselected : interest.hasSelectedDelegation with
      | false => simp
      | true => simpa [hselected] using habsent
    · exact iff_of_true rfl fun _ ↦ (Bool.and_eq_true_iff.mp hpresent).1

/-- The getters return the same just if the Interest is settled, apart from the header of its nonce. -/
theorem sameFields_iff : interest.SameFields next ↔ interest.selectors.IsSettled ∧
    0 ≤ interest.interestLifetime ∧ (∀ link ∈ interest.link, link.type = Tlv.data) ∧
      (interest.hasSelectedDelegation = true → interest.link.isSome = true) := by
  have hlifetime : (interest.reread random).interestLifetime = interest.interestLifetime ↔
      0 ≤ interest.interestLifetime := by
    have hdefault : 0 ≤ defaultInterestLifetime := by decide
    simp only [reread, hasLifetime, decide_eq_true_eq]
    split_ifs with hpresent <;> omega
  constructor
  · intro hsame
    have hdata := isData_of_wireDecode hdecode
    rw [hsame.link] at hdata
    obtain ⟨selectors, index, rfl, hselectors, -, hindex⟩ :=
      exists_read_of_wireDecode hwritable hshort hdecode hdata
    exact ⟨hselectors.mp hsame.selectors, hlifetime.mp hsame.interestLifetime, hdata,
      hindex.mp hsame.selectedDelegationIndex⟩
  · rintro ⟨hsettled, hpresent, hdata, hdelegation⟩
    obtain ⟨selectors, index, rfl, hselectors, -, hindex⟩ :=
      exists_read_of_wireDecode hwritable hshort hdecode hdata
    exact {
      name := rfl
      selectors := hselectors.mpr hsettled
      nonce := by
        intro nonce hnonce
        simp [reread, writtenNonce, Option.mem_def.mp hnonce]
      interestLifetime := hlifetime.mpr hpresent
      link := rfl
      selectedDelegationIndex := hindex.mpr hdelegation }

end ReadBack

/-! ## Setters after an encoding -/

def Call.IsSetter : Call → Prop
  | .getNonce _ | .refreshNonce _ | .wireDecode _ _ | .wireDecodeAssembled _ _ _ => False
  | _ => True

/-- The bytes that are written after the call, if it returns normally. -/
def encodingAfter (random : UInt32) (interest : Interest) (call : Call) :
    Option (Except Error Bytes) :=
  (interest.perform call).map fun changed ↦ encoding (changed.wireEncode random)

/-- The Interests are written the same, whether they keep wires or not. -/
structure WritesLike (random : UInt32) (interest other : Interest) : Prop where
  name : interest.name = other.name
  selectors : interest.selectors.WritesLike other.selectors
  nonce : interest.writtenNonce random = other.writtenNonce random
  interestLifetime : interest.interestLifetime = other.interestLifetime
  link : interest.link = other.link
  selectedDelegationIndex : interest.selectedDelegationIndex = other.selectedDelegationIndex

/-- Of the nonce, writing uses the number and the block. -/
theorem bind_getNonce {Result : Type} (interest : Interest)
    (next : Option Block → Except Error Result) :
    (interest.getNonce random >>= fun answer ↦ next answer.2.nonce) =
      nonceNumber (interest.writtenNonce random) >>= fun _ ↦
        next (some (interest.writtenNonce random)) := by
  simp only [getNonce, nonce_ensureNonce, Option.getD_some]
  cases nonceNumber (interest.writtenNonce random) with
  | error error => rfl
  | ok number =>
    change next (interest.ensureNonce random).nonce = _
    rw [nonce_ensureNonce]
    rfl

section Alike

variable {interest other : Interest} (hlike : interest.WritesLike random other)
include hlike

theorem WritesLike.wireEncodeInto_eq :
    wireEncodeInto random interest = wireEncodeInto random other := by
  have hselected : interest.hasSelectedDelegation = other.hasSelectedDelegation := by
    simp only [hasSelectedDelegation, hlike.selectedDelegationIndex]
  have hlink : interest.prependLink = other.prependLink := by
    unfold prependLink
    rw [hlike.link, hlike.selectedDelegationIndex, hselected]
  have hselectors : Block.writtenIf (!interest.selectors.isEmpty) interest.selectors.wireEncodeInto =
      Block.writtenIf (!other.selectors.isEmpty) other.selectors.wireEncodeInto := by
    rw [hlike.selectors.isEmpty_eq, hlike.selectors.wireEncodeInto_eq]
  have hnonce : ∀ next : Option Block → Except Error Bytes,
      (interest.getNonce random >>= fun answer ↦ next answer.2.nonce) =
        other.getNonce random >>= fun answer ↦ next answer.2.nonce := by
    intro next
    rw [bind_getNonce, bind_getNonce, hlike.nonce]
  simp only [wireEncodeInto, hlink, hselectors, hlike.name, hlike.interestLifetime]
  exact hnonce fun nonce ↦
    Block.writtenIf (!other.selectors.isEmpty) other.selectors.wireEncodeInto >>= fun selectors ↦
      .ok (Tlv.prependByteArrayBlock Tlv.interest (other.name.wireEncode ++ (selectors ++
        ((nonce.map fun block ↦ Block.prependWire block.wire).getD [] ++
          ((if other.interestLifetime ≥ 0 ∧ other.interestLifetime ≠ defaultInterestLifetime then
              Block.prependNonNegativeIntegerBlock Tlv.interestLifetime
                (toUInt64 other.interestLifetime)
            else []) ++ other.prependLink)))))

/-- Without stored wires, the same bytes are returned. -/
theorem WritesLike.encoding_eq (hnone : interest.wire = none) (hother : other.wire = none) :
    encoding (interest.wireEncode random) = encoding (other.wireEncode random) := by
  have hstored : (codes random).stored interest = none := by simp [codes, hnone]
  have hotherStored : (codes random).stored other = none := by simp [codes, hother]
  have hencode : (codes random).encode interest = (codes random).encode other := by
    simp only [codes, hlike.wireEncodeInto_eq]
  calc encoding (interest.wireEncode random)
      = (codes random).encode interest >>= fun code ↦
          ((codes random).store interest code).map fun _ ↦ code :=
        CodeStore.map_fst_recall_of_none hstored
    _ = (codes random).encode other >>= fun code ↦
          ((codes random).store other code).map fun _ ↦ code := by
        rw [hencode]
        rfl
    _ = encoding (other.wireEncode random) :=
        (CodeStore.map_fst_recall_of_none hotherStored).symm

/-- A setter other than that of the nonce discards the wire and changes both Interests in the same
way. -/
theorem WritesLike.perform_cases {call : Call} (hsetter : call.IsSetter)
    (hother : ∀ nonce, call ≠ .setNonce nonce) :
    (interest.perform call = none ∧ other.perform call = none) ∨
      ∃ next otherNext, interest.perform call = some next ∧ other.perform call = some otherNext ∧
        next.WritesLike random otherNext ∧ next.wire = none ∧ otherNext.wire = none := by
  -- the six setters of selectors
  have hselectors (change : Selectors → Selectors)
      (hsame : (change interest.selectors).WritesLike (change other.selectors))
      (hcall : ∀ object : Interest, object.perform call =
        some { object with selectors := change object.selectors, wire := none }) :
      ∃ next otherNext, interest.perform call = some next ∧ other.perform call = some otherNext ∧
        next.WritesLike random otherNext ∧ next.wire = none ∧ otherNext.wire = none :=
    ⟨_, _, hcall _, hcall _, { hlike with selectors := hsame }, rfl, rfl⟩
  cases call with
  | setName name => exact Or.inr ⟨_, _, rfl, rfl, { hlike with name := rfl }, rfl, rfl⟩
  | setInterestLifetime interestLifetime =>
    exact Or.inr ⟨_, _, rfl, rfl, { hlike with interestLifetime := rfl }, rfl, rfl⟩
  | setSelectors selectors => exact Or.inr (hselectors (fun _ ↦ selectors) (.refl _) fun _ ↦ rfl)
  | setMinSuffixComponents minSuffixComponents =>
    exact Or.inr (hselectors (·.setMinSuffixComponents minSuffixComponents)
      { hlike.selectors with minSuffixComponents := rfl } fun _ ↦ rfl)
  | setMaxSuffixComponents maxSuffixComponents =>
    exact Or.inr (hselectors (·.setMaxSuffixComponents maxSuffixComponents)
      { hlike.selectors with maxSuffixComponents := rfl } fun _ ↦ rfl)
  | setPublisherPublicKeyLocator keyLocator =>
    exact Or.inr (hselectors (·.setPublisherPublicKeyLocator keyLocator)
      { hlike.selectors with keyLocator_isEmpty := rfl, keyLocator := rfl } fun _ ↦ rfl)
  | setExclude exclude =>
    exact Or.inr (hselectors (·.setExclude exclude) { hlike.selectors with exclude := rfl }
      fun _ ↦ rfl)
  | setChildSelector childSelector =>
    exact Or.inr (hselectors (·.setChildSelector childSelector)
      { hlike.selectors with childSelector := rfl } fun _ ↦ rfl)
  | setMustBeFresh mustBeFresh =>
    exact Or.inr (hselectors (·.setMustBeFresh mustBeFresh)
      { hlike.selectors with mustBeFresh := rfl } fun _ ↦ rfl)
  | setNonce nonce => exact absurd rfl (hother nonce)
  | getNonce word => exact hsetter.elim
  | refreshNonce newNonce => exact hsetter.elim
  | setLink link hwire =>
    exact Or.inr ⟨_, _, rfl, rfl,
      { hlike with link := rfl, selectedDelegationIndex := rfl }, rfl, rfl⟩
  | unsetLink =>
    exact Or.inr ⟨_, _, rfl, rfl,
      { hlike with link := rfl, selectedDelegationIndex := rfl }, rfl, rfl⟩
  | setSelectedDelegation delegationName =>
    have hlink : interest.linkOrThrow Tlv.content = other.linkOrThrow Tlv.content := by
      rw [linkOrThrow, linkOrThrow, hlike.link]
    simp only [perform, setSelectedDelegation, hlink, bind, Except.bind]
    cases other.linkOrThrow Tlv.content with
    | error error => exact Or.inl ⟨rfl, rfl⟩
    | ok link =>
      dsimp only
      cases Link.findDelegationFromWire link delegationName with
      | error error => exact Or.inl ⟨rfl, rfl⟩
      | ok found =>
        cases found with
        | none => exact Or.inl ⟨rfl, rfl⟩
        | some delegationIndex =>
          exact Or.inr ⟨_, _, rfl, rfl, { hlike with selectedDelegationIndex := rfl }, rfl, rfl⟩
  | setSelectedDelegationIndex delegationIndex =>
    have hlink : interest.linkOrThrow Tlv.name = other.linkOrThrow Tlv.name := by
      rw [linkOrThrow, linkOrThrow, hlike.link]
    simp only [perform, setSelectedDelegationIndex, hlink, bind, Except.bind]
    cases other.linkOrThrow Tlv.name with
    | error error => exact Or.inl ⟨rfl, rfl⟩
    | ok link =>
      dsimp only
      cases Link.wireDecode {} link with
      | error error => exact Or.inl ⟨rfl, rfl⟩
      | ok decoded =>
        dsimp only
        split_ifs
        · exact Or.inl ⟨rfl, rfl⟩
        · exact Or.inr ⟨_, _, rfl, rfl, { hlike with selectedDelegationIndex := rfl }, rfl, rfl⟩
  | unsetSelectedDelegation =>
    exact Or.inr ⟨_, _, rfl, rfl, { hlike with selectedDelegationIndex := rfl }, rfl, rfl⟩
  | wireDecode wire hwire => exact hsetter.elim
  | wireDecodeAssembled wire elements hwire => exact hsetter.elim

theorem WritesLike.encodingAfter_eq {call : Call} (hsetter : call.IsSetter)
    (hother : ∀ nonce, call ≠ .setNonce nonce) :
    interest.encodingAfter random call = other.encodingAfter random call := by
  unfold encodingAfter
  rcases hlike.perform_cases hsetter hother with ⟨hnone, hotherNone⟩ |
    ⟨next, otherNext, hnext, hotherNext, hsame, hwire, hotherWire⟩
  · rw [hnone, hotherNone]
  · rw [hnext, hotherNext]
    exact congrArg some (hsame.encoding_eq hwire hotherWire)

end Alike

/-! ## The nonce after an encoding -/

theorem overwriteValue_ofValue {type : ℕ} {old value : Bytes} (hlength : value.length = old.length) :
    overwriteValue (Block.ofValue type old) value = Block.ofValue type value := by
  have hheader : ∀ bytes : Bytes, (Block.ofValue type bytes).wire =
      (Tlv.writeVarNumber type ++ Tlv.writeVarNumber bytes.length) ++ bytes := by
    intro bytes
    rw [List.append_assoc]
    rfl
  have hcount : (Block.ofValue type old).wire.length - (Block.ofValue type old).value.length =
      (Tlv.writeVarNumber type ++ Tlv.writeVarNumber old.length).length := by
    rw [hheader, List.length_append]
    exact Nat.add_sub_cancel _ _
  have hwire : (overwriteValue (Block.ofValue type old) value).wire =
      (Block.ofValue type value).wire := by
    rw [overwriteValue, hcount, hheader old, List.take_left, hheader value, hlength]
  exact congrArg (Block.mk type value) hwire

/-- A value is overwritten as it would be written anew just if the header is the shortest one. -/
theorem overwriteValue_eq_ofValue_iff {block : Block} {value : Bytes} (hwire : block.IsWire)
    (hlength : value.length = block.value.length) :
    overwriteValue block value = Block.ofValue block.type value ↔
      block = Block.ofValue block.type block.value := by
  constructor
  · intro hsame
    have hback : overwriteValue (overwriteValue block value) block.value = block := by
      obtain ⟨header, hheader, -⟩ := hwire.exists_header
      obtain ⟨type, old, wire⟩ := block
      simp only at hheader hlength
      simp [overwriteValue, hheader]
    calc block = overwriteValue (overwriteValue block value) block.value := hback.symm
      _ = overwriteValue (Block.ofValue block.type value) block.value := by rw [hsame]
      _ = Block.ofValue block.type block.value := overwriteValue_ofValue hlength.symm
  · intro hshortest
    rw [hshortest]
    exact overwriteValue_ofValue hlength

/-- The elements in front of the nonce. -/
def elementsBefore (interest : Interest) : List Block :=
  interest.name.toBlock ::
    (presentIf (!interest.selectors.isEmpty) interest.selectors.toBlock).toList

def elementsBehind (interest : Interest) : List Block :=
  (presentIf interest.hasLifetime (Block.ofValue Tlv.interestLifetime
      (Tlv.prependNonNegativeInteger (toUInt64 interest.interestLifetime)))).toList ++
    (interest.link.toList ++
      (presentIf (interest.link.isSome && interest.hasSelectedDelegation)
        (Block.ofValue Tlv.selectedDelegation
          (Tlv.prependNonNegativeInteger interest.selectedDelegationIndex))).toList)

theorem elements_eq (interest : Interest) : interest.elements random =
    interest.elementsBefore ++ interest.writtenNonce random :: interest.elementsBehind := by
  simp only [elements, Block.fieldElements, fields, elementsBefore, elementsBehind,
    List.flatMap_cons, List.flatMap_nil, Option.toList_some, List.append_nil, List.cons_append,
    List.nil_append]

theorem type_ne_of_mem_elementsBefore {interest : Interest} :
    ∀ element ∈ interest.elementsBefore, element.type ≠ Tlv.nonce := by
  intro element hmem
  rcases List.mem_cons.mp hmem with rfl | hselectors
  · exact of_decide_eq_true rfl
  · obtain ⟨-, rfl⟩ := Block.mem_presentIf.mp (Option.mem_toList.mp hselectors)
    exact of_decide_eq_true rfl

/-- The wire with another nonce in its place. -/
def withNonce (interest : Interest) (nonce : Block) : Block :=
  Block.ofElements Tlv.interest (interest.elementsBefore ++ nonce :: interest.elementsBehind)

theorem toBlock_eq (interest : Interest) :
    interest.toBlock random = interest.withNonce (interest.writtenNonce random) := by
  rw [toBlock, elements_eq, withNonce]

theorem withNonce_wire_inj {interest : Interest} {nonce nonce' : Block}
    (hsame : (interest.withNonce nonce).wire = (interest.withNonce nonce').wire) :
    nonce.wire = nonce'.wire := by
  have hvalue := Block.prependByteArrayBlock_injective hsame
  simp only [List.flatMap_append, List.flatMap_cons] at hvalue
  exact List.append_cancel_right (List.append_cancel_left hvalue)

section SetNonce

variable {interest next : Interest} (hwritable : interest.IsWritable)
  (hshort : (interest.toBlock random).wire.length < 2 ^ 64)
  (hdecode : wireDecode {} (interest.toBlock random) = .ok next)
  (hlength : (interest.writtenNonce random).value.length = 4)
include hwritable hshort hdecode hlength

omit hdecode in
theorem length_wire_withNonce_le (word : UInt32) :
    (interest.withNonce (nonceBlock word)).wire.length ≤ (interest.toBlock random).wire.length := by
  obtain ⟨htype, hnonceWire, -⟩ : (interest.writtenNonce random).type = Tlv.nonce ∧
    (interest.writtenNonce random).IsWire ∧ _ := writtenNonce_spec hwritable
  have hwire : (interest.toBlock random).IsWire := Block.ofElements_isWire (by decide) hshort
  have hnonce : (nonceBlock word).wire.length ≤ (interest.writtenNonce random).wire.length := by
    rw [nonceBlock, ← htype]
    exact hnonceWire.length_wire_ofValue_le (by simp [hlength])
  apply hwire.length_wire_ofValue_le
  rw [toBlock_eq]
  simp only [withNonce, Block.ofElements, Block.ofValue, List.flatMap_append, List.flatMap_cons,
    List.length_append]
  omega

/-- Without a stored wire, a new nonce block is written. -/
theorem encoding_setNonce (hnone : interest.wire = none) (word : UInt32) :
    encoding ((interest.setNonce word).wireEncode random) =
      .ok (interest.withNonce (nonceBlock word)).wire := by
  obtain ⟨htype, -, -⟩ : (interest.writtenNonce random).type = Tlv.nonce ∧ _ ∧ _ :=
    writtenNonce_spec hwritable
  have hset : interest.setNonce word =
      { interest with nonce := some (nonceBlock word), wire := none } := by simp [setNonce, hnone]
  have hchanged : (interest.setNonce word).IsWritable := by
    rw [hset]
    refine { hwritable with nonce := ?_ }
    intro nonce hmem
    obtain rfl := Option.mem_some_iff.mp hmem
    exact ⟨rfl, Block.ofValue_isWire (by decide) (by simp), by simp [nonceBlock, Block.ofValue]⟩
  have htoBlock : (interest.setNonce word).toBlock random =
      interest.withNonce (nonceBlock word) := by
    rw [toBlock_eq, hset]
    rfl
  have hsize : ((interest.setNonce word).toBlock random).wire.length < 2 ^ 64 := by
    rw [htoBlock]
    exact (length_wire_withNonce_le hwritable hshort hlength word).trans_lt hshort
  have hparse := parse_toBlock hwritable hshort
  have hparse' := parse_toBlock hchanged hsize
  rw [elements_eq] at hparse hparse'
  have hbehind : (interest.setNonce word).elementsBehind = interest.elementsBehind := by
    rw [hset]
    rfl
  have hbefore : (interest.setNonce word).elementsBefore = interest.elementsBefore := by
    rw [hset]
    rfl
  have hnonce : (interest.setNonce word).writtenNonce random = nonceBlock word := by
    rw [hset]
    rfl
  rw [hbehind, hbefore, hnonce] at hparse'
  have hread := wireDecode_replace_nonce hparse hparse' rfl htype rfl
    type_ne_of_mem_elementsBefore hdecode
  have hencode : (codes random).encode (interest.setNonce word) =
      .ok ((interest.setNonce word).toBlock random).wire := by
    apply bind_eq_ok_iff.mpr
    exact ⟨_, wireEncodeInto_eq hchanged, bufferBlock_ofElements (by decide) hsize⟩
  have hstored : (codes random).stored (interest.setNonce word) = none := by
    rw [hset]
    rfl
  have hblock : Block.fromWire ((interest.setNonce word).toBlock random).wire =
      .ok ((interest.setNonce word).toBlock random) := Block.fromWire_ofElements (by decide) hsize
  have hstore : ∃ kept, (codes random).store (interest.setNonce word)
      ((interest.setNonce word).toBlock random).wire = .ok kept :=
    ⟨_, bind_eq_ok_iff.mpr ⟨_, hblock, hread⟩⟩
  obtain ⟨kept, hkept⟩ := hstore
  rw [encoding, wireEncode, CodeStore.map_fst_recall_of_none hstored, hencode, ← htoBlock]
  simp only [bind, Except.bind, hkept, Except.map]

/-- In the stored wire, the nonce is overwritten. -/
theorem encoding_setNonce_next (word : UInt32) :
    encoding ((next.setNonce word).wireEncode random) = .ok (interest.withNonce
      (overwriteValue (interest.writtenNonce random) (wordBytes word))).wire := by
  obtain ⟨htype, hnonceWire, -⟩ : (interest.writtenNonce random).type = Tlv.nonce ∧
    (interest.writtenNonce random).IsWire ∧ _ := writtenNonce_spec hwritable
  have hparse := parse_toBlock hwritable hshort
  obtain ⟨elements, nonce, hread, hget, hnonce, hstored⟩ := exists_elements_of_wireDecode hdecode
  obtain rfl := Except.ok.inj (hparse.symm.trans hread)
  rw [elements_eq, get_append_nonce htype type_ne_of_mem_elementsBefore] at hget
  obtain rfl := Except.ok.inj hget
  rw [elements_eq] at hparse hstored
  obtain ⟨-, -, hset⟩ := setNonce_eq_of_length (Block.ofElements_isWire (by decide) hshort) hparse
    htype type_ne_of_mem_elementsBefore hstored hnonce hlength word
  have hvalueLength : ((interest.elementsBefore ++
      overwriteValue (interest.writtenNonce random) (wordBytes word) ::
        interest.elementsBehind).flatMap Block.wire).length =
      ((interest.elements random).flatMap Block.wire).length := by
    rw [elements_eq]
    simp only [List.flatMap_append, List.flatMap_cons, List.length_append,
      length_wire_overwriteValue hnonceWire ((length_wordBytes word).trans hlength.symm)]
  have hbytes : overwriteValue (interest.toBlock random) _ = Block.ofValue Tlv.interest _ :=
    overwriteValue_ofValue hvalueLength
  rw [hset]
  simp only [encoding, wireEncode, CodeStore.recallCode, codes, Option.map_some, Except.map]
  exact congrArg (fun block : Block ↦ Except.ok block.wire) hbytes

end SetNonce

section Unchanged

variable {interest next : Interest} (hnone : interest.wire = none)
  (hwritable : interest.IsWritable)
  (hshort : (interest.toBlock random).wire.length < 2 ^ 64)
  (hdecode : wireDecode {} (interest.toBlock random) = .ok next)
include hwritable hshort hdecode

theorem nonce_of_wireDecode (hdata : ∀ link ∈ interest.link, link.type = Tlv.data) :
    next.nonce = some (interest.writtenNonce random) := by
  obtain ⟨selectors, index, rfl, -⟩ := exists_read_of_wireDecode hwritable hshort hdecode hdata
  rfl

theorem SameFields.writesLike (hmembers : interest.selectors.IsRepresentable)
    (hsame : interest.SameFields next) : interest.WritesLike random next := by
  have hdata := isData_of_wireDecode hdecode
  rw [hsame.link] at hdata
  have hnonce := nonce_of_wireDecode hwritable hshort hdecode hdata
  obtain ⟨selectors, index, rfl, -, hselectors, -⟩ :=
    exists_read_of_wireDecode hwritable hshort hdecode hdata
  exact {
    name := rfl
    selectors := hselectors hmembers hsame.selectors
    nonce := rfl
    interestLifetime := hsame.interestLifetime.symm
    link := rfl
    selectedDelegationIndex := hsame.selectedDelegationIndex.symm }

include hnone

/-- Setting the nonce writes the same just if a nonce of four bytes has the shortest header. -/
theorem encodingAfter_setNonce_iff (hlike : interest.WritesLike random next)
    (hnonce : next.nonce = some (interest.writtenNonce random)) :
    (∀ word, next.encodingAfter random (.setNonce word) =
      interest.encodingAfter random (.setNonce word)) ↔
        ((interest.writtenNonce random).value.length = 4 → interest.writtenNonce random =
          Block.ofValue Tlv.nonce (interest.writtenNonce random).value) := by
  obtain ⟨htype, hnonceWire, -⟩ : (interest.writtenNonce random).type = Tlv.nonce ∧
    (interest.writtenNonce random).IsWire ∧ _ := writtenNonce_spec hwritable
  by_cases hlength : (interest.writtenNonce random).value.length = 4
  · have hoverwritten : ∀ word, overwriteValue (interest.writtenNonce random) (wordBytes word) =
        nonceBlock word ↔ interest.writtenNonce random =
          Block.ofValue Tlv.nonce (interest.writtenNonce random).value := by
      intro word
      rw [nonceBlock, ← htype]
      exact overwriteValue_eq_ofValue_iff hnonceWire (by simp [hlength])
    have hsame : ∀ word, next.encodingAfter random (.setNonce word) =
        interest.encodingAfter random (.setNonce word) ↔
          (interest.withNonce (overwriteValue (interest.writtenNonce random)
            (wordBytes word))).wire = (interest.withNonce (nonceBlock word)).wire := by
      intro word
      simp only [encodingAfter, perform, Option.map_some, Option.some.injEq,
        encoding_setNonce hwritable hshort hdecode hlength hnone,
        encoding_setNonce_next hwritable hshort hdecode hlength, Except.ok.injEq]
    constructor
    · intro hall _
      have hwire := withNonce_wire_inj ((hsame 0).mp (hall 0))
      refine (hoverwritten 0).mp ?_
      have hblock : overwriteValue (interest.writtenNonce random) (wordBytes 0) =
          ⟨Tlv.nonce, wordBytes 0, (nonceBlock 0).wire⟩ := by rw [← hwire, ← htype]; rfl
      exact hblock
    · intro hshortest word
      rw [hsame, (hoverwritten word).mpr (hshortest hlength)]
  · refine iff_of_true (fun word ↦ ?_) fun habsurd ↦ absurd habsurd hlength
    have hset : interest.setNonce word =
        { interest with nonce := some (nonceBlock word), wire := none } := by simp [setNonce, hnone]
    have hsetNext : next.setNonce word =
        { next with nonce := some (nonceBlock word), wire := none } := by
      cases hstored : next.wire <;> simp [setNonce, hnonce, hlength, hstored]
    have hchanged : (interest.setNonce word).WritesLike random (next.setNonce word) := by
      rw [hset, hsetNext]
      exact { hlike with nonce := rfl }
    have hwire : (interest.setNonce word).wire = none := by rw [hset]
    have hnextWire : (next.setNonce word).wire = none := by rw [hsetNext]
    exact congrArg some (hchanged.encoding_eq hwire hnextWire).symm

end Unchanged

/-- The getters return the same, and whatever is set then, the same is written as if the Interest had
not been encoded before. -/
structure IsUnchanged (random : UInt32) (interest next : Interest) : Prop where
  fields : interest.SameFields next
  setters : ∀ call : Call, call.IsSetter →
    next.encodingAfter random call = interest.encodingAfter random call

theorem IsUnchanged.refl (interest : Interest) : interest.IsUnchanged random interest where
  fields := {
    name := rfl
    selectors := ⟨rfl, rfl, rfl, rfl, rfl, rfl⟩
    nonce := fun _ hnonce ↦ hnonce
    interestLifetime := rfl
    link := rfl
    selectedDelegationIndex := rfl }
  setters := fun _ _ ↦ rfl

theorem settled_nonce_iff {interest : Interest} :
    ((interest.writtenNonce random).value.length = 4 → interest.writtenNonce random =
      Block.ofValue Tlv.nonce (interest.writtenNonce random).value) ↔
        ∀ nonce ∈ interest.nonce,
          nonce.value.length = 4 → nonce = Block.ofValue Tlv.nonce nonce.value := by
  unfold writtenNonce
  cases interest.nonce with
  | none => exact iff_of_true (fun _ ↦ rfl) nofun
  | some nonce => simp

/-- When encoding leaves an Interest as it was. -/
theorem isUnchanged_iff {interest next : Interest} (hrepresentable : interest.IsRepresentable)
    (hencode : interest.wireEncode random = .ok (bytes, next)) (hsize : bytes.length < 2 ^ 64) :
    interest.IsUnchanged random next ↔ (interest.wire = none → interest.IsSettled) := by
  cases hstored : interest.wire with
  | some wire =>
    rw [wireEncode_of_stored hstored] at hencode
    obtain rfl : interest = next := congrArg Prod.snd (Except.ok.inj hencode)
    exact iff_of_true (.refl interest) nofun
  | none =>
    obtain ⟨hwritable, -, hshort, hdecode⟩ := wireEncode_cases hrepresentable hstored hencode hsize
    have hiff := sameFields_iff hwritable hshort hdecode
    constructor
    · rintro ⟨hsame, hsetters⟩ _
      obtain ⟨hselectors, hlifetime, hdata, hdelegation⟩ := hiff.mp hsame
      have hlike := hsame.writesLike hwritable hshort hdecode hrepresentable.selectors
      have hnonce := nonce_of_wireDecode hwritable hshort hdecode hdata
      exact {
        selectors := hselectors
        nonce := settled_nonce_iff.mp ((encodingAfter_setNonce_iff hstored hwritable hshort hdecode
          hlike hnonce).mp fun word ↦ hsetters (.setNonce word) trivial)
        interestLifetime := hlifetime
        link := hdata
        delegation := hdelegation }
    · intro hsettled
      obtain ⟨hselectors, hnonces, hlifetime, hdata, hdelegation⟩ := hsettled rfl
      have hsame := hiff.mpr ⟨hselectors, hlifetime, hdata, hdelegation⟩
      have hlike := hsame.writesLike hwritable hshort hdecode hrepresentable.selectors
      have hnonce := nonce_of_wireDecode hwritable hshort hdecode hdata
      have hsetNonce := (encodingAfter_setNonce_iff hstored hwritable hshort hdecode hlike
        hnonce).mpr (settled_nonce_iff.mpr hnonces)
      refine ⟨hsame, fun call hsetter ↦ ?_⟩
      by_cases hset : ∃ word, call = .setNonce word
      · obtain ⟨word, rfl⟩ := hset
        exact hsetNonce word
      · exact (hlike.encodingAfter_eq hsetter fun word hword ↦ hset ⟨word, hword⟩).symm

end Interest

/-- `wireEncode()` changes nothing that shows just if there is a wire already, or what is written comes
back as it was. -/
theorem isUnchanged_wireEncode_iff (data : Data) (interest : Interest) (random : UInt32) :
    (∀ (next : Data) (bytes : Bytes), data.IsRepresentable →
      data.wireEncode = .ok (bytes, next) → bytes.length < 2 ^ 64 →
        (data.IsUnchanged next ↔ (data.wire = none → data.IsSettled))) ∧
    ∀ (next : Interest) (bytes : Bytes), interest.IsRepresentable →
      interest.wireEncode random = .ok (bytes, next) → bytes.length < 2 ^ 64 →
        (interest.IsUnchanged random next ↔ (interest.wire = none → interest.IsSettled)) :=
  ⟨fun _ _ hrepresentable hencode hsize ↦ Data.isUnchanged_iff hrepresentable hencode hsize,
    fun _ _ hrepresentable hencode hsize ↦
      Interest.isUnchanged_iff hrepresentable hencode hsize⟩

/-- A packet with a freshness period and an Interest with a lifetime stay as they are. -/
theorem isUnchanged_wireEncode_settled :
    (∃ (data next : Data) (bytes : Bytes), data.wire = none ∧
      data.wireEncode = .ok (bytes, next) ∧ data.IsUnchanged next) ∧
    ∃ (interest next : Interest) (bytes : Bytes), interest.wire = none ∧
      interest.wireEncode 7 = .ok (bytes, next) ∧ interest.IsUnchanged 7 next := by
  refine ⟨?_, ?_⟩
  · let data := (Data.signedWith { type := 0 }).setFreshnessPeriod 1000
    have hrepresentable : data.IsRepresentable := {
      name := by decide
      metaInfo := ⟨by decide, by decide, nofun, nofun⟩
      content := by
        intro content hcontent
        obtain rfl := Except.ok.inj hcontent
        exact ⟨rfl, by decide, by decide⟩
      info := {
        type_lower := by decide
        type_upper := by decide
        keyLocator := { name := nofun, keyDigest := nofun, short := nofun }
        otherTlvs := nofun
        wire := nofun }
      info_short := by
        intro bytes answered hencode
        obtain ⟨rfl, -⟩ := Prod.mk.inj (Except.ok.inj hencode)
        decide
      value := by
        intro value hvalue
        obtain rfl := Except.ok.inj hvalue
        exact ⟨by decide, by decide⟩ }
    have hsettled : data.IsSettled :=
      ⟨⟨by decide, nofun, Or.inl (by decide), Or.inl rfl⟩, fun _ ↦ nofun, fun _ ↦ rfl, rfl⟩
    obtain ⟨bytes, next, hencode, hsize⟩ : ∃ bytes next,
        ((Data.signedWith { type := 0 }).setFreshnessPeriod 1000).wireEncode = .ok (bytes, next) ∧
          bytes.length < 2 ^ 64 := ⟨_, _, rfl, by decide⟩
    exact ⟨data, next, bytes, rfl, hencode, ((isUnchanged_wireEncode_iff data {} 0).1 next
      bytes hrepresentable hencode hsize).mpr fun _ ↦ hsettled⟩
  · let interest := Interest.setInterestLifetime { name := [Component.generic [65]] } 1000
    have hrepresentable : interest.IsRepresentable := {
      name := by decide
      selectors := {
        minSuffixComponents := by decide
        maxSuffixComponents := by decide
        keyLocator := { name := nofun, keyDigest := nofun, short := nofun }
        exclude := by decide
        childSelector := by decide }
      nonce := nofun
      interestLifetime := by decide
      link := nofun
      index := by decide }
    have hsettled : interest.IsSettled := {
      selectors := ⟨by decide, by decide, nofun, by decide⟩
      nonce := nofun
      interestLifetime := by decide
      link := nofun
      delegation := nofun }
    obtain ⟨bytes, next, hencode, hsize⟩ : ∃ bytes next,
        (Interest.setInterestLifetime { name := [Component.generic [65]] } 1000).wireEncode 7 =
          .ok (bytes, next) ∧ bytes.length < 2 ^ 64 := ⟨_, _, rfl, by decide⟩
    exact ⟨interest, next, bytes, rfl, hencode, ((isUnchanged_wireEncode_iff {} interest 7).2
      next bytes hrepresentable hencode hsize).mpr fun _ ↦ hsettled⟩

/-- The block of an application is there twice after the packet was encoded, and is written twice
once the name is set. The default lifetime shows in an Interest that had none. -/
theorem wireEncode_changes_fields :
    (∃ (metaInfo : MetaInfo) (data next : Data) (bytes : Bytes),
      MetaInfo.addAppMetaInfo {} ⟨128, .empty⟩ = .ok metaInfo ∧
      data = (Data.signedWith { type := 0 }).setMetaInfo metaInfo ∧
      data.wireEncode = .ok (bytes, next) ∧
      data.metaInfo.appMetaInfo.length = 1 ∧ next.metaInfo.appMetaInfo.length = 2 ∧
      encoding ((data.setName []).wireEncode) ≠ encoding ((next.setName []).wireEncode)) ∧
    ∃ (interest next : Interest) (bytes : Bytes), interest.wireEncode 7 = .ok (bytes, next) ∧
      interest.interestLifetime = millisecondsMin ∧
      next.interestLifetime = defaultInterestLifetime :=
  ⟨⟨_, _, _, _, rfl, rfl, rfl, rfl, rfl, by decide⟩, ⟨{}, _, _, rfl, rfl, rfl⟩⟩

end NdnCxx.Packet
