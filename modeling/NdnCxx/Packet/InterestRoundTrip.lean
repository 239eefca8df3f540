import NdnCxx.Packet.InterestState

/-!
# Decoding an encoded Interest

Every element of an Interest survives encoding and decoding, whichever of the optional ones are
present. An absent selector is a negative integer, and an absent lifetime stands for the default, so
both are compared by what they mean. A key locator of a kind that the encoder does not support makes
it throw.
-/

namespace NdnCxx.Packet

variable {keyLocator : KeyLocator}

namespace Selectors

/-- The decoded selectors mean the same as those that were encoded. -/
structure Carries (written decoded : Selectors) : Prop where
  minSuffixComponents : max decoded.minSuffixComponents (-1) = max written.minSuffixComponents (-1)
  maxSuffixComponents : max decoded.maxSuffixComponents (-1) = max written.maxSuffixComponents (-1)
  keyLocator : decoded.publisherPublicKeyLocator.shown = written.publisherPublicKeyLocator.shown
  exclude : decoded.exclude.filter = written.exclude.filter
  childSelector : max decoded.childSelector (-1) = max written.childSelector (-1)
  mustBeFresh : decoded.mustBeFresh = written.mustBeFresh

theorem shown_of_isEmpty (hempty : keyLocator.isEmpty = true) :
    ({} : KeyLocator).shown = keyLocator.shown := by
  have htype : keyLocator.type = .none := by simpa [KeyLocator.isEmpty] using hempty
  simp [KeyLocator.shown, KeyLocator.getName, KeyLocator.getKeyDigest, htype, Except.map]

theorem filter_of_isEmpty {exclude : Exclude} (hempty : exclude.isEmpty = true) :
    NdnCxx.Exclude.empty = exclude.filter := by
  obtain ⟨⟨boundaries⟩, wire⟩ := exclude
  have hentries : boundaries.entries = [] := by simpa [Exclude.isEmpty] using hempty
  exact congrArg NdnCxx.Exclude.mk (OrderedMap.eq_of_entries_eq hentries.symm)

theorem carries_reread (written : Selectors) : written.Carries written.reread where
  minSuffixComponents := by simp [reread]
  maxSuffixComponents := by simp [reread]
  keyLocator := by
    unfold reread
    cases hempty : written.publisherPublicKeyLocator.isEmpty with
    | true => simpa using shown_of_isEmpty hempty
    | false => simpa using KeyLocator.shown_overwrite {} written.publisherPublicKeyLocator
  exclude := by
    unfold reread
    cases hempty : written.exclude.isEmpty with
    | true => simpa using filter_of_isEmpty hempty
    | false => simp
  childSelector := by simp [reread]
  mustBeFresh := rfl

theorem carries_of_isEmpty {written : Selectors} (hempty : written.isEmpty = true) :
    written.Carries {} := by
  simp only [isEmpty, Bool.and_eq_true, decide_eq_true_eq, Bool.not_eq_true'] at hempty
  obtain ⟨⟨⟨⟨⟨hmin, hmax⟩, hkeyLocator⟩, hexclude⟩, hchild⟩, hfresh⟩ := hempty
  exact {
    minSuffixComponents := by simp only; omega
    maxSuffixComponents := by simp only; omega
    keyLocator := shown_of_isEmpty hkeyLocator
    exclude := filter_of_isEmpty hexclude
    childSelector := by simp only; omega
    mustBeFresh := hfresh.symm }

end Selectors

namespace Interest

/-- The lifetime that an Interest has when the absent one is the default. -/
def effectiveLifetime (interest : Interest) : ℤ :=
  if interest.interestLifetime < 0 then defaultInterestLifetime else interest.interestLifetime

/-- An Interest with valid components, integers in the ranges of their types, a key locator of a
supported kind, an exclude filter over generic components, a nonce of a permitted length, and a
selected delegation that its link has. -/
structure IsRegular (interest : Interest) : Prop where
  name : ∀ component ∈ interest.name, component.IsValid
  minSuffixComponents : interest.selectors.minSuffixComponents < 2 ^ 31
  maxSuffixComponents : interest.selectors.maxSuffixComponents < 2 ^ 31
  childSelector : interest.selectors.childSelector < 2 ^ 31
  keyLocator : interest.selectors.publisherPublicKeyLocator.IsEncodable
  exclude : ∀ entry ∈ interest.selectors.exclude.filter.boundaries.entries,
    entry.1.isGeneric = true
  nonce : ∀ nonce ∈ interest.nonce,
    nonce.type = Tlv.nonce ∧ nonce.IsWire ∧ nonce.value.length ∈ [1, 2, 4, 8]
  interestLifetime : interest.interestLifetime < 2 ^ 63
  link : ∀ link ∈ interest.link, link.type = Tlv.data ∧ link.IsWire ∧ link.wire.length < 2 ^ 32
  index : interest.selectedDelegationIndex < 2 ^ 64
  delegation : interest.hasSelectedDelegation = true →
    ∃ link ∈ interest.link, ∃ count, Link.countDelegationsFromWire link = .ok count ∧
      interest.selectedDelegationIndex < count

/-- The decoded Interest has everything that was encoded. -/
structure Carries (written decoded : Interest) (nonce : Block) : Prop where
  name : decoded.name = written.name
  selectors : written.selectors.Carries decoded.selectors
  nonce : decoded.nonce = some nonce
  interestLifetime : decoded.effectiveLifetime = written.effectiveLifetime
  link : decoded.link = written.link
  selectedDelegationIndex : decoded.selectedDelegationIndex = written.selectedDelegationIndex

/-- The empty component is the smallest of the generic ones. -/
theorem empty_le_of_isGeneric {component : Component} (hgeneric : component.isGeneric = true) :
    Component.empty ≤ component := by
  have htype : component.type = Tlv.nameComponent := by simpa [Component.isGeneric] using hgeneric
  apply not_lt.mp
  intro hlt
  rw [Component.lt_iff_compare, Component.compare_eq_lt_iff] at hlt
  rcases hlt with hlt | ⟨-, hlt | ⟨hlength, hlt⟩⟩
  · simp [Component.empty, htype] at hlt
  · simp [Component.empty] at hlt
  · have hvalue : component.value = [] := List.length_eq_zero_iff.mp hlength
    simp [Component.empty, hvalue, Bytes.memcmp_self] at hlt

variable {interest : Interest}

theorem IsRegular.isEncodable (hregular : interest.IsRegular) :
    interest.IsEncodable where
  name := fun component hmem ↦ (hregular.name component hmem).type_lt
  selectors := {
    minSuffixComponents := hregular.minSuffixComponents
    maxSuffixComponents := hregular.maxSuffixComponents
    childSelector := hregular.childSelector
    keyLocator := hregular.keyLocator
    exclude := fun entry hmem ↦ Or.inl (hregular.exclude entry hmem) }
  exclude := by
    intro entry hmem hempty _ other hother
    rw [Exclude.eq_empty_of_isEmpty (Or.inl (hregular.exclude entry hmem)) hempty]
    exact empty_le_of_isGeneric (hregular.exclude other hother)
  nonce := hregular.nonce
  interestLifetime := hregular.interestLifetime
  link := hregular.link
  index := hregular.index
  delegation := hregular.delegation

theorem carries_refl {nonce : Block} (hnonce : interest.nonce = some nonce) :
    interest.Carries interest nonce where
  name := rfl
  selectors := ⟨rfl, rfl, rfl, rfl, rfl, rfl⟩
  nonce := hnonce
  interestLifetime := rfl
  link := rfl
  selectedDelegationIndex := rfl

theorem carries_of_isReadFrom {wire nonce : Block} (hread : interest.IsReadFrom wire)
    (hnonce : interest.nonce = some nonce) (prior : Interest) :
    ∃ decoded, prior.wireDecode wire = .ok decoded ∧ interest.Carries decoded nonce := by
  obtain ⟨decoded, hdecode, rfl | rfl⟩ := hread
  · exact ⟨interest, hdecode, carries_refl hnonce⟩
  · have hcarries := carries_refl hnonce
    exact ⟨decoded, hdecode, hcarries.name, hcarries.selectors, hcarries.nonce,
      hcarries.interestLifetime, hcarries.link, hcarries.selectedDelegationIndex⟩

variable {random : UInt32}

theorem carries_reread {written : Interest} (hencodable : written.IsEncodable) :
    written.Carries (written.reread random) (written.writtenNonce random) where
  name := rfl
  selectors := by
    unfold reread
    cases hempty : written.selectors.isEmpty with
    | true => simpa using Selectors.carries_of_isEmpty hempty
    | false => simpa using written.selectors.carries_reread
  nonce := rfl
  interestLifetime := by
    have hdefault : ¬ defaultInterestLifetime < 0 := by decide
    simp only [effectiveLifetime, reread, hasLifetime, decide_eq_true_eq]
    split_ifs <;> omega
  link := rfl
  selectedDelegationIndex := by
    have hinvalid : written.hasSelectedDelegation = false →
        written.selectedDelegationIndex = invalidSelectedDelegationIndex := by
      simp [hasSelectedDelegation]
    cases hselected : written.hasSelectedDelegation with
    | false => simp [reread, hselected, hinvalid hselected]
    | true =>
      obtain ⟨link, hlink, -⟩ := hencodable.delegation hselected
      simp [reread, hselected, Option.mem_def.mp hlink]

/-- Without a stored wire, the Interest is written and read back. -/
theorem wireEncode_of_isEncodable (hnone : interest.wire = none) (hencodable : interest.IsEncodable)
    (hsize : (interest.toBlock random).wire.length < 2 ^ 64) :
    interest.wireEncode random = .ok ((interest.toBlock random).wire, interest.reread random) := by
  have hstored : (codes random).stored interest = none := by simp [codes, hnone]
  simp only [wireEncode, CodeStore.recallCode, hstored, encode_eq hencodable hsize,
    store_eq hencodable hsize]

theorem wireEncode_of_stored {shared : SharedWire} (hstored : interest.wire = some shared) :
    interest.wireEncode random = .ok (shared.bytes, interest) := by
  simp [wireEncode, CodeStore.recallCode, codes, hstored]

/-- Decoding what `wireEncode` returns gives an Interest with the same elements, in every state that
mutators, decodings and encodings lead to which keep the stored wire in step. The nonce is the one that
the Interest has then. -/
theorem wireDecode_wireEncode {start finish : Interest} {events : List (CodeStore.Event Call)}
    (hstart : start.wire = none)
    (hguarded : Run.Guarded ((codes random).step perform) KeepsInStep start events)
    (hrun : Run.run ((codes random).step perform) start events = some finish)
    (hregular : finish.IsRegular) (hsize : (finish.toBlock random).wire.length < 2 ^ 64) :
    ∃ wire next block, finish.wireEncode random = .ok (wire, next) ∧
      next.nonce = some (finish.writtenNonce random) ∧ Block.fromWire wire = .ok block ∧
      ∀ prior : Interest, ∃ decoded, prior.wireDecode block = .ok decoded ∧
        finish.Carries decoded (finish.writtenNonce random) := by
  cases hstored : finish.wire with
  | some shared =>
    obtain ⟨block, hblock, hbytes, hread⟩ := isSynced_of_run hstart hguarded hrun shared hstored
    obtain ⟨nonce, hnonce⟩ := hread.exists_nonce
    have hwritten : finish.writtenNonce random = nonce := by simp [writtenNonce, hnonce]
    rw [hwritten]
    exact ⟨shared.bytes, finish, block, wireEncode_of_stored hstored, hnonce,
      Block.fromWire_eq_ok_iff.mpr ⟨hbytes, hblock⟩, carries_of_isReadFrom hread hnonce⟩
  | none =>
    have hencodable := hregular.isEncodable
    exact ⟨_, _, finish.toBlock random, wireEncode_of_isEncodable hstored hencodable hsize, rfl,
      Block.fromWire_ofElements (by decide) hsize,
      fun prior ↦ ⟨_, wireDecode_toBlock hencodable prior hsize, carries_reread hencodable⟩⟩

/-- A packet that was assembled of an empty name and the nonce 1. -/
def assembledWire : Block :=
  ⟨Tlv.interest, [7, 0, 10, 4, 1, 0, 0, 0], [5, 8, 7, 0, 10, 4, 1, 0, 0, 0]⟩

def assembledElements : List Block :=
  [⟨Tlv.name, [], [7, 0]⟩, ⟨Tlv.nonce, [1, 0, 0, 0], [10, 4, 1, 0, 0, 0]⟩]

theorem wireDecode_wireEncode_with_link :
    ∃ start finish : Interest, ∃ events, start.wire = none ∧
      Run.run ((codes 7).step perform) start events = some finish ∧ finish.IsRegular ∧
      finish.hasSelectedDelegation = true ∧
      ∃ wire next block, finish.wireEncode 7 = .ok (wire, next) ∧
        next.nonce = some (finish.writtenNonce 7) ∧ Block.fromWire wire = .ok block ∧
        ∀ prior : Interest, ∃ decoded, prior.wireDecode block = .ok decoded ∧
          finish.Carries decoded (finish.writtenNonce 7) := by
  let link := Block.ofValue Tlv.data
    [7, 0, 20, 3, 24, 1, 1, 21, 10, 31, 8, 30, 1, 1, 7, 3, 8, 1, 65, 22, 3, 27, 1, 0]
  have hlink : link.IsWire := by decide
  let finish : Interest := {
    name := [Component.generic [65]]
    selectors := { minSuffixComponents := 1, mustBeFresh := true }
    nonce := some ⟨Tlv.nonce, [2, 0, 0, 0], [10, 4, 2, 0, 0, 0]⟩
    interestLifetime := 1000
    link := some link
    selectedDelegationIndex := 0 }
  let events : List (CodeStore.Event Call) := [
    .change (.wireDecodeAssembled assembledWire assembledElements (by decide)),
    .change (.setName [Component.generic [65]]), .change (.setNonce 2),
    .change (.setMinSuffixComponents 1), .change (.setMustBeFresh true),
    .change (.setInterestLifetime 1000), .change (.setLink link hlink),
    .change (.setSelectedDelegationIndex 0)]
  have hrun : Run.run ((codes 7).step perform) {} events = some finish := rfl
  have hguarded : Run.Guarded ((codes 7).step perform) KeepsInStep {} events := by
    refine ⟨rfl, fun _ _ ↦ ⟨trivial, fun named hnamed ↦ ⟨?_, fun _ _ ↦ ⟨trivial, fun _ _ ↦ ⟨trivial,
      fun _ _ ↦ ⟨trivial, fun _ _ ↦ ⟨trivial, fun _ _ ↦ ⟨trivial, fun _ _ ↦ trivial⟩⟩⟩⟩⟩⟩⟩⟩
    -- the name discarded the wire
    rintro ⟨shared, hshared, -⟩
    obtain rfl := Option.some.inj hnamed
    cases hshared
  have hregular : finish.IsRegular := {
    name := by decide
    minSuffixComponents := by decide
    maxSuffixComponents := by decide
    childSelector := by decide
    keyLocator := trivial
    exclude := by decide
    nonce := by
      intro nonce hnonce
      obtain rfl := Option.mem_some_iff.mp hnonce
      exact ⟨rfl, by decide, by decide⟩
    interestLifetime := by decide
    link := by simp only [finish, Option.mem_some_iff, forall_eq']; exact ⟨rfl, hlink, by decide⟩
    index := by decide
    delegation := fun _ ↦ ⟨link, rfl, 1, rfl, by decide⟩ }
  exact ⟨{}, finish, events, rfl, hrun, hregular, by decide,
    wireDecode_wireEncode rfl hguarded hrun hregular (by decide)⟩

/-! ## Key locators that are lost -/

/-- A digest whose wire has exactly `2 ^ 32` bytes, which `Block::size` reports as zero. -/
def wrappingKeyDigest : Block := Block.ofValue Tlv.keyDigest (List.replicate (2 ^ 32 - 6) 0)

theorem prependBlock_wrappingKeyDigest : wrappingKeyDigest.toElement.prependBlock = [] := by
  have hlength : wrappingKeyDigest.wire.length = 2 ^ 32 := by
    rw [wrappingKeyDigest, Block.length_wire_ofValue, List.length_replicate]
    decide
  change Block.prependWire wrappingKeyDigest.wire = []
  rw [Block.prependWire, hlength, Nat.mod_self, List.take_zero]

/-- A key locator that is written without its digest is decoded as an empty one. -/
theorem wireEncode_of_keyLocator_written_empty (hwritten : keyLocator.wireEncodeInto = .ok [28, 0])
    (hnonempty : keyLocator.isEmpty = false) :
    ∃ next, (setPublisherPublicKeyLocator {} keyLocator).wireEncode 0 =
        .ok ([5, 12, 7, 0, 9, 2, 28, 0, 10, 4, 0, 0, 0, 0], next) ∧
      wireDecode {} ⟨5, [7, 0, 9, 2, 28, 0, 10, 4, 0, 0, 0, 0],
        [5, 12, 7, 0, 9, 2, 28, 0, 10, 4, 0, 0, 0, 0]⟩ = .ok next ∧
      next.selectors.publisherPublicKeyLocator.type = .none := by
  have hselectors : (setPublisherPublicKeyLocator {} keyLocator).selectors.wireEncodeInto =
      .ok [9, 2, 28, 0] := by
    simp only [setPublisherPublicKeyLocator, setSelectors, Selectors.setPublisherPublicKeyLocator,
      Selectors.wireEncodeInto, Block.writtenIf, hwritten, hnonempty]
    rfl
  have hpresent : (setPublisherPublicKeyLocator {} keyLocator).selectors.isEmpty = false := by
    simp [setPublisherPublicKeyLocator, setSelectors, Selectors.setPublisherPublicKeyLocator,
      Selectors.isEmpty, hnonempty]
  have hbytes : wireEncodeInto 0 (setPublisherPublicKeyLocator {} keyLocator) =
      .ok [5, 12, 7, 0, 9, 2, 28, 0, 10, 4, 0, 0, 0, 0] := by
    simp only [wireEncodeInto, hpresent, hselectors, Block.writtenIf]
    rfl
  have hencode : (codes 0).encode (setPublisherPublicKeyLocator {} keyLocator) =
      .ok [5, 12, 7, 0, 9, 2, 28, 0, 10, 4, 0, 0, 0, 0] := by
    change wireEncodeInto 0 _ >>= bufferBlock = _
    rw [hbytes]
    rfl
  obtain ⟨next, hstore, htype⟩ : ∃ next : Interest,
      wireDecode {} ⟨5, [7, 0, 9, 2, 28, 0, 10, 4, 0, 0, 0, 0],
        [5, 12, 7, 0, 9, 2, 28, 0, 10, 4, 0, 0, 0, 0]⟩ = .ok next ∧
      next.selectors.publisherPublicKeyLocator.type = .none := ⟨_, rfl, rfl⟩
  refine ⟨next, ?_, hstore, htype⟩
  have hnone : (codes 0).stored (setPublisherPublicKeyLocator {} keyLocator) = none := rfl
  simp only [wireEncode, CodeStore.recallCode, hnone, hencode]
  have hread : (codes 0).store (setPublisherPublicKeyLocator {} keyLocator)
      [5, 12, 7, 0, 9, 2, 28, 0, 10, 4, 0, 0, 0, 0] = .ok next := hstore
  rw [hread]

/-- Key locators are refused or lost, and so is a nonce that is set in an Interest which has kept the
wire of an assembled block. -/
theorem wireEncode_keyLocator_lost :
    (∃ keyLocator, KeyLocator.wireDecode {} ⟨Tlv.keyLocator, [240, 0], [28, 2, 240, 0]⟩ =
        .ok keyLocator ∧
      (setPublisherPublicKeyLocator {} keyLocator).wireEncode 0 =
        .error ⟨.keyLocator, "Unsupported KeyLocator type"⟩) ∧
    (∃ keyLocator next, KeyLocator.setKeyDigest {} wrappingKeyDigest.toElement = .ok keyLocator ∧
      keyLocator.type = .keyDigest ∧
      (setPublisherPublicKeyLocator {} keyLocator).wireEncode 0 =
        .ok ([5, 12, 7, 0, 9, 2, 28, 0, 10, 4, 0, 0, 0, 0], next) ∧
      wireDecode {} ⟨5, [7, 0, 9, 2, 28, 0, 10, 4, 0, 0, 0, 0],
        [5, 12, 7, 0, 9, 2, 28, 0, 10, 4, 0, 0, 0, 0]⟩ = .ok next ∧
      next.selectors.publisherPublicKeyLocator.type = .none) ∧
    ∃ interest, wireDecodeAssembled {} assembledWire assembledElements = .ok interest ∧
      ((interest.setNonce 2).getNonce 7).map Prod.fst = .ok 2 ∧
      (interest.setNonce 2).wireEncode 7 = .ok (assembledWire.wire, interest.setNonce 2) ∧
      ((wireDecode {} assembledWire).bind (getNonce · 7)).map Prod.fst = .ok 1 := by
  refine ⟨⟨_, rfl, rfl⟩, ?_, _, rfl, rfl, rfl, rfl⟩
  let keyLocator : KeyLocator := { type := .keyDigest, keyDigest := wrappingKeyDigest.toElement }
  have hset : KeyLocator.setKeyDigest {} wrappingKeyDigest.toElement = .ok keyLocator := rfl
  have hwritten : keyLocator.wireEncodeInto = .ok [28, 0] := by
    simp only [keyLocator, KeyLocator.wireEncodeInto, prependBlock_wrappingKeyDigest]
    rfl
  obtain ⟨next, hencode, hdecode, htype⟩ := wireEncode_of_keyLocator_written_empty hwritten rfl
  exact ⟨keyLocator, next, hset, rfl, hencode, hdecode, htype⟩

end Interest

end NdnCxx.Packet
