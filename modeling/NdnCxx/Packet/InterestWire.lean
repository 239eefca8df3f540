import NdnCxx.Packet.Link
import NdnCxx.Packet.Selectors

/-!
# The wire of an Interest

`wireEncode` of an Interest reads the Interest back from the wire it has just made, so that the
nonce block lies inside that wire: `setNonce` then overwrites four bytes of the wire in place instead
of discarding it. The word drawn for an Interest without a nonce is a parameter.
-/

namespace NdnCxx.Packet

open Block (integerElement presentIf)

def defaultInterestLifetime : ℤ := 4000

def invalidSelectedDelegationIndex : ℕ := 2 ^ 64 - 1

/-- The bytes of a `uint32_t` in the memory of a little-endian host. -/
def wordBytes (word : UInt32) : Bytes :=
  [word.toUInt8, (word >>> 8).toUInt8, (word >>> 16).toUInt8, (word >>> 24).toUInt8]

@[simp]
theorem length_wordBytes (word : UInt32) : (wordBytes word).length = 4 := rfl

/-- `m_wire` of an Interest, with the offset in it of the value that `m_nonce` points to, if this lies
in the wire and not in another buffer. -/
structure SharedWire where
  bytes : Bytes
  nonceAt : Option ℕ
  deriving DecidableEq

/-- The wire after four bytes were put where the nonce is. -/
def SharedWire.overwrite (wire : SharedWire) (nonce : UInt32) : SharedWire :=
  match wire.nonceAt with
  | some first => { wire with
      bytes := wire.bytes.take first ++ (wordBytes nonce ++ wire.bytes.drop (first + 4)) }
  | none => wire

/-- `Interest` with its members. -/
structure Interest where
  name : Name := []
  selectors : Selectors := {}
  nonce : Option Block := none
  interestLifetime : ℤ := millisecondsMin
  link : Option Block := none
  selectedDelegationIndex : ℕ := invalidSelectedDelegationIndex
  wire : Option SharedWire := none
  deriving DecidableEq

namespace Interest

def hasSelectedDelegation (interest : Interest) : Bool :=
  interest.selectedDelegationIndex != invalidSelectedDelegationIndex

def nonceBlock (nonce : UInt32) : Block := Block.ofValue Tlv.nonce (wordBytes nonce)

def overwriteValue (block : Block) (value : Bytes) : Block :=
  { block with
    value := value
    wire := block.wire.take (block.wire.length - block.value.length) ++ value }

def setNonce (interest : Interest) (nonce : UInt32) : Interest :=
  match interest.wire, interest.nonce with
  | some wire, some block =>
      if block.value.length = 4 then
        { interest with
          nonce := some (overwriteValue block (wordBytes nonce))
          wire := some (wire.overwrite nonce) }
      else { interest with nonce := some (nonceBlock nonce), wire := none }
  | _, _ => { interest with nonce := some (nonceBlock nonce), wire := none }

/-- The assignment made by `Interest::getNonce`, where `random` is the word it draws if there is no
nonce yet. -/
def ensureNonce (interest : Interest) (random : UInt32) : Interest :=
  if interest.nonce.isSome then interest else interest.setNonce random

/-- The number that a nonce block stands for; other lengths than four bytes are accepted for
compatibility reasons. -/
def nonceNumber (nonce : Block) : Except Error ℕ :=
  if nonce.value.length = 4 then .ok (Bytes.toNumber nonce.value.reverse) else nonce.readUInt32

/-- `Interest::getNonce`, with the assignment it may make -/
def getNonce (interest : Interest) (random : UInt32) : Except Error (ℕ × Interest) := do
  let ensured := interest.ensureNonce random
  return (← nonceNumber (ensured.nonce.getD (nonceBlock random)), ensured)

/-- `Interest::refreshNonce`, where `newNonce` is the first word drawn that differs from the old
nonce -/
def refreshNonce (interest : Interest) (newNonce : UInt32) : Except Error Interest :=
  match interest.nonce with
  | none => .ok interest
  | some nonce => do
      let _ ← nonceNumber nonce
      return interest.setNonce newNonce

/-- The elements of a link and its selected delegation. Without a link no delegation is written. -/
def prependLink (interest : Interest) : Bytes :=
  match interest.link with
  | none => []
  | some link =>
      Block.prependWire link.wire ++
        (if interest.hasSelectedDelegation then
          Block.prependNonNegativeIntegerBlock Tlv.selectedDelegation
            interest.selectedDelegationIndex
        else [])

/-- `Interest::wireEncode(EncodingImpl<TAG>&)`; the elements are prepended last to first. -/
def wireEncodeInto (random : UInt32) (interest : Interest) : Except Error Bytes := do
  let link := interest.prependLink
  let interestLifetime :=
    if interest.interestLifetime ≥ 0 ∧ interest.interestLifetime ≠ defaultInterestLifetime then
      Block.prependNonNegativeIntegerBlock Tlv.interestLifetime
        (toUInt64 interest.interestLifetime)
    else []
  -- to ensure that Nonce is properly set
  let (_, ensured) ← interest.getNonce random
  let nonce := ensured.nonce.map fun block ↦ Block.prependWire block.wire
  let selectors ←
    Block.writtenIf (!interest.selectors.isEmpty) interest.selectors.wireEncodeInto
  return Tlv.prependByteArrayBlock Tlv.interest
    (interest.name.wireEncode ++ (selectors ++ (nonce.getD [] ++ (interestLifetime ++ link))))

def nonceOffset (wire : Block) (elements : List Block) (nonce : Block) : ℕ :=
  (wire.wire.length - wire.value.length) +
    (((elements.takeWhile fun element ↦ element.type != Tlv.nonce).flatMap Block.wire).length +
      (nonce.wire.length - nonce.value.length))

/-- The selected delegation of an element; it must be among those of the link. -/
def decodeSelectedDelegation (link : Option Block) (element : Block) : Except Error ℕ :=
  match link with
  | none => throw ⟨.tlv, "Interest contains SelectedDelegation, but no LINK object"⟩
  | some link => do
      let selectedDelegation ← element.readNonNegativeInteger
      if selectedDelegation < (← Link.countDelegationsFromWire link) then
        return selectedDelegation
      else throw ⟨.tlv, "Invalid selected delegation index when decoding Interest"⟩

/-- `Interest::wireDecode` from the sub-blocks of the wire, which `keep` makes `m_wire` of. -/
def decodeElements (interest : Interest) (type : ℕ) (elements : List Block)
    (keep : Block → SharedWire) : Except Error Interest := do
  if type ≠ Tlv.interest then
    throw ⟨.tlv, "Unexpected TLV number when decoding Interest"⟩
  else
    let name ← Name.wireDecode (← Block.get elements Tlv.name)
    let selectors ← Block.decodeIfFound (Block.find elements Tlv.selectors) {}
      interest.selectors.wireDecode
    let nonce ← Block.get elements Tlv.nonce
    let interestLifetime ← Block.decodeIfFound (Block.find elements Tlv.interestLifetime)
      defaultInterestLifetime Block.readInt64
    let link := Block.find elements Tlv.data
    let selectedDelegationIndex ← Block.decodeIfFound
      (Block.find elements Tlv.selectedDelegation) invalidSelectedDelegationIndex
      (decodeSelectedDelegation link)
    return {
      name := name
      selectors := selectors
      nonce := some nonce
      interestLifetime := interestLifetime
      link := link
      selectedDelegationIndex := selectedDelegationIndex
      wire := some (keep nonce) }

def wireDecode (interest : Interest) (wire : Block) : Except Error Interest := do
  let elements ← Block.parse wire.value
  interest.decodeElements wire.type elements fun nonce ↦
    ⟨wire.wire, some (nonceOffset wire elements nonce)⟩

/-- `Interest::wireDecode` of a block that was assembled of elements and encoded: `parse()` finds its
sub-blocks there and leaves them, each in its own buffer. -/
def wireDecodeAssembled (interest : Interest) (wire : Block) (elements : List Block) :
    Except Error Interest :=
  interest.decodeElements wire.type elements fun _ ↦ ⟨wire.wire, none⟩

/-- The wire an `Interest` keeps. It is read back to ensure that the nonce block points to the right
memory location. -/
def codes (random : UInt32) : CodeStore Interest Bytes Error where
  encode interest := wireEncodeInto random interest >>= bufferBlock
  stored interest := interest.wire.map SharedWire.bytes
  store interest wire := do (interest.ensureNonce random).wireDecode (← Block.fromWire wire)

def wireEncode (random : UInt32) (interest : Interest) : Except Error (Bytes × Interest) :=
  (codes random).recallCode interest

/-! ## Setters -/

def setName (interest : Interest) (name : Name) : Interest :=
  { interest with name := name, wire := none }

def setInterestLifetime (interest : Interest) (interestLifetime : ℤ) : Interest :=
  { interest with interestLifetime := interestLifetime, wire := none }

def setSelectors (interest : Interest) (selectors : Selectors) : Interest :=
  { interest with selectors := selectors, wire := none }

def setMinSuffixComponents (interest : Interest) (minSuffixComponents : ℤ) : Interest :=
  interest.setSelectors (interest.selectors.setMinSuffixComponents minSuffixComponents)

def setMaxSuffixComponents (interest : Interest) (maxSuffixComponents : ℤ) : Interest :=
  interest.setSelectors (interest.selectors.setMaxSuffixComponents maxSuffixComponents)

def setPublisherPublicKeyLocator (interest : Interest) (keyLocator : KeyLocator) : Interest :=
  interest.setSelectors (interest.selectors.setPublisherPublicKeyLocator keyLocator)

def setExclude (interest : Interest) (exclude : Exclude) : Interest :=
  interest.setSelectors (interest.selectors.setExclude exclude)

def setChildSelector (interest : Interest) (childSelector : ℤ) : Interest :=
  interest.setSelectors (interest.selectors.setChildSelector childSelector)

def setMustBeFresh (interest : Interest) (mustBeFresh : Bool) : Interest :=
  interest.setSelectors (interest.selectors.setMustBeFresh mustBeFresh)

def unsetSelectedDelegation (interest : Interest) : Interest :=
  { interest with selectedDelegationIndex := invalidSelectedDelegationIndex, wire := none }

/-- `Interest::setLink`, with a block that has a wire -/
def setLink (interest : Interest) (link : Block) : Interest :=
  { interest with link := some link, wire := none }.unsetSelectedDelegation

def unsetLink (interest : Interest) : Interest :=
  { interest with link := none, wire := none }.unsetSelectedDelegation

/-- The link to look into; a `Block()` in its place has no element of any type. -/
def linkOrThrow (interest : Interest) (type : ℕ) : Except Error Block :=
  match interest.link with
  | some link => .ok link
  | none => Block.get [] type

/-- `Interest::setSelectedDelegation(const Name&)`; `none` is the `std::invalid_argument` for a name
that is not there. -/
def setSelectedDelegation (interest : Interest) (delegationName : Name) :
    Except Error (Option Interest) := do
  let link ← interest.linkOrThrow Tlv.content
  let found ← Link.findDelegationFromWire link delegationName
  return found.map fun delegationIndex ↦
    { interest with selectedDelegationIndex := delegationIndex, wire := none }

def setSelectedDelegationIndex (interest : Interest) (delegationIndex : ℕ) :
    Except Error Interest := do
  let link ← interest.linkOrThrow Tlv.name
  let decoded ← Link.wireDecode {} link
  if delegationIndex ≥ decoded.delegations.entries.length then
    throw ⟨.tlv, "Invalid selected delegation index"⟩
  else return { interest with selectedDelegationIndex := delegationIndex, wire := none }

/-! ## Reading back what was written -/

/-- The Interest can be written and read again. -/
structure IsEncodable (interest : Interest) : Prop where
  name : interest.name.IsWellFormed
  selectors : interest.selectors.IsEncodable
  exclude : Exclude.IsUnambiguous interest.selectors.exclude.filter
  nonce : ∀ nonce ∈ interest.nonce,
    nonce.type = Tlv.nonce ∧ nonce.IsWire ∧ nonce.value.length ∈ [1, 2, 4, 8]
  interestLifetime : interest.interestLifetime < 2 ^ 63
  link : ∀ link ∈ interest.link, link.type = Tlv.data ∧ link.IsWire ∧ link.wire.length < 2 ^ 32
  index : interest.selectedDelegationIndex < 2 ^ 64
  delegation : interest.hasSelectedDelegation = true →
    ∃ link ∈ interest.link, ∃ count, Link.countDelegationsFromWire link = .ok count ∧
      interest.selectedDelegationIndex < count

/-- The Interest can be written, and the elements on the wire can be told apart. -/
structure IsWritable (interest : Interest) : Prop where
  name : interest.name.IsWellFormed
  selectors : interest.selectors.IsEncodable
  nonce : ∀ nonce ∈ interest.nonce,
    nonce.type = Tlv.nonce ∧ nonce.IsWire ∧ nonce.value.length ∈ [1, 2, 4, 8]
  interestLifetime : interest.interestLifetime < 2 ^ 63
  link : ∀ link ∈ interest.link, link.IsWire ∧ link.wire.length < 2 ^ 32
  index : interest.selectedDelegationIndex < 2 ^ 64

theorem IsEncodable.isWritable {interest : Interest} (hencodable : interest.IsEncodable) :
    interest.IsWritable where
  name := hencodable.name
  selectors := hencodable.selectors
  nonce := hencodable.nonce
  interestLifetime := hencodable.interestLifetime
  link := fun link hlink ↦ (hencodable.link link hlink).2
  index := hencodable.index

variable (random : UInt32)

def writtenNonce (interest : Interest) : Block := interest.nonce.getD (nonceBlock random)

def hasLifetime (interest : Interest) : Bool :=
  decide (interest.interestLifetime ≥ 0 ∧ interest.interestLifetime ≠ defaultInterestLifetime)

def fields (interest : Interest) : List (ℕ × Option Block) :=
  [(Tlv.name, some interest.name.toBlock),
    (Tlv.selectors, presentIf (!interest.selectors.isEmpty) interest.selectors.toBlock),
    (Tlv.nonce, some (interest.writtenNonce random)),
    (Tlv.interestLifetime, presentIf interest.hasLifetime (Block.ofValue Tlv.interestLifetime
      (Tlv.prependNonNegativeInteger (toUInt64 interest.interestLifetime)))),
    (Tlv.data, interest.link),
    (Tlv.selectedDelegation, presentIf (interest.link.isSome && interest.hasSelectedDelegation)
      (Block.ofValue Tlv.selectedDelegation
        (Tlv.prependNonNegativeInteger interest.selectedDelegationIndex)))]

def elements (interest : Interest) : List Block := Block.fieldElements (interest.fields random)

def toBlock (interest : Interest) : Block := Block.ofElements Tlv.interest (interest.elements random)

/-- The members after `wireDecode` of what the Interest was encoded to. -/
def reread (interest : Interest) : Interest where
  name := interest.name
  selectors := if !interest.selectors.isEmpty then interest.selectors.reread else {}
  nonce := some (interest.writtenNonce random)
  interestLifetime :=
    if interest.hasLifetime then interest.interestLifetime else defaultInterestLifetime
  link := interest.link
  selectedDelegationIndex :=
    if interest.link.isSome && interest.hasSelectedDelegation then
      interest.selectedDelegationIndex
    else invalidSelectedDelegationIndex
  wire := some ⟨(interest.toBlock random).wire,
    some (nonceOffset (interest.toBlock random) (interest.elements random)
      (interest.writtenNonce random))⟩

theorem nonce_ensureNonce (interest : Interest) :
    (interest.ensureNonce random).nonce = some (interest.writtenNonce random) := by
  unfold ensureNonce writtenNonce
  cases hnonce : interest.nonce with
  | some nonce => simp [hnonce]
  | none =>
    have hset : (interest.setNonce random).nonce = some (nonceBlock random) := by
      unfold setNonce
      rw [hnonce]
      cases interest.wire <;> rfl
    simp [hset]

theorem exists_nonceNumber {nonce : Block} (hlength : nonce.value.length ∈ [1, 2, 4, 8]) :
    ∃ number, nonceNumber nonce = .ok number := by
  have hwidth : nonce.value.length = 1 ∨ nonce.value.length = 2 ∨ nonce.value.length = 4 ∨
      nonce.value.length = 8 := by simpa using hlength
  unfold nonceNumber
  split_ifs with hword
  · exact ⟨_, rfl⟩
  · simp [Block.readUInt32, Block.readNonNegativeInteger, Tlv.readNonNegativeInteger, hwidth,
      Tlv.readFixed, bind, Except.bind, pure, Except.pure]

section Writing

variable {random} {written : Interest} (hwritable : written.IsWritable)
include hwritable

theorem writtenNonce_spec : (written.writtenNonce random).type = Tlv.nonce ∧
    (written.writtenNonce random).IsWire ∧
      (written.writtenNonce random).value.length ∈ [1, 2, 4, 8] := by
  unfold writtenNonce
  cases hnonce : written.nonce with
  | some nonce => exact hwritable.nonce nonce hnonce
  | none => exact ⟨rfl, Block.ofValue_isWire (by decide) (by simp), by simp [nonceBlock,
      Block.ofValue]⟩

theorem length_wire_writtenNonce_lt : (written.writtenNonce random).wire.length < 2 ^ 32 := by
  have hlength : (written.writtenNonce random).value.length ∈ [1, 2, 4, 8] :=
    (writtenNonce_spec hwritable).2.2
  have hle : (written.writtenNonce random).wire.length ≤ _ :=
    (writtenNonce_spec hwritable).2.1.length_wire_le
  simp only [List.mem_cons, List.not_mem_nil, or_false] at hlength
  omega

theorem exists_getNonce :
    ∃ number, written.getNonce random = .ok (number, written.ensureNonce random) := by
  obtain ⟨number, hnumber⟩ : ∃ number, nonceNumber (written.writtenNonce random) = .ok number :=
    exists_nonceNumber (writtenNonce_spec hwritable).2.2
  refine ⟨number, ?_⟩
  rw [getNonce, nonce_ensureNonce, Option.getD_some, hnumber]
  rfl

theorem elements_isWire (hsize : (written.toBlock random).wire.length < 2 ^ 64) :
    ∀ element ∈ written.elements random, element.IsWire := by
  intro element hmem
  have hshort := Block.length_wire_lt_of_mem hsize hmem
  obtain ⟨field, hfield, helement⟩ := Block.mem_fieldElements.mp hmem
  simp only [fields, List.mem_cons, List.not_mem_nil, or_false] at hfield
  rcases hfield with rfl | rfl | rfl | rfl | rfl | rfl
  · obtain rfl := Option.mem_some_iff.mp helement
    exact Block.ofElements_isWire (by decide) hshort
  · obtain ⟨-, rfl⟩ := Block.mem_presentIf.mp helement
    exact Block.ofElements_isWire (by decide) hshort
  · obtain rfl := Option.mem_some_iff.mp helement
    exact (writtenNonce_spec hwritable).2.1
  · obtain ⟨-, rfl⟩ := Block.mem_presentIf.mp helement
    exact Block.ofValue_integer_isWire (by decide)
  · exact (hwritable.link element helement).1
  · obtain ⟨-, rfl⟩ := Block.mem_presentIf.mp helement
    exact Block.ofValue_integer_isWire (by decide)

theorem parse_toBlock (hsize : (written.toBlock random).wire.length < 2 ^ 64) :
    Block.parse (written.toBlock random).value = .ok (written.elements random) :=
  Block.parse_ofElements (elements_isWire hwritable hsize)

theorem prependLink_eq : written.prependLink =
    written.link.toList.flatMap Block.wire ++
      (presentIf (written.link.isSome && written.hasSelectedDelegation)
        (Block.ofValue Tlv.selectedDelegation
          (Tlv.prependNonNegativeInteger written.selectedDelegationIndex))).toList.flatMap
        Block.wire := by
  rw [Block.flatMap_wire_presentIf, prependLink]
  cases hlink : written.link with
  | none => rfl
  | some link =>
    simp only [Option.toList_some, List.flatMap_singleton, Option.isSome_some, Bool.true_and,
      Block.prependWire_eq (hwritable.link link hlink).2]
    rfl

theorem wireEncodeInto_eq : wireEncodeInto random written = .ok (written.toBlock random).wire := by
  have hselectors : Block.writtenIf (!written.selectors.isEmpty) written.selectors.wireEncodeInto =
      .ok ((presentIf (!written.selectors.isEmpty)
        written.selectors.toBlock).toList.flatMap Block.wire) :=
    Block.writtenIf_eq fun _ ↦ Selectors.wireEncodeInto_eq hwritable.selectors
  obtain ⟨number, hget⟩ :
      ∃ number, written.getNonce random = .ok (number, written.ensureNonce random) :=
    exists_getNonce hwritable
  have hnonce : (((written.ensureNonce random).nonce.map fun block ↦
      Block.prependWire block.wire).getD []) = (written.writtenNonce random).wire := by
    rw [nonce_ensureNonce, Option.map_some, Option.getD_some,
      Block.prependWire_eq (length_wire_writtenNonce_lt hwritable)]
  simp only [wireEncodeInto, hselectors, hget, hnonce, bind, Except.bind, pure, Except.pure,
    Name.wireEncode_eq, prependLink_eq hwritable]
  simp only [toBlock, Block.ofElements, elements, Block.fieldElements, fields, List.flatMap_cons,
    List.flatMap_nil, List.flatMap_append, List.append_nil, Option.toList_some,
    Block.flatMap_wire_presentIf, hasLifetime, decide_eq_true_eq]
  rfl

/-! ### With a link that is a Data packet -/

variable (hdata : ∀ link ∈ written.link, link.type = Tlv.data)
include hdata

theorem hasTypes_fields : Block.HasTypes (written.fields random) := by
  simp only [Block.HasTypes, fields, List.forall_mem_cons, List.not_mem_nil, false_implies,
    implies_true, and_true, Block.forall_mem_presentIf, Option.mem_some_iff, forall_eq']
  exact ⟨rfl, fun _ ↦ rfl, (writtenNonce_spec hwritable).1, fun _ ↦ rfl, hdata, fun _ ↦ rfl⟩

theorem find_elements {type : ℕ} {element : Option Block}
    (hmem : (type, element) ∈ written.fields random) :
    Block.find (written.elements random) type = element := by
  have hdistinct : ((written.fields random).map Prod.fst).Nodup := by
    simp only [fields, List.map_cons, List.map_nil]
    decide
  exact Block.find_fieldElements (hasTypes_fields hwritable hdata) hdistinct hmem

/-- All that is left of decoding what was encoded is to decode the selectors and the selected
delegation. -/
theorem wireDecode_toBlock_eq (prior : Interest)
    (hsize : (written.toBlock random).wire.length < 2 ^ 64) :
    prior.wireDecode (written.toBlock random) = (do
      let selectors ← Block.decodeIfFound (presentIf (!written.selectors.isEmpty)
        written.selectors.toBlock) {} (Selectors.wireDecode {})
      let selectedDelegationIndex ← Block.decodeIfFound
        (presentIf (written.link.isSome && written.hasSelectedDelegation)
          (Block.ofValue Tlv.selectedDelegation
            (Tlv.prependNonNegativeInteger written.selectedDelegationIndex)))
        invalidSelectedDelegationIndex (decodeSelectedDelegation written.link)
      return { written.reread random with
        selectors := selectors, selectedDelegationIndex := selectedDelegationIndex }) := by
  have htype : (written.toBlock random).type = Tlv.interest := rfl
  have hgetName : Block.get (written.elements random) Tlv.name = .ok written.name.toBlock :=
    Block.get_eq_ok (find_elements hwritable hdata (by simp [fields]))
  have hname : Name.wireDecode written.name.toBlock = .ok written.name := by
    apply Name.wireDecode_toBlock hwritable.name
    exact Block.length_wire_lt_of_mem hsize (by simp [elements, Block.fieldElements, fields])
  have hselectors : Block.find (written.elements random) Tlv.selectors =
      presentIf (!written.selectors.isEmpty) written.selectors.toBlock :=
    find_elements hwritable hdata (by simp [fields])
  have hgetNonce : Block.get (written.elements random) Tlv.nonce =
      .ok (written.writtenNonce random) :=
    Block.get_eq_ok (find_elements hwritable hdata (by simp [fields]))
  have hlifetime : Block.decodeIfFound
      (Block.find (written.elements random) Tlv.interestLifetime) defaultInterestLifetime
        Block.readInt64 = .ok (written.reread random).interestLifetime := by
    have hmem : (Tlv.interestLifetime, presentIf written.hasLifetime
        (Block.ofValue Tlv.interestLifetime
          (Tlv.prependNonNegativeInteger (toUInt64 written.interestLifetime)))) ∈
        written.fields random := by simp [fields]
    rw [find_elements hwritable hdata hmem]
    apply Block.decodeIfFound_presentIf
    intro hpresent
    have hnonneg : written.interestLifetime ≥ 0 := (of_decide_eq_true hpresent).1
    rw [Block.readInt64, Block.readNonNegativeInteger_ofValue _ (toUInt64_lt _)]
    exact congrArg Except.ok (toInt64_toUInt64 (by omega) hwritable.interestLifetime)
  have hlink : Block.find (written.elements random) Tlv.data = written.link :=
    find_elements hwritable hdata (by simp [fields])
  have hdelegation : Block.find (written.elements random) Tlv.selectedDelegation =
      presentIf (written.link.isSome && written.hasSelectedDelegation)
        (Block.ofValue Tlv.selectedDelegation
          (Tlv.prependNonNegativeInteger written.selectedDelegationIndex)) :=
    find_elements hwritable hdata (by simp [fields])
  simp only [wireDecode, decodeElements, parse_toBlock hwritable hsize, if_neg (not_not.mpr htype),
    hgetName, hname, hselectors, hgetNonce, hlifetime, hlink, hdelegation, bind, Except.bind, pure,
    Except.pure]
  rfl

end Writing

section ReadingBack

variable {random} {written : Interest} (hencodable : written.IsEncodable)
include hencodable

/-- Decoding what was encoded gives the same Interest, whatever the object held before. -/
theorem wireDecode_toBlock (prior : Interest)
    (hsize : (written.toBlock random).wire.length < 2 ^ 64) :
    prior.wireDecode (written.toBlock random) = .ok (written.reread random) := by
  have hselectors : Block.decodeIfFound (presentIf (!written.selectors.isEmpty)
      written.selectors.toBlock) {} (Selectors.wireDecode {}) =
      .ok (written.reread random).selectors := by
    have hmem : (Tlv.selectors, presentIf (!written.selectors.isEmpty) written.selectors.toBlock) ∈
        written.fields random := by simp [fields]
    apply Block.decodeIfFound_presentIf
    intro hpresent
    exact Selectors.wireDecode_toBlock _ hencodable.selectors hencodable.exclude
      (Block.length_wire_lt_of_presentIf hsize hmem hpresent)
  have hdelegation : Block.decodeIfFound
      (presentIf (written.link.isSome && written.hasSelectedDelegation)
        (Block.ofValue Tlv.selectedDelegation
          (Tlv.prependNonNegativeInteger written.selectedDelegationIndex)))
      invalidSelectedDelegationIndex (decodeSelectedDelegation written.link) =
      .ok (written.reread random).selectedDelegationIndex := by
    apply Block.decodeIfFound_presentIf
    intro hpresent
    obtain ⟨link, hlinkMem, count, hcount, hlt⟩ :=
      hencodable.delegation (Bool.and_eq_true_iff.mp hpresent).2
    rw [Option.mem_def.mp hlinkMem, decodeSelectedDelegation,
      Block.readNonNegativeInteger_ofValue _ hencodable.index]
    simp only [bind, Except.bind, hcount, if_pos hlt, pure, Except.pure]
  rw [wireDecode_toBlock_eq hencodable.isWritable (fun link hlink ↦ (hencodable.link link hlink).1)
    prior hsize, hselectors, hdelegation]
  rfl

theorem encode_eq (hsize : (written.toBlock random).wire.length < 2 ^ 64) :
    (codes random).encode written = .ok (written.toBlock random).wire := by
  apply bind_eq_ok_iff.mpr
  exact ⟨_, wireEncodeInto_eq hencodable.isWritable, bufferBlock_ofElements (by decide) hsize⟩

theorem store_eq (hsize : (written.toBlock random).wire.length < 2 ^ 64) :
    (codes random).store written (written.toBlock random).wire = .ok (written.reread random) := by
  have hblock : Block.fromWire (written.toBlock random).wire = .ok (written.toBlock random) :=
    Block.fromWire_ofElements (by decide) hsize
  change Block.fromWire (written.toBlock random).wire >>=
    (written.ensureNonce random).wireDecode = _
  rw [hblock]
  exact wireDecode_toBlock hencodable _ hsize

end ReadingBack

end Interest

end NdnCxx.Packet
