import NdnCxx.Foundation.BufferStore
import NdnCxx.Packet.Decoded
import NdnCxx.Packet.InterestState

/-!
# Interests in shared buffers

A `Block` holds a shared pointer to its buffer and iterators into it, so copies of a block and the
elements that were parsed from it refer to the same bytes. The wire, the nonce and the link of an
Interest are such blocks. Copying an Interest copies the references, decoding one refers to the buffer
of the packet, and `setNonce` writes through its reference if there is a wire.

A block that is assembled with `push_back` and encoded gets its wire in a new buffer, and keeps the
elements it was assembled of as its sub-blocks. An Interest that is decoded from it has its nonce
outside its own wire.
-/

namespace NdnCxx.Packet

abbrev Buffers := BufferStore UInt8

/-! ## Blocks -/

/-- A `Block` that has a wire, from `m_begin` to `m_end`. Its value begins at `m_value_begin` and ends
where the wire does. -/
structure SharedBlock where
  type : ℕ
  wire : Slice
  valueFirst : ℕ
  deriving DecidableEq

namespace SharedBlock

def value (block : SharedBlock) : Slice := { block.wire with first := block.valueFirst }

def valueSize (block : SharedBlock) : ℕ := block.wire.last - block.valueFirst

/-- The block with the bytes that it refers to at present. -/
def toBlock (buffers : Buffers) (block : SharedBlock) : Block :=
  ⟨block.type, buffers.content block.value, buffers.content block.wire⟩

/-- The iterators point into the buffer. -/
structure IsIn (buffers : Buffers) (block : SharedBlock) : Prop where
  holds : buffers.Holds block.wire
  first_le : block.wire.first ≤ block.valueFirst
  le_last : block.valueFirst ≤ block.wire.last

instance (buffers : Buffers) (block : SharedBlock) : Decidable (block.IsIn buffers) :=
  decidable_of_iff (buffers.Holds block.wire ∧ block.wire.first ≤ block.valueFirst ∧
      block.valueFirst ≤ block.wire.last)
    ⟨fun hin ↦ ⟨hin.1, hin.2.1, hin.2.2⟩, fun hin ↦ ⟨hin.holds, hin.first_le, hin.le_last⟩⟩

def fresh (buffers : Buffers) (block : Block) : SharedBlock :=
  ⟨block.type, ⟨buffers.next, 0, block.wire.length⟩, block.wire.length - block.value.length⟩

/-- The blocks of elements that stand one after another in a buffer. -/
def locate (buffer : ℕ) : ℕ → List Block → List SharedBlock
  | _, [] => []
  | first, element :: elements =>
      let last := first + element.wire.length
      ⟨element.type, ⟨buffer, first, last⟩, last - element.value.length⟩ ::
        locate buffer last elements

def parse (buffers : Buffers) (block : SharedBlock) : Except Error (List SharedBlock) := do
  return locate block.wire.buffer block.valueFirst (← Block.parse (buffers.content block.value))

def find (elements : List SharedBlock) (type : ℕ) : Option SharedBlock :=
  elements.find? fun element ↦ element.type == type

variable {buffers later : Buffers} {block : SharedBlock}

section

variable (hin : block.IsIn buffers)
include hin

theorem IsIn.holds_value : buffers.Holds block.value :=
  hin.holds.of_isWithin ⟨rfl, hin.first_le, le_rfl⟩ hin.le_last

theorem value_isWithin : block.value.IsWithin block.wire :=
  ⟨rfl, hin.first_le, le_rfl⟩

theorem IsIn.mono (hkeeps : buffers.KeepsSlices later) :
    block.IsIn later := ⟨hkeeps _ hin.holds, hin.first_le, hin.le_last⟩

theorem length_value_toBlock : (block.toBlock buffers).value.length = block.valueSize :=
  BufferStore.length_content hin.holds_value

theorem length_header_toBlock :
    (block.toBlock buffers).wire.length - (block.toBlock buffers).value.length =
      block.valueFirst - block.wire.first := by
  have hfirst := hin.first_le
  have hlast := hin.le_last
  have hwire : (block.toBlock buffers).wire.length = block.wire.last - block.wire.first :=
    BufferStore.length_content hin.holds
  rw [length_value_toBlock hin, hwire, valueSize]
  omega

/-- What a block shows does not depend on buffers that are allocated later. -/
theorem toBlock_eq_of_extends (hextends : buffers.Extends later) :
    block.toBlock later = block.toBlock buffers := by
  simp only [toBlock, hextends.content_eq hin.holds, hextends.content_eq hin.holds_value]

/-- A block shows the same while its wire does. -/
theorem toBlock_eq_of_content (hsame : later.content block.wire = buffers.content block.wire) :
    block.toBlock later = block.toBlock buffers := by
  have hvalue : later.content block.value = buffers.content block.value := by
    rw [BufferStore.content_of_isWithin later (value_isWithin hin),
      BufferStore.content_of_isWithin buffers (value_isWithin hin), hsame]
  simp only [toBlock, hsame, hvalue]

end

theorem isIn_fresh (buffers : Buffers) {made : Block} (hwire : made.IsWire) :
    (fresh buffers made).IsIn (buffers.allocate made.wire) := by
  obtain ⟨header, hheader, -⟩ := hwire.exists_header
  exact ⟨buffers.holds_allocate made.wire, Nat.zero_le _, Nat.sub_le _ _⟩

theorem toBlock_fresh (buffers : Buffers) {made : Block} (hwire : made.IsWire) :
    (fresh buffers made).toBlock (buffers.allocate made.wire) = made := by
  obtain ⟨header, hheader, -⟩ := hwire.exists_header
  have hvalue : made.wire.drop (made.wire.length - made.value.length) = made.value := by
    rw [hheader, List.length_append, Nat.add_sub_cancel, List.drop_left' rfl]
  simp only [toBlock, fresh, value, BufferStore.content_allocate, List.take_length, List.drop_zero,
    hvalue]

/-! ### Elements -/

variable {elements : List Block} {buffer first : ℕ}

/-- Where the block of an element lies. -/
theorem mem_locate (hmem : block ∈ locate buffer first elements) :
    block.wire.IsWithin ⟨buffer, first, first + (elements.flatMap Block.wire).length⟩ ∧
      ∃ element ∈ elements, block.wire.last = block.wire.first + element.wire.length ∧
        block.valueFirst = block.wire.last - element.value.length := by
  induction elements generalizing first with
  | nil => cases hmem
  | cons element elements ih =>
    rw [List.flatMap_cons, List.length_append]
    rcases List.mem_cons.mp hmem with rfl | hmem
    · refine ⟨⟨rfl, le_rfl, ?_⟩, element, by simp, rfl, rfl⟩
      simp only
      omega
    · obtain ⟨hwithin, other, hother, hplace⟩ := ih hmem
      have hfirst := hwithin.first
      have hlast := hwithin.last
      simp only at hfirst hlast
      refine ⟨⟨hwithin.buffer, ?_, ?_⟩, other, by simp [hother], hplace⟩
      · simp only
        omega
      · simp only
        omega

/-- Elements stand one after another. -/
theorem pairwise_locate (buffer first : ℕ) (elements : List Block) :
    (locate buffer first elements).Pairwise fun front back ↦ front.wire.last ≤ back.wire.first := by
  induction elements generalizing first with
  | nil => exact List.Pairwise.nil
  | cons element elements ih =>
    apply List.Pairwise.cons _ (ih _)
    intro block hmem
    exact (mem_locate hmem).1.first

/-- Elements of different types do not overlap. -/
theorem apart_of_find {type type' : ℕ} {block' : SharedBlock}
    (hfind : find (locate buffer first elements) type = some block)
    (hfind' : find (locate buffer first elements) type' = some block') (hne : type ≠ type') :
    block.wire.last ≤ block'.wire.first ∨ block'.wire.last ≤ block.wire.first := by
  have hapart : (locate buffer first elements).Pairwise fun block block' ↦
      block.wire.last ≤ block'.wire.first ∨ block'.wire.last ≤ block.wire.first :=
    (pairwise_locate buffer first elements).imp Or.inl
  have htype : block.type = type := by simpa using List.find?_some hfind
  have htype' : block'.type = type' := by simpa using List.find?_some hfind'
  have hsymm : Std.Symm fun block block' : SharedBlock ↦
      block.wire.last ≤ block'.wire.first ∨ block'.wire.last ≤ block.wire.first :=
    ⟨fun _ _ ↦ Or.symm⟩
  apply hapart.forall (List.mem_of_find?_eq_some hfind) (List.mem_of_find?_eq_some hfind')
  rintro rfl
  exact hne (htype.symm.trans htype')

/-- The blocks of the elements show the elements. -/
theorem map_toBlock_locate {last : ℕ} (hholds : buffers.Holds ⟨buffer, first, last⟩)
    (hcontent : buffers.content ⟨buffer, first, last⟩ = elements.flatMap Block.wire)
    (helements : ∀ element ∈ elements, element.IsWire) :
    (locate buffer first elements).map (toBlock buffers) = elements := by
  induction elements generalizing first with
  | nil => rfl
  | cons element elements ih =>
    have hlength := BufferStore.length_content hholds
    have hordered := hholds.first
    have hlast := hholds.last
    rw [hcontent, List.flatMap_cons, List.length_append] at hlength
    simp only at hlength hordered hlast
    rw [List.flatMap_cons] at hcontent
    obtain ⟨header, hheader, -⟩ := (helements element (by simp)).exists_header
    have hwhole : buffers.content ⟨buffer, first, first + element.wire.length⟩ = element.wire :=
      BufferStore.content_part [] _ hholds hcontent rfl rfl
    have hshown : buffers.content ⟨buffer, first + element.wire.length - element.value.length,
        first + element.wire.length⟩ = element.value := by
      apply BufferStore.content_part header (elements.flatMap Block.wire) hholds
      · rw [hcontent, hheader, List.append_assoc]
      · rw [hheader, List.length_append, ← Nat.add_assoc, Nat.add_sub_cancel]
      · rw [hheader, List.length_append]
        omega
    have hrest : buffers.content ⟨buffer, first + element.wire.length, last⟩ =
        elements.flatMap Block.wire := by
      apply BufferStore.content_part element.wire [] hholds
      · rw [hcontent, List.append_nil]
      · rfl
      · omega
    have hheld : buffers.Holds ⟨buffer, first + element.wire.length, last⟩ :=
      hholds.of_isWithin ⟨rfl, Nat.le_add_right _ _, le_rfl⟩ (by simp only; omega)
    rw [locate, List.map_cons, ih hheld hrest fun other hmem ↦ helements other (by simp [hmem])]
    simp only [toBlock, value, hwhole, hshown]

theorem isIn_of_mem_locate {last : ℕ} (hholds : buffers.Holds ⟨buffer, first, last⟩)
    (hcontent : buffers.content ⟨buffer, first, last⟩ = elements.flatMap Block.wire)
    (helements : ∀ element ∈ elements, element.IsWire)
    (hmem : block ∈ locate buffer first elements) :
    block.IsIn buffers ∧ block.wire.IsWithin ⟨buffer, first, last⟩ := by
  obtain ⟨hwithin, element, helement, hend, hvalueFirst⟩ := mem_locate hmem
  obtain ⟨header, hheader, -⟩ := (helements element helement).exists_header
  have hordered := hholds.first
  have hlength := BufferStore.length_content hholds
  rw [hcontent] at hlength
  have htotal : first + (elements.flatMap Block.wire).length = last := by
    simp only at hlength hordered
    omega
  rw [htotal] at hwithin
  have hcount : element.wire.length = header.length + element.value.length := by
    rw [hheader, List.length_append]
  exact ⟨⟨hholds.of_isWithin hwithin (by omega), by omega, by omega⟩, hwithin⟩

/-- Looking among the blocks of the elements finds the block of the element that is found. -/
theorem map_toBlock_find {elements : List SharedBlock} {type : ℕ} :
    (find elements type).map (toBlock buffers) = Block.find (elements.map (toBlock buffers)) type := by
  rw [find, Block.find, List.find?_map]
  rfl

/-- The element that is found stands behind those of other types. -/
theorem first_of_find_locate {type : ℕ}
    (hfind : find (locate buffer first elements) type = some block) :
    block.wire.first =
      first + ((elements.takeWhile fun element ↦ element.type != type).flatMap Block.wire).length := by
  induction elements generalizing first with
  | nil => cases hfind
  | cons element elements ih =>
    by_cases htype : element.type = type
    · rw [locate, find, List.find?_cons_of_pos (by simpa using htype)] at hfind
      obtain rfl := Option.some.inj hfind
      rw [List.takeWhile_cons_of_neg (by simpa using htype)]
      rfl
    · rw [locate, find, List.find?_cons_of_neg (by simpa using htype)] at hfind
      rw [ih hfind, List.takeWhile_cons_of_pos (by simpa using htype), List.flatMap_cons,
        List.length_append, Nat.add_assoc]

end SharedBlock

/-! ## Packets -/

/-- A `Block` that has a wire, and the sub-blocks that it has before it is parsed: none, or those that
it was assembled of. -/
structure SharedPacket extends SharedBlock where
  subBlocks : List SharedBlock := []
  deriving DecidableEq

variable {packet : SharedPacket} {decoded : Interest}

namespace SharedPacket

/-- `Block::parse()`, which leaves the sub-blocks that are there -/
def elements (buffers : Buffers) (packet : SharedPacket) : Except Error (List SharedBlock) :=
  if packet.subBlocks.isEmpty then packet.toSharedBlock.parse buffers else .ok packet.subBlocks

/-- The iterators point into the buffers. `Block::encode` has put the wire into a new one. -/
structure IsIn (buffers : Buffers) (packet : SharedPacket) : Prop where
  block : packet.toSharedBlock.IsIn buffers
  subBlocks : ∀ element ∈ packet.subBlocks,
    element.IsIn buffers ∧ element.wire.buffer ≠ packet.wire.buffer

instance (buffers : Buffers) (packet : SharedPacket) : Decidable (packet.IsIn buffers) :=
  decidable_of_iff (packet.toSharedBlock.IsIn buffers ∧ ∀ element ∈ packet.subBlocks,
      element.IsIn buffers ∧ element.wire.buffer ≠ packet.wire.buffer)
    ⟨fun hin ↦ ⟨hin.1, hin.2⟩, fun hin ↦ ⟨hin.block, hin.subBlocks⟩⟩

/-- The Interest that the packet shows at present, decoded into an earlier one -/
def decode (buffers : Buffers) (packet : SharedPacket) (prior : Interest) : Except Error Interest :=
  if packet.subBlocks.isEmpty then prior.wireDecode (packet.toBlock buffers)
  else prior.wireDecodeAssembled (packet.toBlock buffers)
    (packet.subBlocks.map (SharedBlock.toBlock buffers))

variable {buffers : Buffers}

theorem isIn_received {block : SharedBlock} (hin : block.IsIn buffers) :
    IsIn buffers ⟨block, []⟩ := ⟨hin, by simp⟩

theorem exists_elements_of_decode (hdecoded : packet.decode buffers {} = .ok decoded) :
    ∃ elements, packet.elements buffers = .ok elements := by
  unfold decode at hdecoded
  unfold elements
  split_ifs at hdecoded ⊢
  · obtain ⟨blocks, hparse, -⟩ := bind_eq_ok_iff.mp hdecoded
    exact ⟨_, bind_eq_ok_iff.mpr ⟨blocks, hparse, rfl⟩⟩
  · exact ⟨_, rfl⟩

end SharedPacket

/-! ## Interests -/

/-- An `Interest` whose blocks are references. -/
structure SharedInterest where
  name : Name := []
  selectors : Selectors := {}
  interestLifetime : ℤ := millisecondsMin
  selectedDelegationIndex : ℕ := invalidSelectedDelegationIndex
  nonce : Option SharedBlock := none
  link : Option SharedBlock := none
  wire : Option SharedBlock := none
  deriving DecidableEq

namespace SharedInterest

/-- Where in the wire the value of the nonce is, if it is there. -/
def nonceAt (wire nonce : SharedBlock) : Option ℕ :=
  if nonce.wire.IsWithin wire.wire then some (nonce.valueFirst - wire.wire.first) else none

/-- The Interest with the bytes that it refers to at present. -/
def toInterest (buffers : Buffers) (interest : SharedInterest) : Interest where
  name := interest.name
  selectors := interest.selectors
  nonce := interest.nonce.map (SharedBlock.toBlock buffers)
  interestLifetime := interest.interestLifetime
  link := interest.link.map (SharedBlock.toBlock buffers)
  selectedDelegationIndex := interest.selectedDelegationIndex
  wire := interest.wire.map fun wire ↦
    ⟨buffers.content wire.wire, interest.nonce.bind (nonceAt wire)⟩

/-- The bytes that `Interest::setNonce` overwrites, if it does not make a new block. -/
def patched (interest : SharedInterest) : Option Slice :=
  match interest.wire, interest.nonce with
  | some _, some nonce => if nonce.valueSize = 4 then some nonce.value else none
  | _, _ => none

def setNonce (buffers : Buffers) (interest : SharedInterest) (nonce : UInt32) :
    Buffers × SharedInterest :=
  match interest.patched with
  | some value => (buffers.overwrite value (wordBytes nonce), interest)
  | none =>
      let block := Interest.nonceBlock nonce
      (buffers.allocate block.wire,
        { interest with nonce := some (SharedBlock.fresh buffers block), wire := none })

/-- The assignment made by `Interest::getNonce` -/
def ensureNonce (buffers : Buffers) (interest : SharedInterest) (random : UInt32) :
    Buffers × SharedInterest :=
  if interest.nonce.isSome then (buffers, interest) else interest.setNonce buffers random

/-- `Interest::getNonce`, with the assignment it may make -/
def getNonce (buffers : Buffers) (interest : SharedInterest) (random : UInt32) :
    Except Error (ℕ × Buffers × SharedInterest) := do
  let (buffers, ensured) := interest.ensureNonce buffers random
  let nonce := (ensured.nonce.map (SharedBlock.toBlock buffers)).getD (Interest.nonceBlock random)
  return (← Interest.nonceNumber nonce, buffers, ensured)

/-- `Interest::refreshNonce`, where `newNonce` is the first word drawn that differs from the old
nonce -/
def refreshNonce (buffers : Buffers) (interest : SharedInterest) (newNonce : UInt32) :
    Except Error (Buffers × SharedInterest) :=
  match interest.nonce with
  | none => .ok (buffers, interest)
  | some nonce => do
      let _ ← Interest.nonceNumber (nonce.toBlock buffers)
      return interest.setNonce buffers newNonce

/-- `Interest::wireDecode` of a new object, which depends on nothing that an object held before -/
def wireDecode (buffers : Buffers) (packet : SharedPacket) : Except Error SharedInterest := do
  let decoded ← packet.decode buffers {}
  let elements ← packet.elements buffers
  return {
    name := decoded.name
    selectors := decoded.selectors
    interestLifetime := decoded.interestLifetime
    selectedDelegationIndex := decoded.selectedDelegationIndex
    nonce := SharedBlock.find elements Tlv.nonce
    link := SharedBlock.find elements Tlv.data
    wire := some packet.toSharedBlock }

/-- `Interest::wireEncode()`. Without a wire, the Interest is written to a buffer of its own and
decoded from that. -/
def wireEncode (buffers : Buffers) (interest : SharedInterest) (random : UInt32) :
    Except Error (Bytes × Buffers × SharedInterest) :=
  match interest.wire with
  | some wire => .ok (buffers.content wire.wire, buffers, interest)
  | none => do
      let bytes ← (Interest.codes random).encode (interest.toInterest buffers)
      let (buffers, _) := interest.ensureNonce buffers random
      let block ← Block.fromWire bytes
      let wire := SharedBlock.fresh buffers block
      let buffers := buffers.allocate bytes
      return (bytes, buffers, ← wireDecode buffers ⟨wire, []⟩)

/-- The mutators that discard the wire. Those of single selectors are `setSelectors` with all of
them. -/
inductive Mutator
  | setName (name : Name)
  | setInterestLifetime (interestLifetime : ℤ)
  | setSelectors (selectors : Selectors)
  | setLink (link : SharedBlock)
  | unsetLink
  | setSelectedDelegation (delegationName : Name)
  | setSelectedDelegationIndex (delegationIndex : ℕ)
  | unsetSelectedDelegation

/-- The state after a mutator that returns normally. -/
def mutate (buffers : Buffers) (interest : SharedInterest) : Mutator → Option SharedInterest
  | .setName name => some { interest with name := name, wire := none }
  | .setInterestLifetime interestLifetime =>
      some { interest with interestLifetime := interestLifetime, wire := none }
  | .setSelectors selectors => some { interest with selectors := selectors, wire := none }
  | .setLink link =>
      if link.IsIn buffers then
        some { interest with
          link := some link, selectedDelegationIndex := invalidSelectedDelegationIndex
          wire := none }
      else none
  | .unsetLink =>
      some { interest with
        link := none, selectedDelegationIndex := invalidSelectedDelegationIndex, wire := none }
  | .setSelectedDelegation delegationName => do
      let next ← ((interest.toInterest buffers).setSelectedDelegation delegationName).toOption.join
      return { interest with
        selectedDelegationIndex := next.selectedDelegationIndex, wire := none }
  | .setSelectedDelegationIndex delegationIndex => do
      let next ←
        ((interest.toInterest buffers).setSelectedDelegationIndex delegationIndex).toOption
      return { interest with
        selectedDelegationIndex := next.selectedDelegationIndex, wire := none }
  | .unsetSelectedDelegation =>
      some { interest with
        selectedDelegationIndex := invalidSelectedDelegationIndex, wire := none }

/-- A call of a public function of an Interest. Blocks that are passed in lie in the buffers. -/
inductive Call
  | setNonce (nonce : UInt32)
  | getNonce (random : UInt32)
  | refreshNonce (newNonce : UInt32)
  | wireEncode (random : UInt32)
  | wireDecode (packet : SharedPacket)
  | mutate (mutator : Mutator)

/-- The buffers and the Interest after a call that returns normally. -/
def perform (buffers : Buffers) (interest : SharedInterest) :
    Call → Option (Buffers × SharedInterest)
  | .setNonce nonce => some (interest.setNonce buffers nonce)
  | .getNonce random => (interest.getNonce buffers random).toOption.map Prod.snd
  | .refreshNonce newNonce => (interest.refreshNonce buffers newNonce).toOption
  | .wireEncode random => (interest.wireEncode buffers random).toOption.map Prod.snd
  | .wireDecode packet =>
      if packet.IsIn buffers then
        (SharedInterest.wireDecode buffers packet).toOption.map fun decoded ↦ (buffers, decoded)
      else none
  | .mutate mutator => (interest.mutate buffers mutator).map fun next ↦ (buffers, next)

/-! ### Blocks in the buffers -/

/-- The blocks of an Interest lie in the buffers, and while there is a wire, the nonce is one of its
elements or in another buffer. -/
structure IsIn (buffers : Buffers) (interest : SharedInterest) : Prop where
  nonce : ∀ nonce ∈ interest.nonce, nonce.IsIn buffers
  link : ∀ link ∈ interest.link, link.IsIn buffers
  wire : ∀ wire ∈ interest.wire, wire.IsIn buffers
  nonce_placed : ∀ wire ∈ interest.wire, ∃ nonce ∈ interest.nonce,
    nonce.wire.IsWithin wire.wire ∨ nonce.wire.buffer ≠ wire.wire.buffer

/-- While there is a wire, the nonce and the link have no byte in common. -/
def HasLinkApart (interest : SharedInterest) : Prop :=
  interest.wire.isSome = true → ∀ nonce ∈ interest.nonce, ∀ link ∈ interest.link,
    nonce.wire.IsApart link.wire

variable {buffers later : Buffers} {interest : SharedInterest}

theorem IsIn.mono (hin : interest.IsIn buffers) (hkeeps : buffers.KeepsSlices later) :
    interest.IsIn later where
  nonce := fun nonce hnonce ↦ (hin.nonce nonce hnonce).mono hkeeps
  link := fun link hlink ↦ (hin.link link hlink).mono hkeeps
  wire := fun wire hwire ↦ (hin.wire wire hwire).mono hkeeps
  nonce_placed := hin.nonce_placed

/-- Without a wire, it is enough that each block lies in the buffers. -/
theorem isIn_of_wire_eq_none (hnonce : ∀ nonce ∈ interest.nonce, nonce.IsIn buffers)
    (hlink : ∀ link ∈ interest.link, link.IsIn buffers) (hwire : interest.wire = none) :
    interest.IsIn buffers where
  nonce := hnonce
  link := hlink
  wire := by simp [hwire]
  nonce_placed := by simp [hwire]

variable {value : Slice} {elements : List SharedBlock} {call : Call}

/-- What is overwritten is the value of the nonce, four bytes of the wire. -/
theorem patched_eq_some_iff :
    interest.patched = some value ↔ ∃ wire nonce, interest.wire = some wire ∧
      interest.nonce = some nonce ∧ nonce.valueSize = 4 ∧ nonce.value = value := by
  unfold patched
  cases hwire : interest.wire with
  | none => simp
  | some wire =>
    cases hnonce : interest.nonce with
    | none => simp
    | some nonce => simp

theorem holds_patched (hin : interest.IsIn buffers) (hpatched : interest.patched = some value)
    (nonce : UInt32) :
    buffers.Holds value ∧ (wordBytes nonce).length = value.last - value.first := by
  obtain ⟨wire, block, -, hblock, hsize, rfl⟩ := patched_eq_some_iff.mp hpatched
  exact ⟨(hin.nonce block hblock).holds_value, hsize.symm⟩

theorem setNonce_of_patched (hpatched : interest.patched = some value) (nonce : UInt32) :
    interest.setNonce buffers nonce = (buffers.overwrite value (wordBytes nonce), interest) := by
  rw [setNonce, hpatched]

theorem setNonce_of_not_patched (hpatched : interest.patched = none) (nonce : UInt32) :
    interest.setNonce buffers nonce =
      (buffers.allocate (Interest.nonceBlock nonce).wire,
        { interest with
          nonce := some (SharedBlock.fresh buffers (Interest.nonceBlock nonce)), wire := none }) := by
  rw [setNonce, hpatched]

theorem nonceBlock_isWire (nonce : UInt32) : (Interest.nonceBlock nonce).IsWire :=
  Block.ofValue_isWire (by decide) (by rw [length_wordBytes]; decide)

/-- The buffers keep their slices, and the blocks of the Interest lie in them. -/
theorem isIn_setNonce (hin : interest.IsIn buffers) (nonce : UInt32) :
    buffers.KeepsSlices (interest.setNonce buffers nonce).1 ∧
      (interest.setNonce buffers nonce).2.IsIn (interest.setNonce buffers nonce).1 := by
  cases hpatched : interest.patched with
  | some value =>
    obtain ⟨hholds, hlength⟩ := holds_patched hin hpatched nonce
    rw [setNonce_of_patched hpatched]
    have hkeeps : buffers.KeepsSlices (buffers.overwrite value (wordBytes nonce)) :=
      fun slice hslice ↦ BufferStore.holds_overwrite hholds hlength hslice
    exact ⟨hkeeps, hin.mono hkeeps⟩
  | none =>
    rw [setNonce_of_not_patched hpatched]
    have hkeeps := (buffers.extends_allocate (Interest.nonceBlock nonce).wire).keepsSlices
    refine ⟨hkeeps, isIn_of_wire_eq_none ?_ ?_ rfl⟩
    · intro block hblock
      obtain rfl := Option.mem_some_iff.mp hblock
      exact SharedBlock.isIn_fresh buffers (nonceBlock_isWire nonce)
    · intro link hlink
      exact (hin.link link hlink).mono hkeeps

/-! ### Decoding -/

/-- What decoding assigns: the members that are values as the decoder of values has them, and elements
of the packet. -/
theorem wireDecode_cases (hdecode : wireDecode buffers packet = .ok interest) :
    ∃ decoded elements, packet.decode buffers {} = .ok decoded ∧
      packet.elements buffers = .ok elements ∧
      interest = {
        name := decoded.name
        selectors := decoded.selectors
        interestLifetime := decoded.interestLifetime
        selectedDelegationIndex := decoded.selectedDelegationIndex
        nonce := SharedBlock.find elements Tlv.nonce
        link := SharedBlock.find elements Tlv.data
        wire := some packet.toSharedBlock } := by
  rw [wireDecode, bind_eq_ok_iff] at hdecode
  obtain ⟨decoded, hdecoded, hdecode⟩ := hdecode
  rw [bind_eq_ok_iff] at hdecode
  obtain ⟨elements, helements, hinterest⟩ := hdecode
  exact ⟨decoded, elements, hdecoded, helements, (Except.ok.inj hinterest).symm⟩

/-- The blocks of the elements that decoding has found. -/
theorem exists_nonce_of_decode (hin : packet.IsIn buffers)
    (hdecoded : packet.decode buffers {} = .ok decoded)
    (helements : packet.elements buffers = .ok elements) :
    ∃ nonce, SharedBlock.find elements Tlv.nonce = some nonce ∧
      decoded.nonce = some (nonce.toBlock buffers) ∧
      decoded.link = (SharedBlock.find elements Tlv.data).map (SharedBlock.toBlock buffers) ∧
      decoded.wire = some ⟨buffers.content packet.wire, nonceAt packet.toSharedBlock nonce⟩ := by
  -- the nonce is found among the blocks where its value is found among the values
  have hfound : ∀ {keep}, ({} : Interest).decodeElements packet.type
      (elements.map (SharedBlock.toBlock buffers)) keep = .ok decoded →
        ∃ nonce, SharedBlock.find elements Tlv.nonce = some nonce ∧
          decoded.nonce = some (nonce.toBlock buffers) ∧
          decoded.link = (SharedBlock.find elements Tlv.data).map (SharedBlock.toBlock buffers) ∧
          decoded.wire = some (keep (nonce.toBlock buffers)) := by
    intro keep hread
    obtain ⟨element, hget, hnonce, hlink, hwire⟩ := Interest.decodeElements_spec hread
    have hfind := Block.find_of_get hget
    rw [← SharedBlock.map_toBlock_find] at hfind
    obtain ⟨nonce, hfound, rfl⟩ := Option.map_eq_some_iff.mp hfind
    exact ⟨nonce, hfound, hnonce, hlink.trans SharedBlock.map_toBlock_find.symm, hwire⟩
  unfold SharedPacket.decode at hdecoded
  unfold SharedPacket.elements at helements
  split_ifs at hdecoded helements with hempty
  · obtain ⟨blocks, hparse, hlocated⟩ := bind_eq_ok_iff.mp helements
    obtain rfl := Except.ok.inj hlocated
    obtain ⟨hvalue, hwires⟩ := Block.parse_eq_ok_iff.mp hparse
    have hshown := SharedBlock.map_toBlock_locate hin.block.holds_value hvalue hwires
    obtain ⟨blocks', hparse', hread⟩ := bind_eq_ok_iff.mp hdecoded
    obtain rfl : blocks = blocks' := Except.ok.inj (hparse.symm.trans hparse')
    obtain ⟨nonce, hfind, hnonce, hlink, hwire⟩ := hfound (by rw [hshown]; exact hread)
    refine ⟨nonce, hfind, hnonce, hlink, ?_⟩
    obtain ⟨hnonceIn, hwithin⟩ := SharedBlock.isIn_of_mem_locate hin.block.holds_value hvalue hwires
      (List.mem_of_find?_eq_some hfind)
    have hfirst := SharedBlock.first_of_find_locate hfind
    have hheader := hin.block.first_le
    have hnonceHeader := hnonceIn.first_le
    have hoffset : Interest.nonceOffset (packet.toBlock buffers) blocks (nonce.toBlock buffers) =
        nonce.valueFirst - packet.wire.first := by
      rw [Interest.nonceOffset, SharedBlock.length_header_toBlock hin.block,
        SharedBlock.length_header_toBlock hnonceIn]
      omega
    rw [hwire, nonceAt, if_pos (hwithin.trans (SharedBlock.value_isWithin hin.block)), hoffset]
    rfl
  · obtain rfl := Except.ok.inj helements
    obtain ⟨nonce, hfind, hnonce, hlink, hwire⟩ := hfound hdecoded
    refine ⟨nonce, hfind, hnonce, hlink, hwire.trans ?_⟩
    have hbuffer := (hin.subBlocks nonce (List.mem_of_find?_eq_some hfind)).2
    rw [nonceAt, if_neg fun hwithin ↦ hbuffer hwithin.buffer]
    rfl

/-- Where the elements of a packet lie. -/
theorem isIn_of_mem_elements {element : SharedBlock} (hin : packet.IsIn buffers)
    (helements : packet.elements buffers = .ok elements) (hmem : element ∈ elements) :
    element.IsIn buffers ∧
      (element.wire.IsWithin packet.wire ∨ element.wire.buffer ≠ packet.wire.buffer) := by
  unfold SharedPacket.elements at helements
  split_ifs at helements
  · obtain ⟨blocks, hparse, hlocated⟩ := bind_eq_ok_iff.mp helements
    obtain rfl := Except.ok.inj hlocated
    obtain ⟨hvalue, hwires⟩ := Block.parse_eq_ok_iff.mp hparse
    obtain ⟨helementIn, hwithin⟩ :=
      SharedBlock.isIn_of_mem_locate hin.block.holds_value hvalue hwires hmem
    exact ⟨helementIn, Or.inl (hwithin.trans (SharedBlock.value_isWithin hin.block))⟩
  · obtain rfl := Except.ok.inj helements
    obtain ⟨helementIn, hbuffer⟩ := hin.subBlocks element hmem
    exact ⟨helementIn, Or.inr hbuffer⟩

theorem isIn_of_wireDecode (hin : packet.IsIn buffers)
    (hdecode : wireDecode buffers packet = .ok interest) : interest.IsIn buffers := by
  obtain ⟨decoded, elements, hdecoded, helements, rfl⟩ := wireDecode_cases hdecode
  obtain ⟨found, hfound, -⟩ := exists_nonce_of_decode hin hdecoded helements
  have hfind : ∀ {type block}, SharedBlock.find elements type = some block → block ∈ elements :=
    List.mem_of_find?_eq_some
  refine ⟨fun nonce hnonce ↦ (isIn_of_mem_elements hin helements (hfind hnonce)).1,
    fun link hlink ↦ (isIn_of_mem_elements hin helements (hfind hlink)).1, fun other hother ↦ ?_,
    fun other hother ↦ ?_⟩
  · obtain rfl := Option.mem_some_iff.mp hother
    exact hin.block
  · obtain rfl := Option.mem_some_iff.mp hother
    exact ⟨found, hfound, (isIn_of_mem_elements hin helements (hfind hfound)).2⟩

/-- The nonce of a packet is not in its link, if this is so in the elements it was assembled of. -/
theorem hasLinkApart_of_wireDecode (hdecode : wireDecode buffers packet = .ok interest)
    (hassembled : ∀ nonce ∈ SharedBlock.find packet.subBlocks Tlv.nonce,
      ∀ link ∈ SharedBlock.find packet.subBlocks Tlv.data, nonce.wire.IsApart link.wire) :
    interest.HasLinkApart := by
  obtain ⟨decoded, elements, -, helements, rfl⟩ := wireDecode_cases hdecode
  intro _ nonce hnonce link hlink
  unfold SharedPacket.elements at helements
  split_ifs at helements
  · obtain ⟨blocks, -, hlocated⟩ := bind_eq_ok_iff.mp helements
    obtain rfl := Except.ok.inj hlocated
    exact fun _ ↦ SharedBlock.apart_of_find hnonce hlink (by decide)
  · obtain rfl := Except.ok.inj helements
    exact hassembled nonce hnonce link hlink

/-- The decoder of values gives what the Interest refers to. -/
theorem toInterest_of_wireDecode (hin : packet.IsIn buffers) :
    (wireDecode buffers packet).map (toInterest buffers) = packet.decode buffers {} := by
  cases hdecoded : packet.decode buffers {} with
  | error fault => simp [wireDecode, hdecoded, bind, Except.bind, Except.map]
  | ok decoded =>
    obtain ⟨elements, helements⟩ := SharedPacket.exists_elements_of_decode hdecoded
    obtain ⟨nonce, hfound, hnonce, hlink, hwire⟩ := exists_nonce_of_decode hin hdecoded helements
    simp only [wireDecode, hdecoded, helements, bind, Except.bind, pure, Except.pure, Except.map,
      toInterest, hfound, ← hlink, Option.map_some, ← hnonce, Option.bind_some, ← hwire]

/-! ### The Interest as a value -/

/-- Overwriting a part of a block that ends where the block does. -/
theorem toBlock_overwrite {block : SharedBlock} (hin : block.IsIn buffers) {cells : Bytes}
    (hlength : cells.length = block.valueSize) :
    block.toBlock (buffers.overwrite block.value cells) =
      Interest.overwriteValue (block.toBlock buffers) cells := by
  have hheader := SharedBlock.length_header_toBlock hin
  have hwhole : (buffers.overwrite block.value cells).content block.wire =
      (buffers.content block.wire).take (block.valueFirst - block.wire.first) ++ cells := by
    have hall : (buffers.content block.wire).drop (block.wire.last - block.wire.first) = [] := by
      rw [← BufferStore.length_content hin.holds, List.drop_length]
    rw [BufferStore.content_overwrite_of_isWithin hin.holds_value hlength hin.holds
      (SharedBlock.value_isWithin hin)]
    simp only [SharedBlock.value, hall, List.append_nil]
  rw [Interest.overwriteValue, hheader]
  simp only [SharedBlock.toBlock, hwhole,
    BufferStore.content_overwrite_self hin.holds_value hlength]

/-- Buffers that are allocated later do not matter. -/
theorem toInterest_of_extends (hin : interest.IsIn buffers) (hextends : buffers.Extends later) :
    interest.toInterest later = interest.toInterest buffers := by
  have hnonce : interest.nonce.map (SharedBlock.toBlock later) =
      interest.nonce.map (SharedBlock.toBlock buffers) :=
    Option.map_congr fun nonce hmem ↦
      SharedBlock.toBlock_eq_of_extends (hin.nonce nonce hmem) hextends
  have hlink : interest.link.map (SharedBlock.toBlock later) =
      interest.link.map (SharedBlock.toBlock buffers) :=
    Option.map_congr fun link hmem ↦
      SharedBlock.toBlock_eq_of_extends (hin.link link hmem) hextends
  have hwire : (interest.wire.map fun wire ↦
      (⟨later.content wire.wire, interest.nonce.bind (nonceAt wire)⟩ : SharedWire)) =
      interest.wire.map fun wire ↦
        ⟨buffers.content wire.wire, interest.nonce.bind (nonceAt wire)⟩ :=
    Option.map_congr fun wire hmem ↦ by rw [hextends.content_eq (hin.wire wire hmem).holds]
  simp only [toInterest, hnonce, hlink, hwire]

/-- Where the nonce is overwritten, the wire shows it if the nonce lies there. -/
theorem content_overwrite_nonce {wire block : SharedBlock} (hwire : wire.IsIn buffers)
    (hblock : block.IsIn buffers) (hsize : block.valueSize = 4)
    (hplaced : block.wire.IsWithin wire.wire ∨ block.wire.buffer ≠ wire.wire.buffer)
    (nonce : UInt32) :
    (⟨(buffers.overwrite block.value (wordBytes nonce)).content wire.wire, nonceAt wire block⟩ :
      SharedWire) = SharedWire.overwrite ⟨buffers.content wire.wire, nonceAt wire block⟩ nonce := by
  have hlength : (wordBytes nonce).length = block.valueSize := hsize.symm
  by_cases hwithin : block.wire.IsWithin wire.wire
  · have hinside := (SharedBlock.value_isWithin hblock).trans hwithin
    have hlast : block.wire.last - wire.wire.first = block.valueFirst - wire.wire.first + 4 := by
      have hfirst := hinside.first
      have hend := hblock.le_last
      rw [SharedBlock.valueSize] at hsize
      simp only [SharedBlock.value] at hfirst
      omega
    rw [BufferStore.content_overwrite_of_isWithin hblock.holds_value hlength hwire.holds hinside]
    simp only [SharedBlock.value, nonceAt, if_pos hwithin, SharedWire.overwrite, hlast]
  · have hbuffer := hplaced.resolve_left hwithin
    have hsame := (BufferStore.content_overwrite_eq_iff hblock.holds_value hlength hwire.holds).mpr
      (BufferStore.spares_of_isApart fun hequal ↦ absurd hequal hbuffer)
    simp only [hsame, nonceAt, if_neg hwithin, SharedWire.overwrite]

/-- Taken by itself, an Interest in shared buffers takes a nonce as one of values does. -/
theorem toInterest_setNonce (hin : interest.IsIn buffers) (hapart : interest.HasLinkApart)
    (nonce : UInt32) :
    (interest.setNonce buffers nonce).2.toInterest (interest.setNonce buffers nonce).1 =
      (interest.toInterest buffers).setNonce nonce := by
  cases hpatched : interest.patched with
  | some value =>
    obtain ⟨wire, block, hwire, hblock, hsize, rfl⟩ := patched_eq_some_iff.mp hpatched
    have hblockIn := hin.nonce block hblock
    obtain ⟨block', hblock', hplaced⟩ := hin.nonce_placed wire hwire
    obtain rfl : block = block' := Option.some.inj (hblock.symm.trans hblock')
    have hlength : (wordBytes nonce).length = block.valueSize := hsize.symm
    have hlink : interest.link.map
        (SharedBlock.toBlock (buffers.overwrite block.value (wordBytes nonce))) =
          interest.link.map (SharedBlock.toBlock buffers) := by
      apply Option.map_congr
      intro link hmem
      have hlinkIn := hin.link link hmem
      apply SharedBlock.toBlock_eq_of_content hlinkIn
      rw [BufferStore.content_overwrite_eq_iff hblockIn.holds_value hlength hlinkIn.holds]
      apply BufferStore.spares_of_isApart
      intro hbuffer
      rcases hapart (by simp [hwire]) block hblock link hmem hbuffer with hbefore | hbehind
      · exact Or.inl hbefore
      · exact Or.inr (Nat.le_trans hbehind hblockIn.first_le)
    have hshown := content_overwrite_nonce (hin.wire wire hwire) hblockIn hsize hplaced nonce
    have hfour : (block.toBlock buffers).value.length = 4 := by
      rw [SharedBlock.length_value_toBlock hblockIn, hsize]
    rw [setNonce_of_patched hpatched]
    simp only [toInterest, Interest.setNonce, hwire, hblock, hlink, Option.map_some,
      Option.bind_some, toBlock_overwrite hblockIn hlength, hshown, if_pos hfour]
  | none =>
    have hextends := buffers.extends_allocate (Interest.nonceBlock nonce).wire
    have hother : (interest.toInterest buffers).setNonce nonce =
        { interest.toInterest buffers with
          nonce := some (Interest.nonceBlock nonce), wire := none } := by
      cases hwire : interest.wire with
      | none => simp [Interest.setNonce, toInterest, hwire]
      | some wire =>
        cases hblock : interest.nonce with
        | none => simp [Interest.setNonce, toInterest, hwire, hblock]
        | some block =>
          have hsize : (block.toBlock buffers).value.length ≠ 4 := by
            rw [SharedBlock.length_value_toBlock (hin.nonce block hblock)]
            simpa [patched, hwire, hblock] using hpatched
          simp [Interest.setNonce, toInterest, hwire, hblock, hsize]
    rw [setNonce_of_not_patched hpatched, hother, ← toInterest_of_extends hin hextends]
    simp only [toInterest, Option.map_some, Option.map_none,
      SharedBlock.toBlock_fresh buffers (nonceBlock_isWire nonce)]

theorem ensureNonce_cases (buffers : Buffers) (interest : SharedInterest) (random : UInt32) :
    interest.ensureNonce buffers random = (buffers, interest) ∨
      interest.nonce = none ∧
        interest.ensureNonce buffers random = interest.setNonce buffers random := by
  cases hnonce : interest.nonce with
  | some nonce => exact Or.inl (by simp [ensureNonce, hnonce])
  | none => exact Or.inr ⟨rfl, by simp [ensureNonce, hnonce]⟩

/-- A nonce is assigned to an Interest that has none, without overwriting anything. -/
theorem isIn_ensureNonce (hin : interest.IsIn buffers) (random : UInt32) :
    buffers.Extends (interest.ensureNonce buffers random).1 ∧
      (interest.ensureNonce buffers random).2.IsIn (interest.ensureNonce buffers random).1 := by
  rcases ensureNonce_cases buffers interest random with hsame | ⟨hnone, hset⟩
  · rw [hsame]
    exact ⟨BufferStore.Extends.refl buffers, hin⟩
  · have hpatched : interest.patched = none := by
      cases hpatched : interest.patched with
      | none => rfl
      | some value =>
        obtain ⟨wire, nonce, -, hnonce, -⟩ := patched_eq_some_iff.mp hpatched
        rw [hnone] at hnonce
        cases hnonce
    refine ⟨?_, hset ▸ (isIn_setNonce hin random).2⟩
    rw [hset, setNonce_of_not_patched hpatched]
    exact buffers.extends_allocate _

theorem toInterest_ensureNonce (hin : interest.IsIn buffers) (random : UInt32) :
    (interest.ensureNonce buffers random).2.toInterest (interest.ensureNonce buffers random).1 =
      (interest.toInterest buffers).ensureNonce random := by
  cases hnonce : interest.nonce with
  | some nonce => simp [ensureNonce, Interest.ensureNonce, toInterest, hnonce]
  | none =>
    have hassigned : (interest.toInterest buffers).ensureNonce random =
        (interest.toInterest buffers).setNonce random := by
      simp [Interest.ensureNonce, toInterest, hnonce]
    have hapart : interest.HasLinkApart := by simp [HasLinkApart, hnonce]
    rw [hassigned, ← toInterest_setNonce hin hapart]
    simp [ensureNonce, hnonce]

/-- With a nonce, asking for it assigns nothing. -/
theorem getNonce_of_nonce {nonce : SharedBlock} (hnonce : interest.nonce = some nonce)
    (buffers : Buffers) (random : UInt32) :
    interest.getNonce buffers random =
      (Interest.nonceNumber (nonce.toBlock buffers)).map fun number ↦ (number, buffers, interest) := by
  have hensured : interest.ensureNonce buffers random = (buffers, interest) := by
    simp [ensureNonce, hnonce]
  rw [getNonce, hensured]
  simp only [hnonce, Option.map_some, Option.getD_some]
  rfl

/-- With a wire, asking for it encodes nothing. -/
theorem wireEncode_of_wire {wire : SharedBlock} (hwire : interest.wire = some wire)
    (buffers : Buffers) (random : UInt32) :
    interest.wireEncode buffers random = .ok (buffers.content wire.wire, buffers, interest) := by
  simp only [wireEncode, hwire]

theorem toInterest_getNonce (hin : interest.IsIn buffers) (random : UInt32) :
    (interest.getNonce buffers random).map
        (fun result ↦ (result.1, result.2.2.toInterest result.2.1)) =
      (interest.toInterest buffers).getNonce random := by
  rw [Interest.getNonce, ← toInterest_ensureNonce hin, getNonce]
  simp only [toInterest, bind, Except.bind]
  split
  · rfl
  · rfl

theorem toInterest_refreshNonce (hin : interest.IsIn buffers) (hapart : interest.HasLinkApart)
    (newNonce : UInt32) :
    (interest.refreshNonce buffers newNonce).map (fun result ↦ result.2.toInterest result.1) =
      (interest.toInterest buffers).refreshNonce newNonce := by
  cases hnonce : interest.nonce with
  | none => simp [refreshNonce, Interest.refreshNonce, toInterest, hnonce, Except.map]
  | some nonce =>
    have hview : (interest.toInterest buffers).nonce = some (nonce.toBlock buffers) := by
      simp [toInterest, hnonce]
    rw [refreshNonce, Interest.refreshNonce, hnonce, hview, ← toInterest_setNonce hin hapart]
    simp only [bind, Except.bind]
    split
    · rfl
    · rfl

variable {next : SharedInterest} {bytes : Bytes} {random : UInt32}

/-- The wire that an Interest encodes to fills a new buffer, and the Interest refers to it then. -/
theorem wireEncode_cases (hencode : interest.wireEncode buffers random = .ok (bytes, later, next)) :
    (∃ wire, interest.wire = some wire ∧ bytes = buffers.content wire.wire ∧ later = buffers ∧
        next = interest) ∨
      interest.wire = none ∧ ∃ block, block.IsWire ∧ block.wire = bytes ∧
        (Interest.codes random).encode (interest.toInterest buffers) = .ok bytes ∧
        later = (interest.ensureNonce buffers random).1.allocate bytes ∧
        wireDecode later ⟨SharedBlock.fresh (interest.ensureNonce buffers random).1 block, []⟩ =
          .ok next := by
  cases hwire : interest.wire with
  | some wire =>
    simp only [wireEncode, hwire, Except.ok.injEq, Prod.mk.injEq] at hencode
    obtain ⟨rfl, rfl, rfl⟩ := hencode
    exact Or.inl ⟨wire, rfl, rfl, rfl, rfl⟩
  | none =>
    simp only [wireEncode, hwire, bind_eq_ok_iff] at hencode
    obtain ⟨encoded, hencoded, block, hblock, decoded, hdecoded, hresult⟩ := hencode
    obtain ⟨rfl, rfl, rfl⟩ : encoded = bytes ∧
        (interest.ensureNonce buffers random).1.allocate encoded = later ∧ decoded = next := by
      simpa [pure, Except.pure] using hresult
    obtain ⟨hbytes, hwhole⟩ := Block.fromWire_eq_ok_iff.mp hblock
    exact Or.inr ⟨rfl, block, hwhole, hbytes, hencoded, rfl, hdecoded⟩

theorem isIn_wireEncode (hin : interest.IsIn buffers)
    (hencode : interest.wireEncode buffers random = .ok (bytes, later, next)) :
    buffers.Extends later ∧ next.IsIn later := by
  rcases wireEncode_cases hencode with ⟨wire, -, -, rfl, rfl⟩ |
    ⟨-, block, hblock, rfl, -, rfl, hdecode⟩
  · exact ⟨BufferStore.Extends.refl _, hin⟩
  · have hensured := (isIn_ensureNonce hin random).1
    exact ⟨hensured.trans (BufferStore.extends_allocate _ _),
      isIn_of_wireDecode (SharedPacket.isIn_received (SharedBlock.isIn_fresh _ hblock)) hdecode⟩

theorem toInterest_wireEncode (interest : SharedInterest) (buffers : Buffers) (random : UInt32) :
    (interest.wireEncode buffers random).map
        (fun result ↦ (result.1, result.2.2.toInterest result.2.1)) =
      (interest.toInterest buffers).wireEncode random := by
  cases hwire : interest.wire with
  | some wire =>
    simp [wireEncode, Interest.wireEncode, CodeStore.recallCode, Interest.codes, toInterest, hwire,
      Except.map]
  | none =>
    have hstored : (Interest.codes random).stored (interest.toInterest buffers) = none := by
      simp [Interest.codes, toInterest, hwire]
    rw [Interest.wireEncode, CodeStore.recallCode, hstored]
    simp only [wireEncode, hwire]
    cases hencode : (Interest.codes random).encode (interest.toInterest buffers) with
    | error fault => rfl
    | ok bytes =>
      have hstore : (Interest.codes random).store (interest.toInterest buffers) bytes =
          Block.fromWire bytes >>= ({} : Interest).wireDecode := rfl
      simp only [hstore]
      cases hblock : Block.fromWire bytes with
      | error fault => simp [hblock, bind, Except.bind, Except.map]
      | ok block =>
        obtain ⟨rfl, hwhole⟩ := Block.fromWire_eq_ok_iff.mp hblock
        have hread := toInterest_of_wireDecode (SharedPacket.isIn_received (SharedBlock.isIn_fresh
          (interest.ensureNonce buffers random).1 hwhole))
        have hshown : SharedPacket.decode ((interest.ensureNonce buffers random).1.allocate block.wire)
            ⟨SharedBlock.fresh (interest.ensureNonce buffers random).1 block, []⟩ {} =
              ({} : Interest).wireDecode block :=
          congrArg ({} : Interest).wireDecode (SharedBlock.toBlock_fresh _ hwhole)
        rw [hshown] at hread
        simp only [hblock, bind, Except.bind, ← hread]
        cases wireDecode ((interest.ensureNonce buffers random).1.allocate block.wire)
          ⟨SharedBlock.fresh (interest.ensureNonce buffers random).1 block, []⟩ with
        | error fault => rfl
        | ok next => rfl

/-! ### Mutators and calls -/

/-- A mutator discards the wire and may assign the link; the nonce stays where it is. -/
theorem mutate_cases {mutator : Mutator} (hmutate : interest.mutate buffers mutator = some next) :
    next.wire = none ∧ next.nonce = interest.nonce ∧
      ∀ link ∈ next.link, link ∈ interest.link ∨ link.IsIn buffers := by
  cases mutator with
  | setLink link =>
    simp only [mutate] at hmutate
    split_ifs at hmutate with hin
    obtain rfl := Option.some.inj hmutate
    refine ⟨rfl, rfl, fun other hother ↦ ?_⟩
    obtain rfl := Option.mem_some_iff.mp hother
    exact Or.inr hin
  | unsetLink =>
    obtain rfl := Option.some.inj hmutate
    exact ⟨rfl, rfl, by simp⟩
  | setSelectedDelegation delegationName =>
    obtain ⟨decoded, -, hnext⟩ := Option.bind_eq_some_iff.mp hmutate
    obtain rfl := Option.some.inj hnext
    exact ⟨rfl, rfl, fun link hlink ↦ Or.inl hlink⟩
  | setSelectedDelegationIndex delegationIndex =>
    obtain ⟨decoded, -, hnext⟩ := Option.bind_eq_some_iff.mp hmutate
    obtain rfl := Option.some.inj hnext
    exact ⟨rfl, rfl, fun link hlink ↦ Or.inl hlink⟩
  | _ =>
    obtain rfl := Option.some.inj hmutate
    exact ⟨rfl, rfl, fun link hlink ↦ Or.inl hlink⟩

def Mutator.onValue (buffers : Buffers) (interest : Interest) : Mutator → Option Interest
  | setName name => some (interest.setName name)
  | setInterestLifetime interestLifetime => some (interest.setInterestLifetime interestLifetime)
  | setSelectors selectors => some (interest.setSelectors selectors)
  | setLink link =>
      if link.IsIn buffers then some (interest.setLink (link.toBlock buffers)) else none
  | unsetLink => some interest.unsetLink
  | setSelectedDelegation delegationName =>
      (interest.setSelectedDelegation delegationName).toOption.join
  | setSelectedDelegationIndex delegationIndex =>
      (interest.setSelectedDelegationIndex delegationIndex).toOption
  | unsetSelectedDelegation => some interest.unsetSelectedDelegation

theorem toInterest_mutate (buffers : Buffers) (interest : SharedInterest) (mutator : Mutator) :
    (interest.mutate buffers mutator).map (toInterest buffers) =
      mutator.onValue buffers (interest.toInterest buffers) := by
  cases mutator with
  | setLink link =>
    simp only [mutate, Mutator.onValue]
    split_ifs
    · rfl
    · rfl
  | setSelectedDelegation delegationName =>
    simp only [mutate, Mutator.onValue]
    cases hset : (interest.toInterest buffers).setSelectedDelegation delegationName with
    | error fault => rfl
    | ok found =>
      cases found with
      | none => rfl
      | some next =>
        obtain ⟨link, delegationIndex, -, -, rfl⟩ := Interest.setSelectedDelegation_cases hset
        rfl
  | setSelectedDelegationIndex delegationIndex =>
    simp only [mutate, Mutator.onValue]
    cases hset : (interest.toInterest buffers).setSelectedDelegationIndex delegationIndex with
    | error fault => rfl
    | ok next =>
      obtain ⟨link, decoded, -, -, -, rfl⟩ := Interest.setSelectedDelegationIndex_cases hset
      rfl
  | _ => rfl

/-- The state after the same call of an Interest of values -/
def Call.onValue (buffers : Buffers) (interest : Interest) : Call → Option Interest
  | setNonce nonce => some (interest.setNonce nonce)
  | getNonce random => (interest.getNonce random).toOption.map Prod.snd
  | refreshNonce newNonce => (interest.refreshNonce newNonce).toOption
  | wireEncode random => (interest.wireEncode random).toOption.map Prod.snd
  | wireDecode packet =>
      if packet.IsIn buffers then (packet.decode buffers interest).toOption else none
  | mutate mutator => mutator.onValue buffers interest

/-- What a call that returns normally does. -/
theorem perform_cases (hperform : interest.perform buffers call = some (later, next)) :
    (interest.nonce = none ∧ later = buffers ∧ next = interest) ∨
      (∃ nonce, (call = .setNonce nonce ∨ call = .refreshNonce nonce) ∧
        (later, next) = interest.setNonce buffers nonce) ∨
      (∃ random, call = .getNonce random ∧ (later, next) = interest.ensureNonce buffers random) ∨
      (∃ random bytes, call = .wireEncode random ∧
        interest.wireEncode buffers random = .ok (bytes, later, next)) ∨
      (∃ packet, call = .wireDecode packet ∧ packet.IsIn buffers ∧ later = buffers ∧
        wireDecode buffers packet = .ok next) ∨
      ∃ mutator, call = .mutate mutator ∧ later = buffers ∧
        interest.mutate buffers mutator = some next := by
  cases call with
  | setNonce nonce =>
    exact Or.inr (Or.inl ⟨nonce, Or.inl rfl, (Option.some.inj hperform).symm⟩)
  | getNonce random =>
    obtain ⟨⟨number, result⟩, hget, hresult⟩ := Option.map_eq_some_iff.mp hperform
    obtain ⟨number', -, hensured⟩ := bind_eq_ok_iff.mp (toOption_eq_some_iff.mp hget)
    exact Or.inr (Or.inr (Or.inl ⟨random, rfl,
      hresult.symm.trans (congrArg Prod.snd (Except.ok.inj hensured)).symm⟩))
  | refreshNonce newNonce =>
    have hrefresh := toOption_eq_some_iff.mp hperform
    cases hnonce : interest.nonce with
    | none =>
      simp only [refreshNonce, hnonce, Except.ok.injEq, Prod.mk.injEq] at hrefresh
      exact Or.inl ⟨rfl, hrefresh.1.symm, hrefresh.2.symm⟩
    | some nonce =>
      simp only [refreshNonce, hnonce] at hrefresh
      obtain ⟨number, -, hset⟩ := bind_eq_ok_iff.mp hrefresh
      exact Or.inr (Or.inl ⟨newNonce, Or.inr rfl, (Except.ok.inj hset).symm⟩)
  | wireEncode random =>
    obtain ⟨⟨bytes, result⟩, hencode, rfl⟩ := Option.map_eq_some_iff.mp hperform
    exact Or.inr (Or.inr (Or.inr (Or.inl
      ⟨random, bytes, rfl, toOption_eq_some_iff.mp hencode⟩)))
  | wireDecode packet =>
    simp only [perform] at hperform
    split_ifs at hperform with hpacket
    obtain ⟨decoded, hdecode, hresult⟩ := Option.map_eq_some_iff.mp hperform
    obtain ⟨rfl, rfl⟩ := Prod.mk.inj hresult
    exact Or.inr (Or.inr (Or.inr (Or.inr (Or.inl
      ⟨packet, rfl, hpacket, rfl, toOption_eq_some_iff.mp hdecode⟩))))
  | mutate mutator =>
    obtain ⟨mutated, hmutate, hresult⟩ := Option.map_eq_some_iff.mp hperform
    obtain ⟨rfl, rfl⟩ := Prod.mk.inj hresult
    exact Or.inr (Or.inr (Or.inr (Or.inr (Or.inr ⟨mutator, rfl, rfl, hmutate⟩))))

/-- The elements of an assembled packet are such that its nonce is not in its link. -/
def Call.HasLinkApart : Call → Prop
  | .wireDecode packet => ∀ nonce ∈ SharedBlock.find packet.subBlocks Tlv.nonce,
      ∀ link ∈ SharedBlock.find packet.subBlocks Tlv.data, nonce.wire.IsApart link.wire
  | _ => True

/-- The blocks of an Interest stay in the buffers. -/
theorem isIn_perform (hin : interest.IsIn buffers)
    (hperform : interest.perform buffers call = some (later, next)) : next.IsIn later := by
  rcases perform_cases hperform with ⟨-, rfl, rfl⟩ | ⟨nonce, -, hset⟩ | ⟨random, -, hensured⟩ |
    ⟨random, bytes, -, hencode⟩ | ⟨packet, -, hpacket, rfl, hdecode⟩ | ⟨mutator, -, rfl, hmutate⟩
  · exact hin
  · obtain ⟨rfl, rfl⟩ := Prod.mk.inj hset
    exact (isIn_setNonce hin nonce).2
  · obtain ⟨rfl, rfl⟩ := Prod.mk.inj hensured
    exact (isIn_ensureNonce hin random).2
  · exact (isIn_wireEncode hin hencode).2
  · exact isIn_of_wireDecode hpacket hdecode
  · obtain ⟨hwire, hnonce, hlink⟩ := mutate_cases hmutate
    refine isIn_of_wire_eq_none (hnonce ▸ hin.nonce) (fun link hmem ↦ ?_) hwire
    exact (hlink link hmem).elim (hin.link link) id

theorem hasLinkApart_setNonce (hapart : interest.HasLinkApart) (nonce : UInt32) :
    (interest.setNonce buffers nonce).2.HasLinkApart := by
  cases hpatched : interest.patched with
  | some value => rwa [setNonce_of_patched hpatched]
  | none => simp [setNonce_of_not_patched hpatched, HasLinkApart]

/-- Every call leaves the nonce apart from the link. -/
theorem hasLinkApart_perform (hapart : interest.HasLinkApart) (hcall : call.HasLinkApart)
    (hperform : interest.perform buffers call = some (later, next)) : next.HasLinkApart := by
  rcases perform_cases hperform with ⟨-, -, rfl⟩ | ⟨nonce, -, hset⟩ | ⟨random, -, hensured⟩ |
    ⟨random, bytes, -, hencode⟩ | ⟨packet, rfl, -, -, hdecode⟩ | ⟨mutator, -, -, hmutate⟩
  · exact hapart
  · have hnext : next = (interest.setNonce buffers nonce).2 := congrArg Prod.snd hset
    exact hnext ▸ hasLinkApart_setNonce hapart nonce
  · have hnext : next = (interest.ensureNonce buffers random).2 := congrArg Prod.snd hensured
    rcases ensureNonce_cases buffers interest random with hsame | ⟨-, hset⟩
    · rwa [hnext, hsame]
    · rw [hnext, hset]
      exact hasLinkApart_setNonce hapart random
  · rcases wireEncode_cases hencode with ⟨wire, -, -, -, rfl⟩ | ⟨-, block, -, -, -, -, hdecode⟩
    · exact hapart
    · exact hasLinkApart_of_wireDecode hdecode (by simp [SharedBlock.find])
  · exact hasLinkApart_of_wireDecode hdecode hcall
  · simp [HasLinkApart, (mutate_cases hmutate).1]

/-- Taken by itself, an Interest in shared buffers goes through the states of one of values. -/
theorem toInterest_perform (hin : interest.IsIn buffers) (hapart : interest.HasLinkApart)
    (call : Call) :
    (interest.perform buffers call).map (fun result ↦ result.2.toInterest result.1) =
        call.onValue buffers (interest.toInterest buffers) ∧
      ∀ later next, interest.perform buffers call = some (later, next) →
        next.IsIn later ∧ (call.HasLinkApart → next.HasLinkApart) := by
  refine ⟨?_, fun later next hperform ↦ ⟨isIn_perform hin hperform,
    fun hcall ↦ hasLinkApart_perform hapart hcall hperform⟩⟩
  cases call with
  | setNonce nonce => exact congrArg some (toInterest_setNonce hin hapart nonce)
  | getNonce random =>
    simp only [perform, Call.onValue, ← toInterest_getNonce hin]
    cases interest.getNonce buffers random with
    | error fault => rfl
    | ok result => rfl
  | refreshNonce newNonce =>
    simp only [perform, Call.onValue, ← toInterest_refreshNonce hin hapart]
    cases interest.refreshNonce buffers newNonce with
    | error fault => rfl
    | ok result => rfl
  | wireEncode random =>
    simp only [perform, Call.onValue, ← toInterest_wireEncode]
    cases interest.wireEncode buffers random with
    | error fault => rfl
    | ok result => rfl
  | wireDecode packet =>
    have hread : packet.decode buffers (interest.toInterest buffers) = packet.decode buffers {} := rfl
    simp only [perform, Call.onValue, hread]
    split_ifs with hpacket
    · rw [← toInterest_of_wireDecode hpacket]
      cases wireDecode buffers packet with
      | error fault => rfl
      | ok decoded => rfl
    · rfl
  | mutate mutator =>
    rw [Call.onValue, ← toInterest_mutate, perform, Option.map_map]
    rfl

theorem toInterest_perform_assembled :
    ∃ later next, perform ⟨[[10, 4, 1, 0, 0, 0], [5, 8, 7, 0, 10, 4, 1, 0, 0, 0]]⟩
        { nonce := some ⟨Tlv.nonce, ⟨0, 0, 6⟩, 2⟩, wire := some ⟨Tlv.interest, ⟨1, 0, 10⟩, 2⟩ }
        (.setNonce 2) = some (later, next) ∧
      some (next.toInterest later) =
        Call.onValue ⟨[[10, 4, 1, 0, 0, 0], [5, 8, 7, 0, 10, 4, 1, 0, 0, 0]]⟩
          { nonce := some ⟨Tlv.nonce, [1, 0, 0, 0], [10, 4, 1, 0, 0, 0]⟩
            wire := some ⟨[5, 8, 7, 0, 10, 4, 1, 0, 0, 0], none⟩ } (.setNonce 2) ∧
      next.IsIn later ∧ next.HasLinkApart := by
  have hmain := @toInterest_perform ⟨[[10, 4, 1, 0, 0, 0], [5, 8, 7, 0, 10, 4, 1, 0, 0, 0]]⟩
    { nonce := some ⟨Tlv.nonce, ⟨0, 0, 6⟩, 2⟩, wire := some ⟨Tlv.interest, ⟨1, 0, 10⟩, 2⟩ }
    ⟨by decide, by decide, by decide, by decide⟩ (by simp [HasLinkApart]) (.setNonce 2)
  exact ⟨_, _, rfl, hmain.1, (hmain.2 _ _ rfl).1, (hmain.2 _ _ rfl).2 trivial⟩

end SharedInterest

end NdnCxx.Packet
