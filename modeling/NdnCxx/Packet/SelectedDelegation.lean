import NdnCxx.Packet.Decoded
import NdnCxx.Packet.Delegations
import NdnCxx.Packet.InterestRoundTrip
import Mathlib.Algebra.BigOperators.Group.List.Basic

/-!
# The selected delegation of an Interest

An Interest keeps a link and the index of one of its delegations. Calls that throw are steps here:
they leave the members as far as they have come. `setLink` assigns a block before it finds that the
block has no wire, and `wireDecode` assigns the wire, the name and so on one after the other. The
index is checked against the set of a decoded link in one place and against the elements on its wire
in others.

Where no call stops halfway and the two views of a link agree, a selected delegation can always be
looked up, and it survives encoding and decoding.
-/

namespace NdnCxx.Packet.Interest

/-! ## Members after calls that may throw -/

def noBlock : Block := ⟨2 ^ 32 - 1, [], []⟩

/-- The members of an Interest. While `m_link` has no wire, it is `looseLink`, of which only the type
and the value that `parse()` looks into are kept. -/
structure Members where
  interest : Interest := {}
  looseLink : Block := noBlock
  deriving DecidableEq

namespace Members

def link (members : Members) : Block := members.interest.link.getD members.looseLink

def hasLink (members : Members) : Bool := members.interest.link.isSome

/-- `Interest::getSelectedDelegation`; `none` is the `std::out_of_range` of the link. -/
def getSelectedDelegation (members : Members) : Except Error (Option Name) := do
  if !members.interest.hasSelectedDelegation then
    throw ⟨.tlv, "There is no encapsulated selected delegation"⟩
  else
    let delegation ← Link.getDelegationFromWire members.link members.interest.selectedDelegationIndex
    return delegation.map Prod.snd

/-- `Interest::setSelectedDelegation(size_t)`, if it returns -/
def setSelectedDelegationIndex (members : Members) (delegationIndex : ℕ) :
    Except Error Members := do
  let link ← Link.wireDecode {} members.link
  if delegationIndex ≥ link.delegations.entries.length then
    throw ⟨.tlv, "Invalid selected delegation index"⟩
  else
    return { members with interest := { members.interest with
      selectedDelegationIndex := delegationIndex, wire := none } }

/-- `Interest::setSelectedDelegation(const Name&)`, if it returns; `none` is the
`std::invalid_argument` for a name that is not there. -/
def setSelectedDelegation (members : Members) (delegationName : Name) :
    Except Error (Option Members) := do
  let found ← Link.findDelegationFromWire members.link delegationName
  return found.map fun delegationIndex ↦ { members with interest := { members.interest with
    selectedDelegationIndex := delegationIndex, wire := none } }

/-- Go on with what a function returns, or throw what it throws. -/
def orThrow {Value : Type} (result : Except Error Value) : EStateM Error Members Value :=
  match result with
  | .ok value => pure value
  | .error error => throw error

@[simp]
theorem orThrow_ok {Value : Type} (value : Value) : orThrow (.ok value) = pure value := rfl

/-- `Interest::wireDecode`, assignment by assignment. The name and the selectors are assigned once
their own decoders have returned. Until the nonce is assigned, it lies in another buffer. -/
def wireDecode (wire : Block) : EStateM Error Members Unit := do
  modify fun members ↦ { members with interest := { members.interest with
    wire := some ⟨wire.wire, none⟩ } }
  let elements ← orThrow (Block.parse wire.value)
  if wire.type ≠ Tlv.interest then
    throw ⟨.tlv, "Unexpected TLV number when decoding Interest"⟩
  let nameBlock ← orThrow (Block.get elements Tlv.name)
  let name ← orThrow (Name.wireDecode nameBlock)
  modify fun members ↦ { members with interest := { members.interest with name := name } }
  let selectors ← orThrow (Block.decodeIfFound (Block.find elements Tlv.selectors) {}
    (Selectors.wireDecode {}))
  modify fun members ↦ { members with interest := { members.interest with selectors := selectors } }
  let nonce ← orThrow (Block.get elements Tlv.nonce)
  modify fun members ↦ { members with interest := { members.interest with
    nonce := some nonce, wire := some ⟨wire.wire, some (nonceOffset wire elements nonce)⟩ } }
  let interestLifetime ← orThrow (Block.decodeIfFound (Block.find elements Tlv.interestLifetime)
    defaultInterestLifetime Block.readInt64)
  modify fun members ↦ { members with interest := { members.interest with
    interestLifetime := interestLifetime } }
  let link := Block.find elements Tlv.data
  modify fun members ↦ { interest := { members.interest with link := link }, looseLink := noBlock }
  let selectedDelegationIndex ← orThrow (Block.decodeIfFound
    (Block.find elements Tlv.selectedDelegation) invalidSelectedDelegationIndex
    (decodeSelectedDelegation link))
  modify fun members ↦ { members with interest := { members.interest with
    selectedDelegationIndex := selectedDelegationIndex } }

def after {Value : Type} (members : Members) (call : EStateM Error Members Value) : Members :=
  match call.run members with
  | .ok _ left => left
  | .error _ left => left

/-- `Interest::wireEncode()`. A stored wire is returned; otherwise the nonce is assigned first, and
the Interest is read back at the end. -/
def wireEncode (members : Members) (random : UInt32) : Members :=
  match members.interest.wire with
  | some _ => members
  | none =>
      let ensured := { members with interest := members.interest.ensureNonce random }
      match wireEncodeInto random members.interest >>= Block.fromWire with
      | .error _ => ensured
      | .ok block => ensured.after (wireDecode block)

end Members

/-- A call about links and delegations, or of the encoder or decoder. -/
inductive LinkCall
  | setLink (link : Block) (hwire : link.IsWire)
  | setLinkWithoutWire (link : Block)
  | unsetLink
  | setSelectedDelegation (delegationName : Name)
  | setSelectedDelegationIndex (delegationIndex : ℕ)
  | unsetSelectedDelegation
  | wireDecode (wire : Block) (hwire : wire.IsWire)
  | wireEncode (random : UInt32)

variable {members : Members} {index : ℕ}

namespace Members

/-- The members after a call, whether it has returned or thrown. -/
def attempt (members : Members) : LinkCall → Members
  | .setLink link _ => { interest := members.interest.setLink link, looseLink := noBlock }
  -- the block is assigned before the check that throws
  | .setLinkWithoutWire link =>
      { interest := { members.interest with link := none }, looseLink := link }
  | .unsetLink => { interest := members.interest.unsetLink, looseLink := noBlock }
  | .setSelectedDelegation delegationName =>
      match members.setSelectedDelegation delegationName with
      | .ok (some next) => next
      | _ => members
  | .setSelectedDelegationIndex delegationIndex =>
      match members.setSelectedDelegationIndex delegationIndex with
      | .ok next => next
      | .error _ => members
  | .unsetSelectedDelegation =>
      { members with interest := members.interest.unsetSelectedDelegation }
  | .wireDecode wire _ => members.after (wireDecode wire)
  | .wireEncode random => members.wireEncode random

/-- A decoding that returns has assigned every member. -/
theorem after_wireDecode {wire : Block} {next : Interest}
    (hdecode : members.interest.wireDecode wire = .ok next) :
    members.after (wireDecode wire) = { interest := next, looseLink := noBlock } := by
  rw [Interest.wireDecode, bind_eq_ok_iff] at hdecode
  obtain ⟨elements, hparse, hdecode⟩ := hdecode
  rw [decodeElements] at hdecode
  split_ifs at hdecode with htype
  simp only [bind_eq_ok_iff] at hdecode
  obtain ⟨nameBlock, hnameBlock, name, hname, selectors, hselectors, nonce, hnonce,
    interestLifetime, hlifetime, index, hindex, hnext⟩ := hdecode
  cases hnext
  have hselectors' : Block.decodeIfFound (Block.find elements Tlv.selectors) {}
      (Selectors.wireDecode {}) = .ok selectors := hselectors
  simp only [after, wireDecode, hparse, orThrow_ok, pure_bind, if_neg htype, hnameBlock, hname,
    hselectors', hnonce, hlifetime, hindex]
  rfl

end Members

/-! ## Links whose two views agree -/

/-- A delegation as the format has it: its first two elements are the preference and the name. -/
def IsDelegation (block : Block) : Prop :=
  block.type = Tlv.linkDelegation ∧ ∃ preference name later,
    Block.parse block.value = .ok (preference :: name :: later) ∧
      preference.type = Tlv.linkPreference ∧ name.type = Tlv.name

/-- A link that an Interest can carry, and whose delegations, if there are any, can be decoded, have
the right format and differ from each other. -/
structure IsSelectable (link : Block) : Prop where
  type : link.type = Tlv.data
  fits : link.wire.length < 2 ^ 32
  delegations : ∀ blocks, Link.delegationsFromWire link = .ok blocks → blocks ≠ [] →
    (∃ decoded, Link.wireDecode {} link = .ok decoded) ∧ (∀ block ∈ blocks, IsDelegation block) ∧
      ∀ read, Link.readDelegations blocks = .ok read → read.Nodup

variable {link : Block} {count : ℕ} {block : Block}

section Link

open Link

variable {blocks : List Block} {read : List (ℕ ×ₗ Name)}

theorem forall₂_of_readDelegations (hread : readDelegations blocks = .ok read) :
    List.Forall₂ (fun block delegation ↦ decodeDelegation block = .ok delegation) blocks read := by
  induction blocks generalizing read with
  | nil =>
    cases hread
    exact List.Forall₂.nil
  | cons block blocks ih =>
    rw [readDelegations, bind_eq_ok_iff] at hread
    obtain ⟨delegation, hdelegation, hread⟩ := hread
    rw [bind_eq_ok_iff] at hread
    obtain ⟨later, hlater, hread⟩ := hread
    cases hread
    exact List.Forall₂.cons hdelegation (ih hlater)

/-- `wireDecode` reads the delegations that the static functions look at. -/
theorem delegationsFromWire_of_wireDecode {decoded : Link}
    (hdecode : Link.wireDecode {} link = .ok decoded) :
    ∃ blocks read, delegationsFromWire link = .ok blocks ∧ readDelegations blocks = .ok read ∧
      decoded.delegations = insertDelegations OrderedMap.empty read := by
  obtain ⟨data, blocks, read, -, -, hblocks, hread, rfl⟩ := wireDecode_eq_ok_iff.mp hdecode
  exact ⟨blocks, read, hblocks, hread, rfl⟩

/-- The set has as many delegations as were read if these differ. -/
theorem length_insertDelegations (hnodup : read.Nodup) :
    (insertDelegations OrderedMap.empty read).entries.length = read.length := by
  have hset : ∀ delegations : DelegationSet, (delegations.entries.map Prod.fst).Nodup := by
    intro delegations
    apply List.pairwise_map.mpr
    exact delegations.sorted.imp fun hlt ↦ hlt.ne
  have hperm : ((insertDelegations OrderedMap.empty read).entries.map Prod.fst).Perm read := by
    apply (List.perm_ext_iff_of_nodup (hset _) hnodup).mpr
    intro delegation
    have hread : (delegation, ()) ∈ insertDelegations OrderedMap.empty read ↔ delegation ∈ read :=
      mem_insertDelegations.trans (or_iff_right (OrderedMap.not_mem_empty _))
    rw [← hread]
    constructor
    · intro hmem
      obtain ⟨⟨key, ⟨⟩⟩, hentry, rfl⟩ := List.mem_map.mp hmem
      exact hentry
    · intro hmem
      exact List.mem_map.mpr ⟨(delegation, ()), hmem, rfl⟩
  rw [← hperm.length_eq, List.length_map]

/-- By position and by type, the same is read of a delegation in the right format. -/
theorem getDelegationFromWire_of_isDelegation {delegation : ℕ ×ₗ Name}
    (hfound : delegationsFromWire link = .ok blocks) (hblock : blocks[index]? = some block)
    (hformat : IsDelegation block) (hread : decodeDelegation block = .ok delegation) :
    getDelegationFromWire link index = .ok (some (ofLex delegation)) := by
  obtain ⟨htype, preference, name, later, hparse, hpreferenceType, hnameType⟩ := hformat
  simp only [decodeDelegation, hparse, bind_eq_ok_iff] at hread
  obtain ⟨elements, helements, hread⟩ := hread
  cases helements
  simp only [bind_eq_ok_iff] at hread
  obtain ⟨number, hnumber, components, hcomponents, hdelegation⟩ := hread
  cases hdelegation
  have hgetPreference : Block.get (preference :: name :: later) Tlv.linkPreference =
      .ok preference := Block.get_eq_ok (by simp [Block.find, hpreferenceType])
  have hgetName : Block.get (preference :: name :: later) Tlv.name = .ok name := by
    apply Block.get_eq_ok
    simp [Block.find, hpreferenceType, hnameType, Tlv.linkPreference, Tlv.name]
  have hpreference : preference.readUInt32 = .ok number := by
    unfold decodePreference at hnumber
    split at hnumber
    · rename_i read hreadable
      rw [hreadable, Except.ok.inj hnumber]
    · cases hnumber
  simp only [getDelegationFromWire, hfound, bind, Except.bind, hblock, hparse, htype, ne_eq,
    not_true_eq_false, if_false, hgetPreference, hgetName, hpreference, hcomponents]
  rfl

end Link

/-- The delegations of a selectable link are those of the decoded link. -/
theorem IsSelectable.exists_delegation (hselectable : IsSelectable link)
    (hcount : Link.countDelegationsFromWire link = .ok count) (hlt : index < count) :
    ∃ decoded delegation, Link.wireDecode {} link = .ok decoded ∧
      decoded.delegations.entries.length = count ∧
      Link.getDelegationFromWire link index = .ok (some (ofLex delegation)) ∧
      (delegation, ()) ∈ decoded.delegations := by
  rw [Link.countDelegationsFromWire, bind_eq_ok_iff] at hcount
  obtain ⟨blocks, hfound, hlength⟩ := hcount
  obtain rfl : blocks.length = count := Except.ok.inj hlength
  obtain ⟨⟨decoded, hdecode⟩, hformat, hnodup⟩ := hselectable.delegations blocks hfound
    (List.ne_nil_of_length_pos (Nat.zero_lt_of_lt hlt))
  obtain ⟨blocks', read, hblocks, hread, hset⟩ := delegationsFromWire_of_wireDecode hdecode
  obtain rfl : blocks = blocks' := Except.ok.inj (hfound.symm.trans hblocks)
  have hpairs := forall₂_of_readDelegations hread
  have hsame : blocks.length = read.length := hpairs.length_eq
  have hindex : index < read.length := hsame ▸ hlt
  have hmember : read[index] ∈ read := List.getElem_mem hindex
  have hpair : Link.decodeDelegation blocks[index] = .ok read[index] :=
    (List.forall₂_iff_get.mp hpairs).2 index hlt hindex
  refine ⟨decoded, read[index], hdecode, ?_, ?_, ?_⟩
  · rw [hset, length_insertDelegations (hnodup read hread), hsame]
  · exact getDelegationFromWire_of_isDelegation hfound (List.getElem?_eq_getElem hlt)
      (hformat _ (List.getElem_mem hlt)) hpair
  · rw [hset]
    exact Link.mem_insertDelegations.mpr (Or.inr hmember)

/-- The set and the wire of a selectable link accept the same indices. -/
theorem IsSelectable.lt_length_iff (hselectable : IsSelectable link) :
    (∃ decoded, Link.wireDecode {} link = .ok decoded ∧
        index < decoded.delegations.entries.length) ↔
      ∃ count, Link.countDelegationsFromWire link = .ok count ∧ index < count := by
  constructor
  · rintro ⟨decoded, hdecode, hlt⟩
    obtain ⟨blocks, read, hfound, hread, hset⟩ := delegationsFromWire_of_wireDecode hdecode
    have hsame : blocks.length = read.length := (forall₂_of_readDelegations hread).length_eq
    have hcount : Link.countDelegationsFromWire link = .ok blocks.length := by
      rw [Link.countDelegationsFromWire, hfound]
      rfl
    refine ⟨blocks.length, hcount, ?_⟩
    by_cases hempty : blocks = []
    · subst hempty
      cases hread
      rw [hset] at hlt
      exact absurd hlt (Nat.not_lt_zero index)
    · have hnodup := (hselectable.delegations blocks hfound hempty).2.2 read hread
      rw [hset, length_insertDelegations hnodup] at hlt
      omega
  · rintro ⟨count, hcount, hlt⟩
    obtain ⟨decoded, delegation, hdecode, hlength, -⟩ := hselectable.exists_delegation hcount hlt
    exact ⟨decoded, hdecode, hlength ▸ hlt⟩

/-! ## Runs -/

/-- A wire that is decoded without throwing, whose link is selectable and whose selectors can be
written again. -/
structure IsAcceptable (wire : Block) : Prop where
  returns : ∃ decoded, Interest.wireDecode {} wire = .ok decoded
  link : ∀ elements link, Block.parse wire.value = .ok elements →
    Block.find elements Tlv.data = some link → IsSelectable link
  selectors : ∀ elements element selectors, Block.parse wire.value = .ok elements →
    Block.find elements Tlv.selectors = some element →
      Selectors.wireDecode {} element = .ok selectors → selectors.IsRewritable

namespace Members

/-- No link without a wire is set, every link is selectable and every decoding returns. -/
def allowed (members : Members) : LinkCall → Prop
  | .setLink link _ => IsSelectable link
  | .setLinkWithoutWire _ => False
  | .wireDecode wire _ => IsAcceptable wire
  | .wireEncode random =>
      ∀ bytes, wireEncodeInto random members.interest = .ok bytes → bytes.length < 2 ^ 64
  | _ => True

/-- An Interest to which no link has been given. -/
structure IsFresh (members : Members) : Prop where
  steady : members.interest.IsSteady
  looseLink : members.looseLink = noBlock
  link : members.interest.link = none
  index : members.interest.hasSelectedDelegation = false
  wire : members.interest.wire = none

/-- The link is selectable and has the selected delegation, and the stored wire is current. -/
structure IsKept (members : Members) : Prop where
  steady : members.interest.IsSteady
  looseLink : members.looseLink = noBlock
  link : ∀ link ∈ members.interest.link, IsSelectable link ∧ link.IsWire
  selected : members.interest.hasSelectedDelegation = true →
    ∃ link ∈ members.interest.link, ∃ count, Link.countDelegationsFromWire link = .ok count ∧
      members.interest.selectedDelegationIndex < count
  synced : members.interest.IsSynced

theorem IsFresh.isKept (hfresh : members.IsFresh) : members.IsKept where
  steady := hfresh.steady
  looseLink := hfresh.looseLink
  link := by simp [hfresh.link]
  selected := by simp [hfresh.index]
  synced := isSynced_of_wire_eq_none hfresh.wire

/-- Delegations are counted in a link that has been set. -/
theorem link_of_countDelegationsFromWire (hloose : members.looseLink = noBlock)
    (hcount : Link.countDelegationsFromWire members.link = .ok count) :
    ∃ link ∈ members.interest.link, members.link = link := by
  cases hlink : members.interest.link with
  | some link => exact ⟨link, rfl, by simp [Members.link, hlink]⟩
  | none =>
    rw [Members.link, hlink, Option.getD_none, hloose] at hcount
    cases hcount

end Members

/-! ### Indices -/

theorem length_value_le (hwire : block.IsWire) : block.value.length ≤ block.wire.length := by
  obtain ⟨header, hsplit, -⟩ := hwire.exists_header
  rw [hsplit, List.length_append]
  omega

/-- No element is without a byte. -/
theorem length_le_of_parse {value : Bytes} {elements : List Block}
    (hparse : Block.parse value = .ok elements) : elements.length ≤ value.length := by
  obtain ⟨hvalue, hwires⟩ := Block.parse_eq_ok_iff.mp hparse
  have hpositive : ∀ length ∈ elements.map fun element ↦ element.wire.length, 1 ≤ length := by
    intro length hmem
    obtain ⟨element, helement, rfl⟩ := List.mem_map.mp hmem
    exact List.length_pos_of_ne_nil (hwires element helement).wire_ne_nil
  have hle := List.length_le_sum_of_one_le _ hpositive
  rwa [List.length_map, ← List.length_flatMap, ← hvalue] at hle

/-- A link has fewer delegations than bytes. -/
theorem countDelegationsFromWire_le (hwire : link.IsWire)
    (hcount : Link.countDelegationsFromWire link = .ok count) : count ≤ link.wire.length := by
  rw [Link.countDelegationsFromWire, bind_eq_ok_iff] at hcount
  obtain ⟨blocks, hblocks, hlength⟩ := hcount
  cases hlength
  rw [Link.delegationsFromWire, bind_eq_ok_iff] at hblocks
  obtain ⟨elements, hparse, hblocks⟩ := hblocks
  rw [bind_eq_ok_iff] at hblocks
  obtain ⟨content, hcontent, hblocks⟩ := hblocks
  obtain ⟨hvalue, hwires⟩ := Block.parse_eq_ok_iff.mp hparse
  have hmem : content ∈ elements := (Block.mem_of_get hcontent).1
  have hinside : content.wire.length ≤ link.value.length := by
    have hsublist := (List.singleton_sublist.mpr hmem).flatMap Block.wire
    rw [List.flatMap_singleton, ← hvalue] at hsublist
    exact hsublist.length_le
  calc blocks.length
    _ ≤ content.value.length := length_le_of_parse hblocks
    _ ≤ content.wire.length := length_value_le (hwires content hmem)
    _ ≤ link.value.length := hinside
    _ ≤ link.wire.length := length_value_le hwire

theorem exists_count_of_decodeSelectedDelegation {link : Option Block} {element : Block}
    (hread : decodeSelectedDelegation link element = .ok index) :
    ∃ found ∈ link, ∃ count, Link.countDelegationsFromWire found = .ok count ∧ index < count := by
  cases link with
  | none => cases hread
  | some link =>
    simp only [decodeSelectedDelegation, bind_eq_ok_iff] at hread
    obtain ⟨number, -, count, hcount, hread⟩ := hread
    split_ifs at hread with hlt
    cases hread
    exact ⟨link, rfl, count, hcount, hlt⟩

/-! ### Steps -/

namespace Members

theorem IsKept.index_lt (hkept : members.IsKept) :
    members.interest.selectedDelegationIndex < 2 ^ 64 := by
  by_cases hselected : members.interest.hasSelectedDelegation = true
  · obtain ⟨link, hlink, count, hcount, hlt⟩ := hkept.selected hselected
    obtain ⟨hselectable, hwire⟩ := hkept.link link hlink
    have hle := countDelegationsFromWire_le hwire hcount
    have hfits := hselectable.fits
    omega
  · have hinvalid : members.interest.selectedDelegationIndex = invalidSelectedDelegationIndex := by
      simpa [hasSelectedDelegation] using hselected
    rw [hinvalid]
    decide

variable {random : UInt32} {bytes : Bytes}

section

variable (hkept : members.IsKept)
include hkept

/-- An Interest that the encoder accepts can be read again. -/
theorem IsKept.isEncodable (hwritten : wireEncodeInto random members.interest = .ok bytes) :
    members.interest.IsEncodable := by
  apply hkept.steady.isEncodable hwritten _ hkept.index_lt hkept.selected
  intro link hlink
  obtain ⟨hselectable, hwire⟩ := hkept.link link hlink
  exact ⟨hselectable.type, hwire, hselectable.fits⟩

theorem IsKept.of_index (hcount : Link.countDelegationsFromWire members.link = .ok count)
    (hlt : index < count) :
    IsKept { members with interest := { members.interest with
      selectedDelegationIndex := index, wire := none } } where
  steady := ⟨hkept.steady.name, hkept.steady.selectors, hkept.steady.nonce,
    hkept.steady.interestLifetime⟩
  looseLink := hkept.looseLink
  link := hkept.link
  selected := by
    intro _
    obtain ⟨link, hlink, hsame⟩ := link_of_countDelegationsFromWire hkept.looseLink hcount
    exact ⟨link, hlink, count, hsame ▸ hcount, hlt⟩
  synced := isSynced_of_wire_eq_none rfl

variable {next : Members}

theorem isKept_setSelectedDelegation {delegationName : Name}
    (hset : members.setSelectedDelegation delegationName = .ok (some next)) : next.IsKept := by
  rw [setSelectedDelegation, bind_eq_ok_iff] at hset
  obtain ⟨found, hfound, hset⟩ := hset
  obtain ⟨index, rfl, rfl⟩ := Option.map_eq_some_iff.mp (Except.ok.inj hset)
  obtain ⟨count, hcount, hlt⟩ := Link.lt_countDelegationsFromWire hfound
  exact hkept.of_index hcount hlt

/-- The index is accepted by the decoded link just when the wire of a link has it. -/
theorem IsKept.setSelectedDelegationIndex_iff :
    (∃ next, members.setSelectedDelegationIndex index = .ok next) ↔ members.hasLink = true ∧
      ∃ count, Link.countDelegationsFromWire members.link = .ok count ∧ index < count := by
  have haccepted : (∃ next, members.setSelectedDelegationIndex index = .ok next) ↔
      ∃ decoded, Link.wireDecode {} members.link = .ok decoded ∧
        index < decoded.delegations.entries.length := by
    constructor
    · rintro ⟨next, hset⟩
      rw [Members.setSelectedDelegationIndex, bind_eq_ok_iff] at hset
      obtain ⟨decoded, hdecoded, hset⟩ := hset
      split_ifs at hset with hrange
      exact ⟨decoded, hdecoded, Nat.not_le.mp hrange⟩
    · rintro ⟨decoded, hdecoded, hlt⟩
      simp only [Members.setSelectedDelegationIndex, bind_eq_ok_iff]
      exact ⟨_, decoded, hdecoded, if_neg (Nat.not_le.mpr hlt)⟩
  rw [haccepted]
  cases hlink : members.interest.link with
  | none =>
    have hnone : members.link = noBlock := by simp [Members.link, hlink, hkept.looseLink]
    have hrefused : ¬ ∃ decoded, Link.wireDecode {} members.link = .ok decoded := by
      rintro ⟨decoded, hdecoded⟩
      obtain ⟨blocks, -, hblocks, -⟩ := delegationsFromWire_of_wireDecode hdecoded
      rw [hnone] at hblocks
      cases hblocks
    simp only [hasLink, hlink, Option.isSome_none, Bool.false_eq_true, false_and, iff_false]
    rintro ⟨decoded, hdecoded, -⟩
    exact hrefused ⟨decoded, hdecoded⟩
  | some link =>
    have hsame : members.link = link := by simp [Members.link, hlink]
    obtain ⟨hselectable, -⟩ := hkept.link link hlink
    simp only [hasLink, hlink, Option.isSome_some, true_and, hsame]
    exact hselectable.lt_length_iff

theorem isKept_setSelectedDelegationIndex
    (hset : members.setSelectedDelegationIndex index = .ok next) : next.IsKept := by
  obtain ⟨-, count, hcount, hlt⟩ := hkept.setSelectedDelegationIndex_iff.mp ⟨next, hset⟩
  rw [Members.setSelectedDelegationIndex, bind_eq_ok_iff] at hset
  obtain ⟨decoded, -, hset⟩ := hset
  split_ifs at hset with hrange
  cases hset
  exact hkept.of_index hcount hlt

end

theorem isKept_wireDecode {wire : Block} (hwire : wire.IsWire) (hacceptable : IsAcceptable wire) :
    (members.after (wireDecode wire)).IsKept := by
  obtain ⟨decoded, hdecode⟩ := hacceptable.returns
  have hread : members.interest.wireDecode wire = .ok decoded :=
    (wireDecode_eq_wireDecode _ _ wire).trans hdecode
  rw [after_wireDecode hread]
  obtain ⟨elements, nonce, hparse, -, hselectors, -, -, -, hlink, hindex⟩ :=
    wireDecode_cases hdecode
  have hrewritable : decoded.selectors.IsRewritable :=
    Block.decodeIfFound_rule Selectors.IsRewritable hselectors Selectors.isRewritable_default
      fun element selectors hfind hselectors' ↦
        hacceptable.selectors elements element selectors hparse hfind hselectors'
  exact {
    steady := isSteady_of_wireDecode hdecode hrewritable
    looseLink := rfl
    link := by
      intro link hmem
      have hfind : Block.find elements Tlv.data = some link := hlink.symm.trans hmem
      exact ⟨hacceptable.link elements link hparse hfind,
        (Block.parse_eq_ok_iff.mp hparse).2 link (Block.mem_of_find hfind).1⟩
    selected := by
      intro hselected
      have hne : decoded.selectedDelegationIndex ≠ invalidSelectedDelegationIndex := by
        simpa [hasSelectedDelegation] using hselected
      revert hne
      exact Block.decodeIfFound_rule (fun index ↦ index ≠ invalidSelectedDelegationIndex →
        ∃ link ∈ decoded.link, ∃ count, Link.countDelegationsFromWire link = .ok count ∧
          index < count) hindex (fun hne ↦ absurd rfl hne)
        fun element index _ hread _ ↦ exists_count_of_decodeSelectedDelegation hread
    synced := isSynced_of_wireDecode hwire hread }

section

variable (hkept : members.IsKept)
include hkept

/-- The assignment that `wireEncode` begins with. -/
theorem isKept_ensureNonce (random : UInt32) (hnone : members.interest.wire = none) :
    IsKept { members with interest := members.interest.ensureNonce random } := by
  unfold ensureNonce
  split_ifs with hsome
  · exact hkept
  · have hset : members.interest.setNonce random =
        { members.interest with nonce := some (nonceBlock random), wire := none } := by
      simp [setNonce, hnone]
    rw [hset]
    have hblock : (nonceBlock random).IsWire := Block.ofValue_isWire (by decide) (by simp)
    exact {
      steady := ⟨hkept.steady.name, hkept.steady.selectors,
        fun nonce hnonce ↦ Option.some.inj hnonce ▸ ⟨rfl, hblock⟩, hkept.steady.interestLifetime⟩
      looseLink := hkept.looseLink
      link := hkept.link
      selected := hkept.selected
      synced := isSynced_of_wire_eq_none rfl }

/-- Where the encoder returns, it has written the Interest in a form that can be read again. -/
theorem IsKept.toBlock_spec (hwritten : wireEncodeInto random members.interest = .ok bytes)
    (hshort : bytes.length < 2 ^ 64) : members.interest.IsEncodable ∧
      bytes = (members.interest.toBlock random).wire ∧
        (members.interest.toBlock random).wire.length < 2 ^ 64 := by
  have hencodable := hkept.isEncodable hwritten
  have hbytes : bytes = (members.interest.toBlock random).wire :=
    Except.ok.inj (hwritten.symm.trans (wireEncodeInto_eq hencodable.isWritable))
  exact ⟨hencodable, hbytes, hbytes ▸ hshort⟩

theorem isKept_wireEncode
    (hshort : ∀ bytes, wireEncodeInto random members.interest = .ok bytes → bytes.length < 2 ^ 64) :
    (members.wireEncode random).IsKept := by
  unfold Members.wireEncode
  cases hstored : members.interest.wire with
  | some shared => exact hkept
  | none =>
    have hensured := isKept_ensureNonce hkept random hstored
    dsimp only
    split
    · exact hensured
    · rename_i block hwritten
      obtain ⟨bytes, hwritten, hblock⟩ := bind_eq_ok_iff.mp hwritten
      obtain ⟨hencodable, rfl, hsize⟩ := hkept.toBlock_spec hwritten (hshort bytes hwritten)
      have hread : Block.fromWire (members.interest.toBlock random).wire =
          .ok (members.interest.toBlock random) := Block.fromWire_ofElements (by decide) hsize
      obtain rfl : members.interest.toBlock random = block :=
        Except.ok.inj (hread.symm.trans hblock)
      have hdecode : (members.interest.ensureNonce random).wireDecode
          (members.interest.toBlock random) = .ok (members.interest.reread random) :=
        wireDecode_toBlock hencodable _ hsize
      have hrewritable : (members.interest.reread random).selectors.IsRewritable := by
        unfold reread
        cases members.interest.selectors.isEmpty with
        | true => exact Selectors.isRewritable_default
        | false => exact Selectors.isRewritable_reread hkept.steady.selectors.rewritable
      have hindex : (members.interest.reread random).selectedDelegationIndex =
          members.interest.selectedDelegationIndex :=
        (carries_reread hencodable).selectedDelegationIndex
      have hafter : Members.after { members with
          interest := members.interest.ensureNonce random }
            (wireDecode (members.interest.toBlock random)) =
          { interest := members.interest.reread random, looseLink := noBlock } :=
        after_wireDecode hdecode
      rw [hafter]
      exact {
        steady := isSteady_of_wireDecode hdecode hrewritable
        looseLink := rfl
        link := hkept.link
        selected := by
          intro hselected
          rw [hasSelectedDelegation, hindex] at hselected
          rw [hindex]
          exact hkept.selected hselected
        synced := isSynced_of_wireDecode (Block.fromWire_eq_ok_iff.mp hread).2 hdecode }

/-- Without a selected delegation, any selectable link will do. -/
theorem IsKept.of_link {link : Option Block}
    (hlink : ∀ found ∈ link, IsSelectable found ∧ found.IsWire) :
    IsKept { members with interest := { members.interest with
      link := link, selectedDelegationIndex := invalidSelectedDelegationIndex, wire := none } } where
  steady := ⟨hkept.steady.name, hkept.steady.selectors, hkept.steady.nonce,
    hkept.steady.interestLifetime⟩
  looseLink := hkept.looseLink
  link := hlink
  selected := by simp [hasSelectedDelegation]
  synced := isSynced_of_wire_eq_none rfl

/-- What every call preserves. -/
theorem isKept_attempt {call : LinkCall} (hallowed : members.allowed call) :
    (members.attempt call).IsKept := by
  have hloose : noBlock = members.looseLink := hkept.looseLink.symm
  cases call with
  | setLink link hwire =>
    simp only [attempt, hloose]
    exact hkept.of_link fun found hfound ↦ Option.some.inj hfound ▸ ⟨hallowed, hwire⟩
  | setLinkWithoutWire link => exact hallowed.elim
  | unsetLink =>
    simp only [attempt, hloose]
    apply hkept.of_link
    simp
  | setSelectedDelegation delegationName =>
    simp only [attempt]
    split
    · rename_i next hset
      exact isKept_setSelectedDelegation hkept hset
    · exact hkept
  | setSelectedDelegationIndex delegationIndex =>
    simp only [attempt]
    split
    · rename_i next hset
      exact isKept_setSelectedDelegationIndex hkept hset
    · exact hkept
  | unsetSelectedDelegation => exact hkept.of_link hkept.link
  | wireDecode wire hwire => exact isKept_wireDecode hwire hallowed
  | wireEncode random => exact isKept_wireEncode hkept hallowed

end

/-! ### Consistency -/

/-- The getters, the setter of an index, the encoder and the decoder agree on the link and on its
delegations. -/
structure IsConsistent (members : Members) : Prop where
  selected : members.interest.hasSelectedDelegation = true → members.hasLink = true ∧
    ∃ decoded delegation, Link.wireDecode {} members.link = .ok decoded ∧
      (delegation, ()) ∈ decoded.delegations ∧
        members.getSelectedDelegation = .ok (some (ofLex delegation).2)
  accepted : ∀ index, (∃ next, members.setSelectedDelegationIndex index = .ok next) ↔
    members.hasLink = true ∧
      ∃ count, Link.countDelegationsFromWire members.link = .ok count ∧ index < count
  encoded : ∀ random, (members.interest.wire.isSome = true ∨
      ∃ bytes, wireEncodeInto random members.interest = .ok bytes ∧ bytes.length < 2 ^ 64) →
    ∃ wire next block, members.interest.wireEncode random = .ok (wire, next) ∧
      Block.fromWire wire = .ok block ∧
        ∀ prior : Interest, ∃ decoded, prior.wireDecode block = .ok decoded ∧
          decoded.link = members.interest.link ∧
            decoded.selectedDelegationIndex = members.interest.selectedDelegationIndex

theorem IsKept.getSelectedDelegation_spec (hkept : members.IsKept)
    (hselected : members.interest.hasSelectedDelegation = true) : members.hasLink = true ∧
      ∃ decoded delegation, Link.wireDecode {} members.link = .ok decoded ∧
        (delegation, ()) ∈ decoded.delegations ∧
          members.getSelectedDelegation = .ok (some (ofLex delegation).2) := by
  obtain ⟨link, hlink, count, hcount, hlt⟩ := hkept.selected hselected
  obtain ⟨hselectable, -⟩ := hkept.link link hlink
  obtain ⟨decoded, delegation, hdecode, -, hget, hmem⟩ := hselectable.exists_delegation hcount hlt
  have hsome : members.interest.link = some link := hlink
  have hsame : members.link = link := by simp [Members.link, hsome]
  refine ⟨by simp [hasLink, hsome], decoded, delegation, hsame ▸ hdecode, hmem, ?_⟩
  simp [Members.getSelectedDelegation, hselected, hsame, hget, bind, Except.bind, pure, Except.pure]

theorem IsKept.wireDecode_wireEncode_spec (hkept : members.IsKept)
    (hencode : members.interest.wire.isSome = true ∨
      ∃ bytes, wireEncodeInto random members.interest = .ok bytes ∧ bytes.length < 2 ^ 64) :
    ∃ wire next block, members.interest.wireEncode random = .ok (wire, next) ∧
      Block.fromWire wire = .ok block ∧
        ∀ prior : Interest, ∃ decoded, prior.wireDecode block = .ok decoded ∧
          decoded.link = members.interest.link ∧
            decoded.selectedDelegationIndex = members.interest.selectedDelegationIndex := by
  cases hstored : members.interest.wire with
  | some shared =>
    obtain ⟨block, hblock, hbytes, hread⟩ := hkept.synced shared hstored
    obtain ⟨nonce, hnonce⟩ := hread.exists_nonce
    refine ⟨shared.bytes, members.interest, block, wireEncode_of_stored hstored,
      Block.fromWire_eq_ok_iff.mpr ⟨hbytes, hblock⟩, fun prior ↦ ?_⟩
    obtain ⟨decoded, hdecode, hcarries⟩ := carries_of_isReadFrom hread hnonce prior
    exact ⟨decoded, hdecode, hcarries.link, hcarries.selectedDelegationIndex⟩
  | none =>
    rw [hstored] at hencode
    obtain ⟨bytes, hwritten, hshort⟩ := hencode.resolve_left (by simp)
    obtain ⟨hencodable, -, hsize⟩ := hkept.toBlock_spec hwritten hshort
    exact ⟨_, _, _, wireEncode_of_isEncodable hstored hencodable hsize,
      Block.fromWire_ofElements (by decide) hsize, fun prior ↦
        ⟨_, wireDecode_toBlock hencodable prior hsize, rfl,
          (carries_reread hencodable).selectedDelegationIndex⟩⟩

/-- After any calls, among them some that throw, the members are consistent, as long as no link
without a wire is set, every link is selectable and every decoding returns. -/
theorem isConsistent_of_guarded {start finish : Members} {calls : List LinkCall}
    (hfresh : start.IsFresh)
    (hguarded : Run.Guarded (fun members call ↦ some (attempt members call)) allowed start calls)
    (hrun : Run.run (fun members call ↦ some (attempt members call)) start calls = some finish) :
    finish.IsConsistent := by
  have hkept : finish.IsKept := by
    apply Run.invariant_of_guarded (fun _ members ↦ members.IsKept) _ hfresh.isKept hguarded hrun
    intro past members call next hkept hallowed hnext
    exact Option.some.inj hnext ▸ isKept_attempt hkept hallowed
  exact ⟨hkept.getSelectedDelegation_spec, fun _ ↦ hkept.setSelectedDelegationIndex_iff,
    fun _ ↦ hkept.wireDecode_wireEncode_spec⟩

def sampleLink (delegations : Bytes) : Block :=
  Block.ofValue Tlv.data ([7, 0, 20, 3, 24, 1, 1] ++
    Tlv.prependByteArrayBlock Tlv.content delegations ++ [22, 3, 27, 1, 0])

def sampleDelegation : Bytes := [31, 8, 30, 1, 1, 7, 3, 8, 1, 65]

theorem isWire_sampleLink : (sampleLink sampleDelegation).IsWire := by decide

theorem isSelectable_sampleLink : IsSelectable (sampleLink sampleDelegation) where
  type := rfl
  fits := by decide
  delegations := by
    intro blocks hblocks _
    have hread : Link.delegationsFromWire (sampleLink sampleDelegation) =
        .ok [Block.ofValue Tlv.linkDelegation [30, 1, 1, 7, 3, 8, 1, 65]] := rfl
    obtain rfl := Except.ok.inj (hread.symm.trans hblocks)
    refine ⟨⟨_, rfl⟩, ?_, ?_⟩
    · intro block hmem
      obtain rfl := List.mem_singleton.mp hmem
      exact ⟨rfl, _, _, _, rfl, rfl, rfl⟩
    · rintro read ⟨⟩
      exact List.nodup_singleton _

theorem isConsistent_of_guarded_sampleLink :
    ∃ start finish calls, IsFresh start ∧
      Run.Guarded (fun members call ↦ some (attempt members call)) allowed start calls ∧
      Run.run (fun members call ↦ some (attempt members call)) start calls = some finish ∧
      finish.interest.hasSelectedDelegation = true ∧ finish.IsConsistent := by
  have hfresh : IsFresh {} := {
    steady := ⟨by simp [Name.IsWellFormed], ⟨by decide, by decide, by decide, Or.inr trivial,
      fun entry hentry ↦ absurd hentry (OrderedMap.not_mem_empty entry),
      Selectors.isRewritable_default⟩, by simp, by decide⟩
    looseLink := rfl
    link := rfl
    index := rfl
    wire := rfl }
  let selected : Members := { interest := {
    link := some (sampleLink sampleDelegation), selectedDelegationIndex := 0 } }
  let calls : List LinkCall := [.setLink _ isWire_sampleLink, .setSelectedDelegationIndex 1,
    .setSelectedDelegationIndex 0, .wireEncode 7]
  have hshort : ∀ bytes, wireEncodeInto 7 selected.interest = .ok bytes →
      bytes.length < 2 ^ 64 := by
    rintro bytes ⟨⟩
    decide
  have hguarded : Run.Guarded (fun members call ↦ some (attempt members call)) allowed {} calls := by
    refine ⟨isSelectable_sampleLink, ?_⟩
    rintro next ⟨⟩
    refine ⟨trivial, ?_⟩
    rintro next ⟨⟩
    refine ⟨trivial, ?_⟩
    rintro next ⟨⟩
    exact ⟨hshort, fun next _ ↦ trivial⟩
  have hrun : Run.run (fun members call ↦ some (attempt members call)) {} calls =
      some (selected.wireEncode 7) := rfl
  have hselected : (selected.wireEncode 7).interest.hasSelectedDelegation = true := by decide
  exact ⟨{}, _, calls, hfresh, hguarded, hrun, hselected,
    isConsistent_of_guarded hfresh hguarded hrun⟩

/-- A block without a wire takes the place of the link that has the selected delegation; of two equal
delegations the second one is not accepted; a wire that is not that of an Interest is returned by the
encoder. -/
theorem not_isConsistent_of_setLink :
    (∃ finish, Run.run (fun members call ↦ some (attempt members call)) {}
        [.setLink (sampleLink sampleDelegation) (by decide), .setSelectedDelegationIndex 0,
          .setLinkWithoutWire ⟨Tlv.data, [], []⟩] = some finish ∧
      finish.interest.hasSelectedDelegation = true ∧ finish.hasLink = false ∧
      ¬ finish.IsConsistent) ∧
    (∃ finish, Run.run (fun members call ↦ some (attempt members call)) {}
        [.setLink (sampleLink (sampleDelegation ++ sampleDelegation)) (by decide)] = some finish ∧
      Link.countDelegationsFromWire finish.link = .ok 2 ∧
      finish.setSelectedDelegationIndex 1 = .error ⟨.tlv, "Invalid selected delegation index"⟩ ∧
      ¬ finish.IsConsistent) ∧
    ∃ finish, Run.run (fun members call ↦ some (attempt members call)) {}
        [.wireDecode ⟨6, [], [6, 0]⟩ (by decide)] = some finish ∧
      finish.interest.wireEncode 7 = .ok ([6, 0], finish.interest) ∧
      Interest.wireDecode {} ⟨6, [], [6, 0]⟩ =
        .error ⟨.tlv, "Unexpected TLV number when decoding Interest"⟩ ∧
      ¬ finish.IsConsistent := by
  refine ⟨⟨_, rfl, rfl, rfl, ?_⟩, ⟨_, rfl, rfl, rfl, ?_⟩, ⟨_, rfl, rfl, rfl, ?_⟩⟩
  · intro hconsistent
    exact absurd (hconsistent.selected rfl).1 (by decide)
  · intro hconsistent
    obtain ⟨next, hnext⟩ := (hconsistent.accepted 1).mpr ⟨rfl, 2, rfl, by decide⟩
    cases hnext
  · intro hconsistent
    obtain ⟨wire, next, block, hwire, hblock, hdecode⟩ := hconsistent.encoded 7 (Or.inl rfl)
    cases hwire
    cases hblock
    obtain ⟨decoded, hdecoded, -⟩ := hdecode {}
    cases hdecoded

end Members

end NdnCxx.Packet.Interest
