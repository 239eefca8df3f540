import NdnCxx.Packet.DataWire
import NdnCxx.Foundation.OrderedMap
import Mathlib.Data.Prod.Lex

/-!
# Link objects

A `Link` is a Data packet whose content lists delegations. The static functions look into the wire of
a link without building the object, and count what stands there; the object keeps a set of
delegations ordered by preference and name, into which `wireDecode` inserts those that it reads.
-/

namespace NdnCxx

/-- `Name::Name(const Block&)`; unlike `wireDecode` it does not look at the type. -/
def Name.ofBlock (wire : Block) : Except Error Name := do
  return (← Block.parse wire.value).map fun element ↦ ⟨element.type, element.value⟩

namespace Packet

abbrev DelegationSet := OrderedMap (ℕ ×ₗ Name) Unit fun first second ↦ first < second

/-- `Link`, a `Data` with delegations -/
structure Link where
  data : Data := {}
  delegations : DelegationSet := OrderedMap.empty

namespace Link

/-- The preference of a delegation. The reader throws only what derives from `tlv::Error`. -/
def decodePreference (element : Block) : Except Error ℕ :=
  match element.readUInt32 with
  | .ok preference => .ok preference
  | .error _ => .error ⟨.tlv, "Missing Preference field in Link Encoding"⟩

/-- One round of the loop of `decodeContent`. -/
def decodeDelegation (delegation : Block) : Except Error (ℕ ×ₗ Name) := do
  match ← Block.parse delegation.value with
  | [] => throw ⟨.tlv, "Unexpected Link Encoding"⟩
  | first :: rest =>
      let preference ← decodePreference first
      match rest with
      | [] => throw ⟨.tlv, "Missing Name field in Link Encoding"⟩
      | second :: _ => return toLex (preference, ← Name.ofBlock second)

/-- The delegations that the loop of `decodeContent` reads, in the order of the wire. -/
def readDelegations : List Block → Except Error (List (ℕ ×ₗ Name))
  | [] => .ok []
  | delegation :: later => do
      let decoded ← decodeDelegation delegation
      return decoded :: (← readDelegations later)

def insertDelegations (delegations : DelegationSet) (decoded : List (ℕ ×ₗ Name)) : DelegationSet :=
  decoded.foldl (fun inserted delegation ↦ inserted.insert delegation ()) delegations

def decodeContent (link : Link) : Except Error Link :=
  if link.data.metaInfo.type ≠ Tlv.contentTypeLink then
    throw ⟨.tlv, "Expected Content Type Link"⟩
  else do
    let content ← link.data.getContent
    let decoded ← readDelegations (← Block.parse content.value)
    return { link with delegations := insertDelegations link.delegations decoded }

def wireDecode (link : Link) (wire : Block) : Except Error Link := do
  let data ← link.data.wireDecode wire
  decodeContent { link with data := data }

/-! ## Changing the delegations -/

/-- `Link::Link()`; the content of `Data::Data()` is a block without a value -/
def make : Link := { data := { content := ⟨Tlv.content, .empty, []⟩ } }

def ofName (name : Name) : Link := { data := { name := name } }

/-- What the loop of `encodeContent` prepends for one delegation. -/
def prependDelegation (delegation : ℕ ×ₗ Name) : Bytes :=
  Tlv.prependByteArrayBlock Tlv.linkDelegation
    (Block.prependNonNegativeIntegerBlock Tlv.linkPreference (ofLex delegation).1 ++
      (ofLex delegation).2.wireEncode)

def encodeContentInto (link : Link) : Bytes :=
  Tlv.prependByteArrayBlock Tlv.content
    (link.delegations.entries.reverse.foldl
      (fun written entry ↦ prependDelegation entry.1 ++ written) [])

def encodeContent (link : Link) : Except Error Link := do
  let buffer ← Block.fromWire link.encodeContentInto
  let typed := link.data.onChanged.setContentType Tlv.contentTypeLink
  return { link with data := ← typed.setContent buffer.toUnencoded }

/-- Whether a delegation has the name, which is what `operator==` says. -/
def hasName (name : Name) (delegation : ℕ ×ₗ Name) : Bool := (ofLex delegation).2.equals name

def removeDelegationNoEncode (link : Link) (name : Name) : Bool × Link :=
  (link.delegations.entries.any fun entry ↦ hasName name entry.1,
    { link with delegations := link.delegations.eraseIf (hasName name) })

def addDelegation (link : Link) (preference : UInt32) (name : Name) : Except Error Link :=
  let (_, removed) := link.removeDelegationNoEncode name
  encodeContent { removed with
    delegations := removed.delegations.insert (toLex (preference.toNat, name)) () }

def removeDelegation (link : Link) (name : Name) : Except Error (Bool × Link) := do
  let (hasRemovedDelegation, removed) := link.removeDelegationNoEncode name
  if hasRemovedDelegation then return (hasRemovedDelegation, ← removed.encodeContent)
  else return (hasRemovedDelegation, removed)

/-! ## Looking into the wire of a link -/

def delegationsFromWire (block : Block) : Except Error (List Block) := do
  let contentBlock ← Block.get (← Block.parse block.value) Tlv.content
  Block.parse contentBlock.value

def countDelegationsFromWire (block : Block) : Except Error ℕ := do
  return (← delegationsFromWire block).length

/-- `Link::getDelegationFromWire`; `none` is the `std::out_of_range` of a block that is not there. -/
def getDelegationFromWire (block : Block) (index : ℕ) : Except Error (Option (ℕ × Name)) := do
  match (← delegationsFromWire block)[index]? with
  | none => return none
  | some delegationBlock =>
      let elements ← Block.parse delegationBlock.value
      if delegationBlock.type ≠ Tlv.linkDelegation then
        throw ⟨.tlv, "Unexpected TLV-TYPE, expecting LinkDelegation"⟩
      else
        let preference ← (← Block.get elements Tlv.linkPreference).readUInt32
        let name ← Name.ofBlock (← Block.get elements Tlv.name)
        return some (preference, name)

def findDelegationLoop (delegationName : Name) : ℕ → List Block → Except Error (Option ℕ)
  | _, [] => .ok none
  | counter, delegationBlock :: later => do
      let elements ← Block.parse delegationBlock.value
      if delegationBlock.type ≠ Tlv.linkDelegation then
        throw ⟨.tlv, "Unexpected TLV-TYPE, expecting LinkDelegation"⟩
      else
        let name ← Name.ofBlock (← Block.get elements Tlv.name)
        if name.equals delegationName then return some counter
        else findDelegationLoop delegationName (counter + 1) later

/-- `Link::findDelegationFromWire`; `none` is `INVALID_SELECTED_DELEGATION_INDEX`. -/
def findDelegationFromWire (block : Block) (delegationName : Name) : Except Error (Option ℕ) := do
  findDelegationLoop delegationName 0 (← delegationsFromWire block)

variable {delegationName : Name}

theorem lt_of_findDelegationLoop {counter found : ℕ} {blocks : List Block}
    (hfind : findDelegationLoop delegationName counter blocks = .ok (some found)) :
    found < counter + blocks.length := by
  induction blocks generalizing counter with
  | nil => simp [findDelegationLoop] at hfind
  | cons delegationBlock later ih =>
    rw [findDelegationLoop, bind_eq_ok_iff] at hfind
    obtain ⟨elements, -, hfind⟩ := hfind
    split_ifs at hfind with htype
    rw [bind_eq_ok_iff] at hfind
    obtain ⟨element, -, hfind⟩ := hfind
    rw [bind_eq_ok_iff] at hfind
    obtain ⟨name, -, hfind⟩ := hfind
    rw [List.length_cons]
    split_ifs at hfind with hequal
    · cases hfind
      omega
    · have hlater := ih hfind
      omega

variable {block : Block}

/-- A delegation that is found is among those that are counted. -/
theorem lt_countDelegationsFromWire {found : ℕ}
    (hfind : findDelegationFromWire block delegationName = .ok (some found)) :
    ∃ count, countDelegationsFromWire block = .ok count ∧ found < count := by
  rw [findDelegationFromWire, bind_eq_ok_iff] at hfind
  obtain ⟨blocks, hblocks, hfind⟩ := hfind
  refine ⟨blocks.length, ?_, ?_⟩
  · rw [countDelegationsFromWire, hblocks]
    rfl
  · simpa using lt_of_findDelegationLoop hfind

/-! ## Decoding -/

theorem mem_insertDelegations {delegations : DelegationSet} {decoded : List (ℕ ×ₗ Name)}
    {delegation : ℕ ×ₗ Name} : (delegation, ()) ∈ insertDelegations delegations decoded ↔
      (delegation, ()) ∈ delegations ∨ delegation ∈ decoded := by
  induction decoded generalizing delegations with
  | nil => simp [insertDelegations]
  | cons first decoded ih =>
    have hstep : insertDelegations delegations (first :: decoded) =
        insertDelegations (delegations.insert first ()) decoded := rfl
    rw [hstep, ih, OrderedMap.mem_insert, List.mem_cons]
    constructor
    · rintro ((hold | ⟨heq, -⟩) | hlater)
      · exact Or.inl hold
      · exact Or.inr (Or.inl (congrArg Prod.fst heq))
      · exact Or.inr (Or.inr hlater)
    · rintro (hold | rfl | hlater)
      · exact Or.inl (Or.inl hold)
      · by_cases hpresent : ∀ old ∈ delegations, old.1 ≠ delegation
        · exact Or.inl (Or.inr ⟨rfl, hpresent⟩)
        · push Not at hpresent
          obtain ⟨old, hold, rfl⟩ := hpresent
          exact Or.inl (Or.inl hold)
      · exact Or.inr hlater

/-- The object reads the delegations that the static functions look at, and inserts them into the set
that is there already. -/
theorem wireDecode_eq_ok_iff {prior link : Link} :
    prior.wireDecode block = .ok link ↔
      ∃ data blocks decoded, prior.data.wireDecode block = .ok data ∧
        data.metaInfo.type = Tlv.contentTypeLink ∧ delegationsFromWire block = .ok blocks ∧
        readDelegations blocks = .ok decoded ∧
        link = ⟨data, insertDelegations prior.delegations decoded⟩ := by
  rw [wireDecode, bind_eq_ok_iff]
  refine exists_congr fun data ↦ ?_
  by_cases hdata : prior.data.wireDecode block = .ok data
  · obtain ⟨elements, content, hparse, hget, hcontent⟩ := Data.getContent_of_wireDecode hdata
    have hfound : delegationsFromWire block = Block.parse content.value := by
      simp only [delegationsFromWire, hparse, hget, bind, Except.bind]
    by_cases htype : data.metaInfo.type = Tlv.contentTypeLink
    · simp only [decodeContent, htype, ne_eq, not_true_eq_false, if_false, hcontent, hdata, hfound,
        true_and, bind_eq_ok_iff, Except.ok.injEq, exists_eq_left', pure, Except.pure]
      constructor
      · rintro ⟨blocks, hblocks, decoded, hdecoded, hlink⟩
        exact ⟨blocks, decoded, hblocks, hdecoded, hlink.symm⟩
      · rintro ⟨blocks, decoded, hblocks, hdecoded, hlink⟩
        exact ⟨blocks, hblocks, decoded, hdecoded, hlink.symm⟩
    · simp [decodeContent, htype]
  · simp [hdata]

end Link

end Packet

end NdnCxx
