import NdnCxx.Name.FromUri
import NdnCxx.Packet.KeyLocator

/-!
# Names as they are kept

A `Name` object is its block `m_nameBlock`: the sub-elements, and the wire they were read from as
long as nothing was appended. `wireEncode` returns the wire it finds, whatever the widths of the
numbers in it and even when the type is not that of a name, and `std::hash<Name>` runs over these
bytes. `Name::equals` looks at the values of the components only.
-/

namespace NdnCxx

/-- The type and the length in front of a value. -/
def Block.header (block : Block) : Bytes :=
  block.wire.take (block.wire.length - block.value.length)

theorem Block.IsWire.wire_eq {block : Block} (hwire : block.IsWire) :
    block.wire = block.header ++ block.value := by
  obtain ⟨header, hsplit, -⟩ := hwire.exists_header
  have hheader : block.header = header := by
    rw [Block.header, hsplit, List.length_append, Nat.add_sub_cancel, List.take_left]
  rw [hheader, hsplit]

/-- Headers and values determine the bytes of a sequence of blocks. -/
theorem Block.flatMap_wire_eq {elements elements' : List Block}
    (hwires : ∀ element ∈ elements, element.IsWire)
    (hwires' : ∀ element ∈ elements', element.IsWire)
    (hheaders : elements.map Block.header = elements'.map Block.header)
    (hvalues : elements.map Block.value = elements'.map Block.value) :
    elements.flatMap Block.wire = elements'.flatMap Block.wire := by
  induction elements generalizing elements' with
  | nil =>
    obtain rfl : elements' = [] := by simpa using hheaders.symm
    rfl
  | cons element rest ih =>
    cases elements' with
    | nil => simp at hheaders
    | cons element' rest' =>
      obtain ⟨hheader, hheaders⟩ := by simpa using hheaders
      obtain ⟨hvalue, hvalues⟩ := by simpa using hvalues
      rw [List.forall_mem_cons] at hwires hwires'
      have hfirst : element.wire = element'.wire := by
        rw [hwires.1.wire_eq, hwires'.1.wire_eq, hheader, hvalue]
      have hrest : rest.flatMap Block.wire = rest'.flatMap Block.wire :=
        ih hwires.2 hwires'.2 (by simpa using hheaders) (by simpa using hvalues)
      rw [List.flatMap_cons, List.flatMap_cons, hfirst, hrest]

/-- A `Name` object: the sub-elements of `m_nameBlock`, and the block itself while it has a wire. -/
structure StoredName where
  subBlocks : List Block
  nameBlock : Option Block
  isWire : ∀ element ∈ subBlocks, element.IsWire
  parsed : ∀ block ∈ nameBlock, block.IsWire ∧ Block.parse block.value = .ok subBlocks

namespace StoredName

def components (name : StoredName) : Name :=
  name.subBlocks.map fun element ↦ ⟨element.type, element.value⟩

def empty : StoredName where
  subBlocks := []
  nameBlock := none
  isWire := by simp
  parsed := by simp

/-- `Name::Name(const Block&)`; the type of the block is not looked at. -/
def ofBlock (wire : Block) (hwire : wire.IsWire) : Except Error StoredName :=
  match hparse : Block.parse wire.value with
  | .error error => .error error
  | .ok subBlocks =>
      .ok
        { subBlocks := subBlocks
          nameBlock := some wire
          isWire := (Block.parse_eq_ok_iff.mp hparse).2
          parsed := by
            rintro block ⟨⟩
            exact ⟨hwire, hparse⟩ }

def wireDecode (wire : Block) (hwire : wire.IsWire) : Except Error StoredName :=
  if wire.type ≠ Tlv.name then .error ⟨.tlv, "Unexpected TLV type when decoding Name"⟩
  else ofBlock wire hwire

def append (name : StoredName) (component : Block) (hwire : component.IsWire) : StoredName where
  subBlocks := name.subBlocks ++ [component]
  nameBlock := none
  isWire := by
    intro element hmem
    rcases List.mem_append.mp hmem with hmem | hmem
    · exact name.isWire element hmem
    · rw [List.mem_singleton.mp hmem]
      exact hwire
  parsed := by simp

/-- `Name::append(const PartialName&)`: component by component, so that nothing happens when there
are none. -/
def appendName (name relative : StoredName) : StoredName where
  subBlocks := name.subBlocks ++ relative.subBlocks
  nameBlock := if relative.subBlocks.isEmpty then name.nameBlock else none
  isWire := by
    intro element hmem
    rcases List.mem_append.mp hmem with hmem | hmem
    · exact name.isWire element hmem
    · exact relative.isWire element hmem
  parsed := by
    intro block hblock
    split_ifs at hblock with hempty
    · have hnil : relative.subBlocks = [] := List.isEmpty_iff.mp hempty
      rw [hnil, List.append_nil]
      exact name.parsed block hblock
    · cases hblock

def equals (name other : StoredName) : Bool := name.components.equals other.components

/-- The block `wireEncode` returns: the kept wire, or else the components as they are encoded. -/
def encoded (name : StoredName) : Block := name.nameBlock.getD name.components.toBlock

section Hash

variable (hashRange : Bytes → ℕ)

/-- `std::hash<Name>`: `boost::hash_range` over the first `size()` bytes of the wire. -/
def hash (name : StoredName) : ℕ := hashRange (name.encoded.wire.take name.encoded.size)

end Hash

def encodedElements (name : StoredName) : List Block :=
  if name.nameBlock.isSome then name.subBlocks else name.components.map Component.toBlock

/-- Every type and every length in the encoded block. -/
def headers (name : StoredName) : List Bytes :=
  name.encoded.header :: name.encodedElements.map Block.header

/-- The encoded block has a size that 32 bits count. -/
def Fits (name : StoredName) : Prop := name.encoded.wire.length < 2 ^ 32

instance (name : StoredName) : Decidable name.Fits := inferInstanceAs (Decidable (_ < _))

variable {name : StoredName} {other : StoredName}

theorem equals_iff :
    name.equals other = true ↔
      name.subBlocks.map Block.value = other.subBlocks.map Block.value := by
  rw [equals, Name.equals_iff, components, components, List.map_map, List.map_map]
  rfl

theorem components_isWellFormed (name : StoredName) : name.components.IsWellFormed := by
  intro component hmem
  obtain ⟨element, helement, rfl⟩ := List.mem_map.mp hmem
  exact (Block.toElement_isWellFormed (name.isWire element helement)).1

theorem map_value_encodedElements (name : StoredName) :
    name.encodedElements.map Block.value = name.subBlocks.map Block.value := by
  unfold encodedElements
  split_ifs with hkept
  · rfl
  · rw [components, List.map_map, List.map_map]
    rfl

/-- The encoded block is a block, and its value is made of its elements. -/
theorem encoded_spec (hfits : name.Fits) :
    name.encoded.IsWire ∧ Block.parse name.encoded.value = .ok name.encodedElements := by
  unfold Fits at hfits
  unfold encodedElements
  cases hkept : name.nameBlock with
  | some block =>
    have hencoded : name.encoded = block := by rw [encoded, hkept, Option.getD_some]
    rw [hencoded, Option.isSome_some, if_pos rfl]
    exact name.parsed block hkept
  | none =>
    have hencoded : name.encoded = name.components.toBlock := by
      rw [encoded, hkept, Option.getD_none]
    rw [hencoded] at hfits ⊢
    have hsize : name.components.toBlock.wire.length < 2 ^ 64 := hfits.trans (by decide)
    refine ⟨Block.ofElements_isWire (by decide) hsize, Block.parse_ofElements ?_⟩
    intro element hmem
    have hshort := Block.length_wire_lt_of_mem hsize hmem
    obtain ⟨component, hcomponent, rfl⟩ := List.mem_map.mp hmem
    exact Block.ofValue_isWire_of_length (name.components_isWellFormed component hcomponent) hshort

theorem hash_eq_of_fits (hashRange : Bytes → ℕ) (hfits : name.Fits) :
    name.hash hashRange = hashRange name.encoded.wire := by
  have hsize : name.encoded.size = name.encoded.wire.length := Nat.mod_eq_of_lt hfits
  rw [hash, hsize, List.take_length]

/-- Reading the same bytes gives the same block, and with it the same elements. -/
theorem encodedElements_eq_of_wire (hfits : name.Fits) (hfits' : other.Fits)
    (hsame : name.encoded.wire = other.encoded.wire) :
    name.encoded = other.encoded ∧ name.encodedElements = other.encodedElements := by
  obtain ⟨hwire, hparse⟩ := encoded_spec hfits
  obtain ⟨hwire', hparse'⟩ := encoded_spec hfits'
  have hblock : name.encoded = other.encoded := by
    have hread : Block.fromBuffer name.encoded.wire = some other.encoded := by
      rw [hsame]
      exact hwire'
    exact Option.some.inj (hwire.symm.trans hread)
  rw [hblock, hparse'] at hparse
  exact ⟨hblock, (Except.ok.inj hparse).symm⟩

/-- The bytes are the headers and the values of the components, in turn. -/
theorem wire_encoded_eq_iff (hfits : name.Fits) (hfits' : other.Fits)
    (hequals : name.equals other = true) :
    name.encoded.wire = other.encoded.wire ↔ name.headers = other.headers := by
  obtain ⟨hwire, hparse⟩ := encoded_spec hfits
  obtain ⟨hwire', hparse'⟩ := encoded_spec hfits'
  have hvalues : name.encodedElements.map Block.value = other.encodedElements.map Block.value := by
    rw [map_value_encodedElements, map_value_encodedElements]
    exact equals_iff.mp hequals
  constructor
  · intro hsame
    obtain ⟨hblock, helements⟩ := encodedElements_eq_of_wire hfits hfits' hsame
    rw [headers, headers, hblock, helements]
  · intro hheaders
    obtain ⟨hheader, hinner⟩ := List.cons.inj hheaders
    obtain ⟨hvalue, hwires⟩ := Block.parse_eq_ok_iff.mp hparse
    obtain ⟨hvalue', hwires'⟩ := Block.parse_eq_ok_iff.mp hparse'
    have hbody : name.encoded.value = other.encoded.value := by
      rw [hvalue, hvalue']
      exact Block.flatMap_wire_eq hwires hwires' hinner hvalues
    rw [hwire.wire_eq, hwire'.wire_eq, hheader, hbody]

/-- Equal names hash equally, whatever the hash of the bytes, exactly when the headers in their
encodings agree. -/
theorem hash_eq_of_equals_iff (hfits : name.Fits) (hfits' : other.Fits) :
    (name.equals other = true →
      ∀ hashRange : Bytes → ℕ, name.hash hashRange = other.hash hashRange) ↔
      (name.equals other = true → name.headers = other.headers) := by
  refine imp_congr_right fun hequals ↦ ?_
  rw [← wire_encoded_eq_iff hfits hfits' hequals]
  constructor
  · intro hhash
    -- some hash tells the bytes apart
    have hsame := hhash fun bytes ↦ if bytes = other.encoded.wire then 1 else 0
    rw [hash_eq_of_fits _ hfits, hash_eq_of_fits _ hfits', if_pos rfl] at hsame
    by_contra hdifferent
    rw [if_neg hdifferent] at hsame
    cases hsame
  · intro hsame hashRange
    rw [hash_eq_of_fits _ hfits, hash_eq_of_fits _ hfits', hsame]

/-! ## Names with a kept wire -/

/-- A name of one generic component, its length written in one byte and in three. -/
theorem hash_ne_of_overlong :
    ∃ name other : StoredName,
      (wireDecode ⟨7, [8, 1, 65], [7, 3, 8, 1, 65]⟩ (by decide)).toOption = some name ∧
      (wireDecode ⟨7, [8, 1, 65], [7, 253, 0, 3, 8, 1, 65]⟩ (by decide)).toOption = some other ∧
      name.equals other = true ∧ name.hash List.length ≠ other.hash List.length :=
  ⟨_, _, rfl, rfl, by decide, by decide⟩

theorem hash_eq_of_equals_decoded :
    ∃ name other : StoredName,
      (wireDecode ⟨7, [8, 1, 65], [7, 3, 8, 1, 65]⟩ (by decide)).toOption = some name ∧
      other = empty.append ⟨8, [65], [8, 1, 65]⟩ (by decide) ∧
      ∀ hashRange : Bytes → ℕ, name.hash hashRange = other.hash hashRange := by
  refine ⟨_, _, rfl, rfl, ?_⟩
  exact (hash_eq_of_equals_iff (by decide) (by decide)).mpr (fun _ ↦ by decide) (by decide)

end StoredName

end NdnCxx
