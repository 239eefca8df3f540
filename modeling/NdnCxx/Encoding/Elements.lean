import NdnCxx.Encoding.Encode
import Mathlib.Data.List.Flatten

/-!
# Elements of a packet

The helpers that the packet classes share: writing a block behind others, looking a sub-element up by
its type, and integers of a fixed width. A packet writes optional elements one after another and
finds them again by type or by position, so the elements are treated as a list of optional blocks.
-/

namespace NdnCxx

/-! ## Fixed-width integers -/

/-- The conversion of an unsigned number to `int32_t` -/
def toInt32 (number : ℕ) : ℤ :=
  if number % 2 ^ 32 < 2 ^ 31 then (number % 2 ^ 32 : ℕ) else (number % 2 ^ 32 : ℕ) - 2 ^ 32

/-- The conversion of an unsigned number to `int64_t` -/
def toInt64 (number : ℕ) : ℤ :=
  if number % 2 ^ 64 < 2 ^ 63 then (number % 2 ^ 64 : ℕ) else (number % 2 ^ 64 : ℕ) - 2 ^ 64

/-- The conversion of a signed number to `uint64_t` -/
def toUInt64 (number : ℤ) : ℕ := (number % 2 ^ 64).toNat

theorem toUInt64_lt (number : ℤ) : toUInt64 number < 2 ^ 64 := by
  unfold toUInt64
  omega

/-- Widening to 64 bits and cutting off again loses nothing. -/
theorem toInt32_toUInt64 {number : ℤ} (hlower : -2 ^ 31 ≤ number) (hupper : number < 2 ^ 31) :
    toInt32 (toUInt64 number) = number := by
  unfold toInt32 toUInt64
  split_ifs <;> omega

theorem toInt64_toUInt64 {number : ℤ} (hlower : -2 ^ 63 ≤ number) (hupper : number < 2 ^ 63) :
    toInt64 (toUInt64 number) = number := by
  unfold toInt64 toUInt64
  split_ifs <;> omega

/-! ## Numbers and what stands behind them -/

variable {number : ℕ}

namespace Tlv

variable {bytes : Bytes}

/-- A reader takes the same number from its own bytes, whatever stands behind them. -/
theorem readFixed_split {width : ℕ} {rest : Bytes}
    (hread : readFixed width bytes = some (number, rest)) :
    ∃ front, bytes = front ++ rest ∧
      ∀ tail, readFixed width (front ++ tail) = some (number, tail) := by
  unfold readFixed at hread
  split_ifs at hread with hshort
  obtain ⟨rfl, rfl⟩ := by simpa using hread
  have hlength : (bytes.take width).length = width := by
    rw [List.length_take]
    omega
  refine ⟨bytes.take width, (List.take_append_drop width bytes).symm, ?_⟩
  intro tail
  have hlong : ¬ (bytes.take width ++ tail).length < width := by
    rw [List.length_append, hlength]
    omega
  rw [readFixed, if_neg hlong, List.take_left' hlength, List.drop_left' hlength]

theorem readVarNumber_split {rest : Bytes} (hread : readVarNumber bytes = some (number, rest)) :
    ∃ front, bytes = front ++ rest ∧
      ∀ tail, readVarNumber (front ++ tail) = some (number, tail) := by
  cases bytes with
  | nil => simp [readVarNumber] at hread
  | cons firstOctet body =>
    simp only [readVarNumber] at hread
    split_ifs at hread with hone htwo hfour
    · obtain ⟨rfl, rfl⟩ := by simpa using hread
      exact ⟨[firstOctet], rfl, fun tail ↦ by simp [readVarNumber, hone]⟩
    all_goals
      obtain ⟨front, hfront, hlocal⟩ := readFixed_split hread
      exact ⟨firstOctet :: front, by rw [hfront, List.cons_append],
        fun tail ↦ by simp [readVarNumber, *]⟩

theorem readType_split {rest : Bytes} (hread : readType bytes = some (number, rest)) :
    ∃ front, bytes = front ++ rest ∧ ∀ tail, readType (front ++ tail) = some (number, tail) := by
  obtain ⟨hnumber, hsmall⟩ := readType_eq_some_iff.mp hread
  obtain ⟨front, hfront, hlocal⟩ := readVarNumber_split hnumber
  exact ⟨front, hfront, fun tail ↦ readType_eq_some_iff.mpr ⟨hlocal tail, hsmall⟩⟩

theorem length_le_of_readFixed {width : ℕ} {rest : Bytes}
    (hread : readFixed width bytes = some (number, rest)) : bytes.length ≤ rest.length + width := by
  unfold readFixed at hread
  split_ifs at hread with hshort
  obtain ⟨-, rfl⟩ := by simpa using hread
  rw [List.length_drop]
  omega

/-- A number takes at most nine bytes. -/
theorem length_le_of_readVarNumber {rest : Bytes}
    (hread : readVarNumber bytes = some (number, rest)) : bytes.length ≤ rest.length + 9 := by
  cases bytes with
  | nil => simp
  | cons firstOctet body =>
    rw [List.length_cons]
    simp only [readVarNumber] at hread
    split_ifs at hread with hone htwo hfour
    · obtain ⟨-, rfl⟩ := by simpa using hread
      omega
    all_goals
      have hfixed := length_le_of_readFixed hread
      omega

/-- A reader takes at least as many bytes as the number needs. -/
theorem sizeOfVarNumber_le_of_readVarNumber {rest : Bytes}
    (hread : readVarNumber bytes = some (number, rest)) :
    sizeOfVarNumber number + rest.length ≤ bytes.length := by
  have hfixed : ∀ {width : ℕ} {body : Bytes}, readFixed width body = some (number, rest) →
      number < 256 ^ width ∧ rest.length + width = body.length := by
    intro width body hread
    unfold readFixed at hread
    split_ifs at hread with hshort
    obtain ⟨rfl, rfl⟩ := by simpa using hread
    have hlength : (body.take width).length = width := by
      rw [List.length_take]
      omega
    have hlt := Bytes.toNumber_lt (body.take width)
    rw [hlength] at hlt
    refine ⟨hlt, ?_⟩
    rw [List.length_drop]
    omega
  cases bytes with
  | nil => simp [readVarNumber] at hread
  | cons firstOctet body =>
    rw [List.length_cons]
    simp only [readVarNumber] at hread
    split_ifs at hread with hone htwo hfour
    · obtain ⟨rfl, rfl⟩ := by simpa using hread
      have hsmall : firstOctet.toNat < 253 := UInt8.lt_iff_toNat_lt.mp hone
      rw [sizeOfVarNumber, if_pos hsmall]
      omega
    all_goals
      obtain ⟨hlt, hlength⟩ := hfixed hread
      unfold sizeOfVarNumber
      split_ifs <;> omega

theorem sizeOfVarNumber_mono {number' : ℕ} (hle : number ≤ number') :
    sizeOfVarNumber number ≤ sizeOfVarNumber number' := by
  unfold sizeOfVarNumber
  split_ifs <;> omega

end Tlv

namespace Block

/-! ## Writing -/

/-- `Block::Block()` -/
def Element.none : Element := ⟨2 ^ 32 - 1, .empty⟩

/-- The bytes of `Encoder::prependBlock` for a block that has a wire -/
def prependWire (wire : Bytes) : Bytes := wire.take (wire.length % 2 ^ 32)

/-- The bytes of `Encoder::prependBlock` and `Encoder::appendBlock` -/
def Element.prependBlock (element : Element) : Bytes :=
  match element.content with
  | .wire _ wire => prependWire wire
  | .value value => Tlv.prependByteArrayBlock element.type value
  | .empty => Tlv.prependByteArrayBlock element.type []

def prependNonNegativeIntegerBlock (type number : ℕ) : Bytes :=
  Tlv.prependByteArrayBlock type (Tlv.prependNonNegativeInteger number)

def prependEmptyBlock (type : ℕ) : Bytes := Tlv.writeVarNumber type ++ Tlv.writeVarNumber 0

/-! ## Reading -/

def readNonNegativeInteger (block : Block) : Except Error ℕ :=
  Tlv.readNonNegativeInteger block.value.length block.value

def readInt32 (block : Block) : Except Error ℤ := do return toInt32 (← block.readNonNegativeInteger)

def readInt64 (block : Block) : Except Error ℤ := do return toInt64 (← block.readNonNegativeInteger)

def readUInt32 (block : Block) : Except Error ℕ := do
  return (← block.readNonNegativeInteger) % 2 ^ 32

/-- `Block::find` in the parsed sub-elements; `none` is `elements_end()`. -/
def find (elements : List Block) (type : ℕ) : Option Block :=
  elements.find? fun element ↦ element.type == type

def get (elements : List Block) (type : ℕ) : Except Error Block :=
  match find elements type with
  | some element => .ok element
  | none =>
      .error ⟨.block, "(Block::get) Requested a non-existed type [" ++ toString type ++
        "] from Block"⟩

/-! ## Optional parts -/

/-- What an encoder prepends under a condition. -/
def writtenIf (condition : Bool) (write : Except Error Bytes) : Except Error Bytes :=
  if condition then write else .ok []

/-- What a decoder makes of an element that it has looked for. -/
def decodeIfFound {Value : Type} (found : Option Block) (absent : Value)
    (decode : Block → Except Error Value) : Except Error Value :=
  match found with
  | some element => decode element
  | none => .ok absent

/-! ## Elements with a well-formed wire -/

/-- A block that the constructors of `Block` can produce: the type has 32 bits, and a wire holds
exactly that block. -/
def Element.IsWellFormed (element : Element) : Prop :=
  element.type < 2 ^ 32 ∧
    match element.content with
    | .wire value wire => (Block.mk element.type value wire).IsWire
    | _ => True

/-- The wire is shorter than what `Block::size` can report. -/
def Element.Fits (element : Element) : Prop :=
  match element.content with
  | .wire _ wire => wire.length < 2 ^ 32
  | _ => True

instance (element : Element) : Decidable element.IsWellFormed :=
  match element with
  | ⟨type, .wire value wire⟩ =>
      inferInstanceAs (Decidable (type < 2 ^ 32 ∧ (Block.mk type value wire).IsWire))
  | ⟨type, .value _⟩ => inferInstanceAs (Decidable (type < 2 ^ 32 ∧ True))
  | ⟨type, .empty⟩ => inferInstanceAs (Decidable (type < 2 ^ 32 ∧ True))

instance (element : Element) : Decidable element.Fits :=
  match element with
  | ⟨_, .wire _ wire⟩ => inferInstanceAs (Decidable (wire.length < 2 ^ 32))
  | ⟨_, .value _⟩ => inferInstanceAs (Decidable True)
  | ⟨_, .empty⟩ => inferInstanceAs (Decidable True)

/-- The block that is read where the element was written. -/
def Element.toBlock (element : Element) : Block :=
  match element.content with
  | .wire value wire => ⟨element.type, value, wire⟩
  | .value value => ofValue element.type value
  | .empty => ofValue element.type []

@[simp]
theorem toBlock_toElement (block : Block) : block.toElement.toBlock = block := rfl

theorem map_toBlock_map_toElement (blocks : List Block) :
    (blocks.map toElement).map Element.toBlock = blocks := by
  rw [List.map_map]
  exact List.map_id blocks

@[simp]
theorem Element.type_toBlock (element : Element) : element.toBlock.type = element.type := by
  obtain ⟨type, content⟩ := element
  cases content <;> rfl

theorem prependWire_eq {wire : Bytes} (hfits : wire.length < 2 ^ 32) : prependWire wire = wire := by
  rw [prependWire, Nat.mod_eq_of_lt hfits, List.take_length]

theorem Element.prependBlock_eq {element : Element} (hfits : element.Fits) :
    element.prependBlock = element.toBlock.wire := by
  obtain ⟨type, content⟩ := element
  cases content with
  | wire value wire => exact prependWire_eq hfits
  | value value => rfl
  | empty => rfl

theorem length_value_le_wire_ofValue (type : ℕ) (value : Bytes) :
    value.length ≤ (ofValue type value).wire.length := by
  rw [length_wire_ofValue]
  omega

variable {type : ℕ} {value : Bytes} {block element : Block} {elements : List Block}
    {fields : List (ℕ × Option Block)} {condition : Bool}

theorem ofValue_isWire_of_length (htype : type < 2 ^ 32)
    (hsize : (ofValue type value).wire.length < 2 ^ 64) : (ofValue type value).IsWire :=
  ofValue_isWire htype (lt_of_le_of_lt (length_value_le_wire_ofValue type value) hsize)

theorem Element.toBlock_isWire {element : Element} (hwell : element.IsWellFormed)
    (hsize : element.toBlock.wire.length < 2 ^ 64) : element.toBlock.IsWire := by
  obtain ⟨type, content⟩ := element
  cases content with
  | wire value wire => exact hwell.2
  | value value => exact ofValue_isWire_of_length hwell.1 hsize
  | empty => exact ofValue_isWire_of_length hwell.1 hsize

theorem toElement_isWellFormed (hwire : block.IsWire) : block.toElement.IsWellFormed := by
  obtain ⟨afterType, length, tempBegin, htype, -⟩ := fromBuffer_eq_some_iff.mp hwire
  exact ⟨(Tlv.readType_eq_some_iff.mp htype).2, hwire⟩

/-- A wire is a header in front of the value, and the header fits every value of that length. -/
theorem IsWire.exists_header (hwire : block.IsWire) :
    ∃ header, block.wire = header ++ block.value ∧
      ∀ value : Bytes, value.length = block.value.length →
        (Block.mk block.type value (header ++ value)).IsWire := by
  obtain ⟨afterType, length, tempBegin, htype, hlength, hle, hvalue, hwhole⟩ :=
    fromBuffer_eq_some_iff.mp hwire
  obtain ⟨typeFront, htypeFront, htypeLocal⟩ := Tlv.readType_split htype
  obtain ⟨lengthFront, hlengthFront, hlengthLocal⟩ := Tlv.readVarNumber_split hlength
  have hsplit : block.wire = (typeFront ++ lengthFront) ++ tempBegin := by
    rw [htypeFront, hlengthFront, List.append_assoc]
  -- the block is all of its wire, so the announced length is all that is left behind the header
  have hexact : length = tempBegin.length := by
    have hcount := congrArg List.length hwhole
    have htotal := congrArg List.length hsplit
    rw [List.length_take] at hcount
    rw [List.length_append] at htotal
    omega
  have hall : block.value = tempBegin := by rw [hvalue, hexact, List.take_length]
  refine ⟨typeFront ++ lengthFront, by rw [hall, ← hsplit], ?_⟩
  intro value hsame
  have hlong : length = value.length := by rw [hexact, hsame, hall]
  apply fromBuffer_eq_some_iff.mpr
  refine ⟨lengthFront ++ value, length, value, ?_, hlengthLocal value, hlong.le, ?_, ?_⟩
  · rw [List.append_assoc]
    exact htypeLocal _
  · rw [hlong, List.take_length]
  · rw [List.take_of_length_le]
    rw [List.length_append, List.length_append]
    omega

/-- A header takes at most eighteen bytes. -/
theorem IsWire.length_wire_le (hwire : block.IsWire) :
    block.wire.length ≤ block.value.length + 18 := by
  obtain ⟨afterType, length, tempBegin, htype, hlength, hle, hvalue, hwhole⟩ :=
    fromBuffer_eq_some_iff.mp hwire
  have hfirst := Tlv.length_le_of_readVarNumber (Tlv.readType_eq_some_iff.mp htype).1
  have hsecond := Tlv.length_le_of_readVarNumber hlength
  have hshorter : tempBegin.length ≤ block.wire.length :=
    ((Tlv.readVarNumber_suffix hlength).trans (Tlv.readType_suffix htype)).length_le
  have hcount := congrArg List.length hwhole
  rw [List.length_take] at hcount
  rw [hvalue, List.length_take]
  omega

/-- No wire is shorter than the one with the shortest header for a value that is not longer. -/
theorem IsWire.length_wire_ofValue_le (hwire : block.IsWire)
    (hvalue : value.length ≤ block.value.length) :
    (ofValue block.type value).wire.length ≤ block.wire.length := by
  obtain ⟨afterType, length, tempBegin, htype, hlength, hle, htake, hwhole⟩ :=
    fromBuffer_eq_some_iff.mp hwire
  have hfirst := Tlv.sizeOfVarNumber_le_of_readVarNumber (Tlv.readType_eq_some_iff.mp htype).1
  have hsecond := Tlv.sizeOfVarNumber_le_of_readVarNumber hlength
  have hcount : block.value.length = length := by
    rw [htake, List.length_take]
    omega
  have hmono : Tlv.sizeOfVarNumber value.length ≤ Tlv.sizeOfVarNumber length :=
    Tlv.sizeOfVarNumber_mono (hvalue.trans_eq hcount)
  rw [length_wire_ofValue]
  omega

/-- What is read from the front of a buffer is a block that its own wire holds. -/
theorem isWire_of_fromBuffer {buffer : Bytes} (hread : fromBuffer buffer = some block) :
    block.IsWire := by
  obtain ⟨afterType, length, tempBegin, htype, hlength, hle, hvalue, hwire⟩ :=
    fromBuffer_eq_some_iff.mp hread
  obtain ⟨typeFront, htypeFront, htypeLocal⟩ := Tlv.readType_split htype
  obtain ⟨lengthFront, hlengthFront, hlengthLocal⟩ := Tlv.readVarNumber_split hlength
  have hheader : buffer.length - tempBegin.length = (typeFront ++ lengthFront).length := by
    rw [htypeFront, hlengthFront]
    simp only [List.length_append]
    omega
  have hsplit : block.wire = typeFront ++ (lengthFront ++ block.value) := by
    rw [hwire, hheader, htypeFront, hlengthFront, ← List.append_assoc, List.take_length_add_append,
      hvalue, List.append_assoc]
  have hcount : length = block.value.length := by
    rw [hvalue, List.length_take]
    omega
  apply fromBuffer_eq_some_iff.mpr
  refine ⟨lengthFront ++ block.value, length, block.value, ?_, hlengthLocal _, hcount.le, ?_, ?_⟩
  · rw [hsplit]
    exact htypeLocal _
  · rw [hcount, List.take_length]
  · have htotal : block.wire.length ≤ block.wire.length - block.value.length + length := by omega
    exact (List.take_of_length_le htotal).symm

theorem fromWire_eq_ok_iff {wire : Bytes} :
    fromWire wire = .ok block ↔ block.wire = wire ∧ block.IsWire := by
  constructor
  · intro hmake
    rw [fromWire, bind_eq_ok_iff] at hmake
    obtain ⟨⟨type, afterType⟩, htype, hmake⟩ := hmake
    rw [bind_eq_ok_iff] at hmake
    obtain ⟨⟨length, valueBegin⟩, hlength, hmake⟩ := hmake
    dsimp only at hmake
    split_ifs at hmake with hexact
    cases hmake
    rw [Tlv.readTypeOrThrow_eq_ok_iff] at htype
    rw [Tlv.readVarNumberOrThrow_eq_ok_iff] at hlength
    have hall : length = valueBegin.length := not_not.mp hexact
    refine ⟨rfl, fromBuffer_eq_some_iff.mpr
      ⟨afterType, length, valueBegin, htype, hlength, hall.le, ?_, ?_⟩⟩
    · rw [hall, List.take_length]
    · exact (List.take_of_length_le (by omega)).symm
  · rintro ⟨rfl, hwire⟩
    obtain ⟨afterType, length, tempBegin, htype, hlength, hle, hvalue, hwhole⟩ :=
      fromBuffer_eq_some_iff.mp hwire
    have hall : length = tempBegin.length := by
      have hshorter : tempBegin.length ≤ block.wire.length :=
        ((Tlv.readVarNumber_suffix hlength).trans (Tlv.readType_suffix htype)).length_le
      have hcount := congrArg List.length hwhole
      rw [List.length_take] at hcount
      omega
    rw [hall, List.take_length] at hvalue
    simp only [fromWire, Tlv.readTypeOrThrow_eq_ok_iff.mpr htype, bind, Except.bind,
      Tlv.readVarNumberOrThrow_eq_ok_iff.mpr hlength]
    rw [if_neg (not_not.mpr hall), ← hvalue]
    rfl

/-- What one round of `parse` has read, if there is anything to read. -/
theorem parseLoop_succ_eq_ok {rounds : ℕ} {elementBegin : Bytes} (hnonempty : elementBegin ≠ [])
    (hparse : parseLoop (rounds + 1) elementBegin = .ok elements) :
    ∃ element later, elements = element :: later ∧ fromBuffer elementBegin = some element ∧
      parseLoop rounds (elementBegin.drop element.wire.length) = .ok later := by
  cases hread : fromBuffer elementBegin with
  | some element =>
    rw [parseLoop_succ hread] at hparse
    cases hlater : parseLoop rounds (elementBegin.drop element.wire.length) with
    | error error => simp [hlater, Except.map] at hparse
    | ok later =>
      simp only [hlater, Except.map, Except.ok.injEq] at hparse
      exact ⟨element, later, hparse.symm, rfl, hlater⟩
  | none =>
    rw [parseLoop, bind_eq_ok_iff] at hparse
    · obtain ⟨⟨type, afterType⟩, htype, hparse⟩ := hparse
      rw [bind_eq_ok_iff] at hparse
      obtain ⟨⟨length, valueBegin⟩, hlength, hparse⟩ := hparse
      dsimp only at hparse
      split_ifs at hparse with hshort
      have hblock : fromBuffer elementBegin = some ⟨type, valueBegin.take length,
          elementBegin.take (elementBegin.length - valueBegin.length + length)⟩ :=
        fromBuffer_eq_some_iff.mpr ⟨afterType, length, valueBegin,
          Tlv.readTypeOrThrow_eq_ok_iff.mp htype, Tlv.readVarNumberOrThrow_eq_ok_iff.mp hlength,
          Nat.not_lt.mp hshort, rfl, rfl⟩
      rw [hread] at hblock
      cases hblock
    · exact hnonempty

/-- The sub-elements fill the value, and each of them is a block. -/
theorem parse_eq_ok_iff :
    parse value = .ok elements ↔
      value = elements.flatMap Block.wire ∧ ∀ element ∈ elements, element.IsWire := by
  constructor
  · suffices hloop : ∀ rounds value elements, value.length ≤ rounds →
        parseLoop rounds value = .ok elements →
          value = elements.flatMap Block.wire ∧ ∀ element ∈ elements, element.IsWire from
      hloop _ _ _ le_rfl
    intro rounds
    induction rounds with
    | zero =>
      intro value elements hrounds hparse
      obtain rfl := List.length_eq_zero_iff.mp (Nat.le_zero.mp hrounds)
      cases hparse
      simp
    | succ rounds ih =>
      intro value elements hrounds hparse
      by_cases hempty : value = []
      · subst hempty
        cases hparse
        simp
      · obtain ⟨element, later, rfl, hread, hlater⟩ := parseLoop_succ_eq_ok hempty hparse
        have hwire : element.IsWire := isWire_of_fromBuffer hread
        have hpos : 0 < element.wire.length := List.length_pos_iff.mpr hwire.wire_ne_nil
        obtain ⟨hrest, hwires⟩ := ih _ later (by rw [List.length_drop]; omega) hlater
        refine ⟨?_, List.forall_mem_cons.mpr ⟨hwire, hwires⟩⟩
        rw [List.flatMap_cons, ← hrest]
        exact List.prefix_iff_eq_append.mp (wire_isPrefix hread) |>.symm
  · rintro ⟨rfl, hwires⟩
    exact parse_flatMap_wire hwires

/-- Blocks in front of a value are read first, and then the rest. -/
theorem parse_flatMap_wire_append {front : List Block} {tail : Bytes}
    (hfront : ∀ element ∈ front, element.IsWire)
    (hparse : parse (front.flatMap Block.wire ++ tail) = .ok elements) :
    ∃ rest, elements = front ++ rest ∧ parse tail = .ok rest := by
  induction front generalizing elements with
  | nil => exact ⟨elements, rfl, hparse⟩
  | cons first front ih =>
    obtain ⟨hvalue, hwires⟩ := parse_eq_ok_iff.mp hparse
    have hfirst : first.IsWire := hfront first List.mem_cons_self
    cases elements with
    | nil =>
      simp only [List.flatMap_cons, List.flatMap_nil, List.append_eq_nil_iff] at hvalue
      exact absurd hvalue.1.1 hfirst.wire_ne_nil
    | cons element elements =>
      rw [List.flatMap_cons, List.flatMap_cons, List.append_assoc] at hvalue
      have hsame : first = element := by
        have hread := (hwires element List.mem_cons_self).fromBuffer_append
          (elements.flatMap Block.wire)
        rw [← hvalue, hfirst.fromBuffer_append] at hread
        exact Option.some.inj hread
      subst hsame
      have hlater : parse (front.flatMap Block.wire ++ tail) = .ok elements :=
        parse_eq_ok_iff.mpr ⟨List.append_cancel_left hvalue,
          fun other hmem ↦ hwires other (List.mem_cons_of_mem first hmem)⟩
      obtain ⟨rest, rfl, hrest⟩ :=
        ih (fun other hmem ↦ hfront other (List.mem_cons_of_mem first hmem)) hlater
      exact ⟨rest, rfl, hrest⟩

/-- The writer of a whole packet verifies its length, so it returns only if the header can hold it. -/
theorem fromWire_prependByteArrayBlock_eq_ok_iff (htype : type < 2 ^ 32) :
    fromWire (Tlv.prependByteArrayBlock type value) = .ok block ↔
      value.length < 2 ^ 64 ∧ block = ofValue type value := by
  by_cases hvalue : value.length < 2 ^ 64
  · have hmake : fromWire (Tlv.prependByteArrayBlock type value) = .ok (ofValue type value) :=
      makeBinaryBlock_eq htype hvalue
    rw [hmake, Except.ok.injEq]
    exact ⟨fun hblock ↦ ⟨hvalue, hblock.symm⟩, fun hblock ↦ hblock.2.symm⟩
  · have hwide : Tlv.writeVarNumber value.length = 255 :: Bytes.ofNumber 8 value.length := by
      unfold Tlv.writeVarNumber
      rw [if_neg (by omega), if_neg (by omega), if_neg (by omega)]
    have hlength := Bytes.length_ofNumber 8 value.length
    have hread : Tlv.readVarNumber (Tlv.writeVarNumber value.length ++ value) =
        some (Bytes.toNumber (Bytes.ofNumber 8 value.length), value) := by
      rw [hwide, List.cons_append]
      simp [Tlv.readVarNumber, Tlv.readFixed, List.take_left' hlength, List.drop_left' hlength]
    have hnumber : Bytes.toNumber (Bytes.ofNumber 8 value.length) ≠ value.length := by
      have hlt := Bytes.toNumber_lt (Bytes.ofNumber 8 value.length)
      rw [hlength] at hlt
      omega
    have hthrow : fromWire (Tlv.prependByteArrayBlock type value) =
        .error ⟨.tlv, "TLV length doesn't match buffer length"⟩ := by
      simp [fromWire, readTypeOrThrow_prependByteArrayBlock htype,
        Tlv.readVarNumberOrThrow_eq_ok_iff.mpr hread, bind, Except.bind, hnumber, throw, throwThe,
        MonadExceptOf.throw]
    rw [hthrow]
    constructor
    · intro hreturn
      cases hreturn
    · rintro ⟨hshort, -⟩
      exact absurd hshort hvalue

theorem blockFromValue_wire_ofValue (htype : type < 2 ^ 32)
    (hsize : (ofValue type value).wire.length < 2 ^ 64) :
    blockFromValue (ofValue type value).wire = .ok (ofValue type value) := by
  have hvalue : value.length < 2 ^ 64 :=
    lt_of_le_of_lt (length_value_le_wire_ofValue type value) hsize
  have hnonempty : (ofValue type value).wire.isEmpty = false := by
    have hne := (ofValue_isWire htype hvalue).wire_ne_nil
    simpa using hne
  have hreadLength := Tlv.readVarNumberOrThrow_eq_ok_iff.mpr
    (Tlv.readVarNumber_writeVarNumber_append hvalue value)
  have hreadType : Tlv.readTypeOrThrow (ofValue type value).wire =
      .ok (type, Tlv.writeVarNumber value.length ++ value) :=
    readTypeOrThrow_prependByteArrayBlock htype
  simp [blockFromValue, hnonempty, hreadType, hreadLength, bind, Except.bind, pure, Except.pure]
  rfl

theorem readNonNegativeInteger_ofValue (type : ℕ) (hnumber : number < 2 ^ 64) :
    readNonNegativeInteger (ofValue type (Tlv.prependNonNegativeInteger number)) = .ok number := by
  have hlength : (Tlv.prependNonNegativeInteger number).length =
      Tlv.prependNonNegativeIntegerSize number := Bytes.length_ofNumber _ number
  simp only [readNonNegativeInteger, ofValue, hlength]
  exact Tlv.readNonNegativeInteger_prepend hnumber

/-! ## Blocks made of sub-elements -/

def ofElements (type : ℕ) (elements : List Block) : Block :=
  ofValue type (elements.flatMap Block.wire)

/-- A sub-element is no longer than the value of the block around it. -/
theorem length_wire_le_of_mem (hmem : element ∈ elements) :
    element.wire.length ≤ (elements.flatMap Block.wire).length := by
  have hsublist := (List.singleton_sublist.mpr hmem).flatMap Block.wire
  simpa using hsublist.length_le

theorem length_wire_lt_of_mem {bound : ℕ} (hsize : (ofElements type elements).wire.length < bound)
    (hmem : element ∈ elements) : element.wire.length < bound := by
  have hle := length_wire_le_of_mem hmem
  have hvalue := length_value_le_wire_ofValue type (elements.flatMap Block.wire)
  simp only [ofElements] at hsize
  omega

theorem ofElements_isWire (htype : type < 2 ^ 32)
    (hsize : (ofElements type elements).wire.length < 2 ^ 64) : (ofElements type elements).IsWire :=
  ofValue_isWire_of_length htype hsize

theorem parse_ofElements (hwires : ∀ element ∈ elements, element.IsWire) :
    parse (ofElements type elements).value = .ok elements :=
  parse_flatMap_wire hwires

theorem fromWire_ofElements (htype : type < 2 ^ 32)
    (hsize : (ofElements type elements).wire.length < 2 ^ 64) :
    fromWire (ofElements type elements).wire = .ok (ofElements type elements) := by
  apply (fromWire_prependByteArrayBlock_eq_ok_iff htype).mpr
  exact ⟨lt_of_le_of_lt (length_value_le_wire_ofValue _ _) hsize, rfl⟩

/-! ## Optional elements -/

theorem find_append (front back : List Block) (type : ℕ) :
    find (front ++ back) type = (find front type).or (find back type) := List.find?_append

theorem find_eq_none_of_forall_ne (hne : ∀ element ∈ elements, element.type ≠ type) :
    find elements type = none := by
  rw [find, List.find?_eq_none]
  intro element hmem
  simpa using hne element hmem

/-- The elements of the fields that are present; a field is a type with an optional element. -/
def fieldElements (fields : List (ℕ × Option Block)) : List Block :=
  fields.flatMap fun field ↦ field.2.toList

def HasTypes (fields : List (ℕ × Option Block)) : Prop :=
  ∀ field ∈ fields, ∀ element ∈ field.2, element.type = field.1

theorem mem_fieldElements :
    element ∈ fieldElements fields ↔ ∃ field ∈ fields, element ∈ field.2 := by
  simp [fieldElements]

theorem find_fieldElements_of_not_mem (htypes : HasTypes fields)
    (hnot : type ∉ fields.map Prod.fst) : find (fieldElements fields) type = none := by
  apply find_eq_none_of_forall_ne
  intro element hmem hsame
  obtain ⟨field, hfield, helement⟩ := mem_fieldElements.mp hmem
  apply hnot
  rw [← hsame, htypes field hfield element helement]
  exact List.mem_map_of_mem hfield

/-- Fields of different types are found by their type, whichever of them are present. -/
theorem find_fieldElements {element : Option Block} (htypes : HasTypes fields)
    (hdistinct : (fields.map Prod.fst).Nodup) (hmem : (type, element) ∈ fields) :
    find (fieldElements fields) type = element := by
  induction fields with
  | nil => cases hmem
  | cons field fields ih =>
    rw [List.map_cons, List.nodup_cons] at hdistinct
    have hlater : HasTypes fields := fun other hother ↦ htypes other (List.mem_cons_of_mem field hother)
    rw [fieldElements, List.flatMap_cons, find_append]
    rcases List.mem_cons.mp hmem with rfl | hmem
    · have hrest : find (fieldElements fields) type = none :=
        find_fieldElements_of_not_mem hlater hdistinct.1
      cases element with
      | none => exact hrest
      | some found =>
        have htype : found.type = type := htypes _ List.mem_cons_self found rfl
        simp [find, htype]
    · have hne : field.1 ≠ type := by
        rintro rfl
        exact hdistinct.1 (List.mem_map.mpr ⟨_, hmem, rfl⟩)
      have hfirst : find field.2.toList type = none := by
        apply find_eq_none_of_forall_ne
        intro found hfound hsame
        apply hne
        rw [← htypes field List.mem_cons_self found (Option.mem_toList.mp hfound), hsame]
      rw [hfirst, Option.none_or]
      exact ih hlater hdistinct.2 hmem

theorem get_eq_ok (hfind : find elements type = some element) :
    get elements type = .ok element := by
  rw [get, hfind]

theorem find_of_get (hget : get elements type = .ok element) :
    find elements type = some element := by
  unfold get at hget
  split at hget
  · rename_i found hfound
    rw [hfound, Except.ok.inj hget]
  · cases hget

theorem mem_of_get (hget : get elements type = .ok element) :
    element ∈ elements ∧ element.type = type := by
  have hfind := find_of_get hget
  exact ⟨List.mem_of_find?_eq_some hfind, by simpa using List.find?_some hfind⟩

/-- An element that is written under a condition. -/
def presentIf (condition : Bool) (element : Block) : Option Block :=
  if condition then some element else none

theorem forall_mem_presentIf {Property : Block → Prop} :
    (∀ found ∈ presentIf condition element, Property found) ↔
      (condition = true → Property element) := by
  cases condition with
  | true => simp [presentIf]
  | false => simp [presentIf]

theorem mem_presentIf {found : Block} :
    found ∈ presentIf condition element ↔ condition = true ∧ found = element := by
  cases condition with
  | true => simp [presentIf, eq_comm]
  | false => simp [presentIf]

theorem flatMap_wire_presentIf (condition : Bool) (element : Block) :
    (presentIf condition element).toList.flatMap Block.wire =
      if condition then element.wire else [] := by
  cases condition with
  | true => simp [presentIf]
  | false => simp [presentIf]

/-- A present field is no longer than the block around it. -/
theorem length_wire_lt_of_presentIf {fieldType bound : ℕ}
    (hsize : (ofElements type (fieldElements fields)).wire.length < bound)
    (hmem : (fieldType, presentIf condition element) ∈ fields) (hpresent : condition = true) :
    element.wire.length < bound := by
  apply length_wire_lt_of_mem hsize
  exact mem_fieldElements.mpr ⟨_, hmem, mem_presentIf.mpr ⟨hpresent, rfl⟩⟩

theorem writtenIf_eq {write : Except Error Bytes}
    (hwrite : condition = true → write = .ok element.wire) :
    writtenIf condition write =
      .ok ((presentIf condition element).toList.flatMap Block.wire) := by
  rw [flatMap_wire_presentIf, writtenIf]
  split_ifs with hcondition
  · exact hwrite hcondition
  · rfl

theorem decodeIfFound_presentIf {Value : Type} {absent decoded : Value}
    {decode : Block → Except Error Value}
    (hdecode : condition = true → decode element = .ok decoded) :
    decodeIfFound (presentIf condition element) absent decode =
      .ok (if condition then decoded else absent) := by
  cases condition with
  | true => exact hdecode rfl
  | false => rfl

/-! ## Integer elements -/

/-- What is prepended for an integer that is present when it is not negative. -/
def prependInteger (type : ℕ) (value : ℤ) : Bytes :=
  if value ≥ 0 then prependNonNegativeIntegerBlock type (toUInt64 value) else []

def integerElement (type : ℕ) (value : ℤ) : Option Block :=
  presentIf (decide (value ≥ 0)) (ofValue type (Tlv.prependNonNegativeInteger (toUInt64 value)))

theorem prependInteger_eq (type : ℕ) (value : ℤ) :
    prependInteger type value = (integerElement type value).toList.flatMap Block.wire := by
  simp only [integerElement, flatMap_wire_presentIf, decide_eq_true_eq]
  rfl

theorem integerElement_type {value : ℤ} :
    ∀ element ∈ integerElement type value, element.type = type :=
  forall_mem_presentIf.mpr fun _ ↦ rfl

theorem ofValue_integer_isWire (htype : type < 2 ^ 32) :
    (ofValue type (Tlv.prependNonNegativeInteger number)).IsWire := by
  apply ofValue_isWire htype
  have hsize := Tlv.prependNonNegativeIntegerSize_cases number
  rw [Tlv.prependNonNegativeInteger, Bytes.length_ofNumber]
  omega

theorem decodeIfFound_readInt32 {value : ℤ} (absent : ℤ) (hfits : value < 2 ^ 31) :
    decodeIfFound (integerElement type value) absent readInt32 =
      .ok (if decide (value ≥ 0) then value else absent) := by
  apply decodeIfFound_presentIf
  intro hpresent
  have hnonneg : 0 ≤ value := of_decide_eq_true hpresent
  rw [readInt32, readNonNegativeInteger_ofValue type (toUInt64_lt value)]
  exact congrArg Except.ok (toInt32_toUInt64 (by omega) hfits)

theorem decodeIfFound_readInt64 {value : ℤ} (absent : ℤ) (hfits : value < 2 ^ 63) :
    decodeIfFound (integerElement type value) absent readInt64 =
      .ok (if decide (value ≥ 0) then value else absent) := by
  apply decodeIfFound_presentIf
  intro hpresent
  have hnonneg : 0 ≤ value := of_decide_eq_true hpresent
  rw [readInt64, readNonNegativeInteger_ofValue type (toUInt64_lt value)]
  exact congrArg Except.ok (toInt64_toUInt64 (by omega) hfits)

theorem integerElement_isWire {value : ℤ} (htype : type < 2 ^ 32) :
    ∀ element ∈ integerElement type value, element.IsWire :=
  forall_mem_presentIf.mpr fun _ ↦ ofValue_integer_isWire htype

end Block

end NdnCxx
