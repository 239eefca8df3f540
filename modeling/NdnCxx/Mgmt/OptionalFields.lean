import NdnCxx.Packet.MetaInfo
import Mathlib.Data.UInt

/-!
# Optional members

The records of the management protocol are made of members that may be absent. Each member is written
as an element of its own type and is read either by looking for that type or, where the order is
fixed, by taking the element at the iterator if it has the type.
-/

namespace NdnCxx

/-! ## Values of fixed width -/

/-- `encoding::readNonNegativeInteger`, cast to the type of a member -/
def Block.readAs {Value : Type} (cast : ℕ → Value) (block : Block) : Except Error Value := do
  return cast (← block.readNonNegativeInteger)

def Block.readUInt64 : Block → Except Error UInt64 := Block.readAs UInt64.ofNat

def Block.readEnum32 : Block → Except Error UInt32 := Block.readAs UInt32.ofNat

/-- `readNonNegativeInteger` cast to an enumeration over `uint8_t` -/
def Block.readEnum8 : Block → Except Error UInt8 := Block.readAs UInt8.ofNat

/-- `time::milliseconds` of what `readNonNegativeInteger` gives -/
def Block.readMilliseconds : Block → Except Error Int64 :=
  Block.readAs fun number ↦ (UInt64.ofNat number).toInt64

def Block.readString (block : Block) : Except Error Bytes := .ok block.value

/-- The number that is written for a duration in milliseconds -/
def countMilliseconds (duration : Int64) : ℕ := duration.toUInt64.toNat

namespace Block

variable {Value : Type}

def ofNumber (type number : ℕ) : Block := ofValue type (Tlv.prependNonNegativeInteger number)

variable {value : Value}

theorem readAs_ofNumber {cast : ℕ → Value} (type : ℕ) {number : ℕ} (hnumber : number < 2 ^ 64)
    (hcast : cast number = value) : readAs cast (ofNumber type number) = .ok value := by
  rw [readAs, ofNumber, readNonNegativeInteger_ofValue type hnumber, ← hcast]
  rfl

theorem readUInt64_ofNumber (type : ℕ) (number : UInt64) :
    readUInt64 (ofNumber type number.toNat) = .ok number :=
  readAs_ofNumber type number.toNat_lt UInt64.ofNat_toNat

theorem readEnum32_ofNumber (type : ℕ) (value : UInt32) :
    readEnum32 (ofNumber type value.toNat) = .ok value :=
  readAs_ofNumber type (Nat.lt_trans value.toNat_lt (by decide)) UInt32.ofNat_toNat

theorem readEnum8_ofNumber (type : ℕ) (value : UInt8) :
    readEnum8 (ofNumber type value.toNat) = .ok value :=
  readAs_ofNumber type (Nat.lt_trans value.toNat_lt (by decide)) UInt8.ofNat_toNat

/-- A negative duration is written as a large number and read as the same duration. -/
theorem readMilliseconds_ofNumber (type : ℕ) (duration : Int64) :
    readMilliseconds (ofNumber type (countMilliseconds duration)) = .ok duration :=
  readAs_ofNumber type duration.toUInt64.toNat_lt (by simp [countMilliseconds])

theorem readString_ofValue (type : ℕ) (value : Bytes) :
    (ofValue type value).readString = .ok value := rfl

/-! ## Members that may be absent -/

/-- What an encoder prepends for a member, if it is present. -/
def prependOptional (field : Option Value) (write : Value → Bytes) : Bytes :=
  match field with
  | some value => write value
  | none => []

/-- What a decoder makes of a member whose element it has looked for. -/
def readOptional (found : Option Block) (read : Block → Except Error Value) :
    Except Error (Option Value) :=
  match found with
  | some element => do return some (← read element)
  | none => .ok none

variable {field : Option Value} {element : Value → Block}

theorem flatMap_wire_map (field : Option Value) (element : Value → Block) :
    (field.map element).toList.flatMap wire =
      prependOptional field fun value ↦ (element value).wire := by
  cases field <;> simp [prependOptional]

theorem readOptional_map {read : Block → Except Error Value}
    (hread : ∀ value ∈ field, read (element value) = .ok value) :
    readOptional (field.map element) read = .ok field := by
  cases field with
  | none => rfl
  | some value =>
    rw [Option.map_some, readOptional, hread value rfl]
    rfl

theorem forall_mem_map {Property : Block → Prop} :
    (∀ found ∈ field.map element, Property found) ↔ ∀ value ∈ field, Property (element value) := by
  cases field <;> simp

/-- The element of a member that is present is no longer than the record. -/
theorem length_wire_lt_of_map {type fieldType bound : ℕ} {fields : List (ℕ × Option Block)}
    (hsize : (ofElements type (fieldElements fields)).wire.length < bound)
    (hmem : (fieldType, field.map element) ∈ fields) :
    ∀ value ∈ field, (element value).wire.length < bound := by
  intro value hvalue
  apply length_wire_lt_of_mem hsize
  exact mem_fieldElements.mpr ⟨_, hmem, Option.mem_map.mpr ⟨value, hvalue, rfl⟩⟩

/-! ## Records -/

/-- Every member that is present has an element of its own type, and no two members have the same
type. -/
structure IsRecord (fields : List (ℕ × Option Block)) : Prop where
  elements : ∀ field ∈ fields, ∀ element ∈ field.2, ∃ value, element = ofValue field.1 value
  small : ∀ type ∈ fields.map Prod.fst, type < 2 ^ 32
  distinct : (fields.map Prod.fst).Nodup

theorem IsRecord.hasTypes {fields : List (ℕ × Option Block)} (hrecord : IsRecord fields) :
    HasTypes fields := by
  intro field hfield element helement
  obtain ⟨value, rfl⟩ := hrecord.elements field hfield element helement
  rfl

theorem IsRecord.parse_eq {fields : List (ℕ × Option Block)} {type : ℕ} (hrecord : IsRecord fields)
    (hsize : (ofElements type (fieldElements fields)).wire.length < 2 ^ 64) :
    parse (ofElements type (fieldElements fields)).value = .ok (fieldElements fields) := by
  apply parse_ofElements
  intro element hmem
  have hshort := length_wire_lt_of_mem hsize hmem
  obtain ⟨field, hfield, helement⟩ := mem_fieldElements.mp hmem
  obtain ⟨value, rfl⟩ := hrecord.elements field hfield element helement
  exact ofValue_isWire_of_length (hrecord.small field.1 (List.mem_map.mpr ⟨field, hfield, rfl⟩))
    hshort

/-- What is looked for by its type is the element of that member. -/
theorem IsRecord.readOptional_find {fields : List (ℕ × Option Block)}
    {read : Block → Except Error Value} (hrecord : IsRecord fields) (type : ℕ) (field : Option Value)
    (hread : ∀ value ∈ field, read (element value) = .ok value)
    (hmem : (type, field.map element) ∈ fields) :
    readOptional (find (fieldElements fields) type) read = .ok field := by
  rw [find_fieldElements hrecord.hasTypes hrecord.distinct hmem]
  exact readOptional_map hread

/-! ## Members in a fixed order -/

/-- The element of a member that may be absent, and what stands behind it. -/
def takeOptional (type : ℕ) (read : Block → Except Error Value) (elements : List Block) :
    Except Error (Option Value × List Block) :=
  match Packet.takeIf type elements with
  | (found, later) => do return (← readOptional found read, later)

/-- The element of a member that has to be there, and what stands behind it. -/
def takeRequired (type : ℕ) (read : Block → Except Error Value) (missing : Error)
    (elements : List Block) : Except Error (Value × List Block) :=
  match Packet.takeIf type elements with
  | (some found, later) => do return (← read found, later)
  | (none, _) => throw missing

theorem IsRecord.tail {first : ℕ × Option Block} {later : List (ℕ × Option Block)}
    (hrecord : IsRecord (first :: later)) : IsRecord later where
  elements := fun other hmem ↦ hrecord.elements other (List.mem_cons_of_mem first hmem)
  small := fun type hmem ↦ hrecord.small type (List.mem_cons_of_mem first.1 hmem)
  distinct := (List.nodup_cons.mp hrecord.distinct).2

variable {type : ℕ} {later : List (ℕ × Option Block)} {read : Block → Except Error Value}

/-- The first member is taken whether it is present or not, for no later one has its type. -/
theorem IsRecord.takeIf_eq {found : Option Block} (hrecord : IsRecord ((type, found) :: later)) :
    Packet.takeIf type (fieldElements ((type, found) :: later)) = (found, fieldElements later) := by
  apply Packet.MetaInfo.takeIf_toList_append
  · exact hrecord.hasTypes _ List.mem_cons_self
  · intro element hmem htype
    obtain ⟨field, hfield, helement⟩ := mem_fieldElements.mp hmem
    have hsame : element.type = field.1 := hrecord.tail.hasTypes field hfield element helement
    apply (List.nodup_cons.mp hrecord.distinct).1
    rw [← htype, hsame]
    exact List.mem_map.mpr ⟨field, hfield, rfl⟩

theorem IsRecord.takeOptional_eq (hrecord : IsRecord ((type, field.map element) :: later))
    (hread : ∀ value ∈ field, read (element value) = .ok value) :
    takeOptional type read (fieldElements ((type, field.map element) :: later)) =
      .ok (field, fieldElements later) := by
  simp only [takeOptional, hrecord.takeIf_eq, readOptional_map hread]
  rfl

theorem IsRecord.takeRequired_eq {found : Block} (missing : Error)
    (hrecord : IsRecord ((type, some found) :: later)) (hread : read found = .ok value) :
    takeRequired type read missing (fieldElements ((type, some found) :: later)) =
      .ok (value, fieldElements later) := by
  simp only [takeRequired, hrecord.takeIf_eq, hread]
  rfl

end Block

end NdnCxx
