import NdnCxx.Encoding.Block
import NdnCxx.Foundation.SelfDelimiting

/-!
# Encoding blocks

`Block::encode` turns a block that has only a value or only sub-elements into one that has a wire.
The header is always written in its shortest form, while a sub-element that brings its own wire
keeps it as it is. Decoding what was encoded gives back the block. `size` alone is narrower than
the rest: the member it returns is 32 bits wide.
-/

namespace NdnCxx

/-- The bytes of `Encoder::prependByteArrayBlock`: a header in its shortest form and the value. -/
def Tlv.prependByteArrayBlock (type : ℕ) (array : Bytes) : Bytes :=
  Tlv.writeVarNumber type ++ (Tlv.writeVarNumber array.length ++ array)

namespace Block

/-- `Block::size` of a block that has a wire, where `m_size` has 32 bits -/
def size (block : Block) : ℕ := block.wire.length % 2 ^ 32

/-- `Block::Block(const uint8_t*, size_t)` -/
def fromPointer (buffer : Bytes) : Except Error Block := do
  let (type, afterType) ← Tlv.readTypeOrThrow buffer
  let (length, tmpBegin) ← Tlv.readVarNumberOrThrow afterType
  if length > tmpBegin.length then
    throw ⟨.tlv, "Not enough data in the buffer to fully parse TLV"⟩
  else
    return {
      type := type
      value := tmpBegin.take length
      wire := buffer.take (buffer.length - tmpBegin.length + length) }

/-- `Block::Block(const ConstBufferPtr&)` over the whole buffer, and `Encoder::block` -/
def fromWire (wire : Bytes) : Except Error Block := do
  let (type, afterType) ← Tlv.readTypeOrThrow wire
  let (length, valueBegin) ← Tlv.readVarNumberOrThrow afterType
  if length ≠ valueBegin.length then throw ⟨.tlv, "TLV length doesn't match buffer length"⟩
  else return { type := type, value := valueBegin, wire := wire }

/-- What `m_buffer` holds: a wire with the value inside it, only a value, or nothing. -/
inductive Content
  | wire (value wire : Bytes)
  | value (value : Bytes)
  | empty
  deriving DecidableEq, Repr

/-- A sub-element as far as `encode` looks at it. -/
structure Element where
  type : ℕ
  content : Content
  deriving DecidableEq, Repr

/-- A sub-element that has a wire already. -/
def toElement (block : Block) : Element := ⟨block.type, .wire block.value block.wire⟩

def Element.size (element : Element) : Except Error ℕ :=
  match element.content with
  | .wire _ wire => .ok (wire.length % 2 ^ 32)
  | .value value =>
      .ok ((Tlv.sizeOfVarNumber element.type + Tlv.sizeOfVarNumber value.length + value.length) %
        2 ^ 32)
  | .empty => .error ⟨.block, "Block size cannot be determined (undefined block size)"⟩

def Element.write (element : Element) : Except Error Bytes :=
  match element.content with
  | .wire _ wire => .ok (wire.take (wire.length % 2 ^ 32))
  | .value value => .ok (Tlv.prependByteArrayBlock element.type value)
  | .empty => .error ⟨.block, "Underlying value buffer is empty"⟩

/-- A block before `encode`. -/
structure Unencoded where
  type : ℕ
  content : Content
  subBlocks : List Element
  deriving DecidableEq, Repr

/-- The end of `encode`: the stream becomes the buffer, and the value starts behind its header. -/
def assignWire (type : ℕ) (wire : Bytes) : Except Error Block := do
  let (_, afterType) ← Tlv.readTypeOrThrow wire
  let (_, valueBegin) ← Tlv.readVarNumberOrThrow afterType
  return { type := type, value := valueBegin, wire := wire }

def Unencoded.encode (block : Unencoded) : Except Error Block :=
  match block.content with
  | .wire value wire => .ok { type := block.type, value := value, wire := wire }
  | .value value => assignWire block.type (Tlv.prependByteArrayBlock block.type value)
  | .empty =>
      if block.subBlocks.isEmpty then
        assignWire block.type (Tlv.writeVarNumber block.type ++ Tlv.writeVarNumber 0)
      else do
        let sizes ← block.subBlocks.mapM Element.size
        -- `valueSize` is a `size_t`
        let valueSize := sizes.sum % 2 ^ 64
        let written ← block.subBlocks.mapM Element.write
        assignWire block.type
          (Tlv.writeVarNumber block.type ++ (Tlv.writeVarNumber valueSize ++ written.flatten))

variable {block : Block} {children : List Block} {payload : Payload}

theorem Unencoded.type_of_encode {unencoded : Unencoded} (hencode : unencoded.encode = .ok block) :
    block.type = unencoded.type := by
  have hassign : ∀ {wire : Bytes}, assignWire unencoded.type wire = .ok block →
      block.type = unencoded.type := by
    intro wire hassign
    rw [assignWire, bind_eq_ok_iff] at hassign
    obtain ⟨_, -, hassign⟩ := hassign
    rw [bind_eq_ok_iff] at hassign
    obtain ⟨_, -, hassign⟩ := hassign
    cases hassign
    rfl
  unfold Unencoded.encode at hencode
  split at hencode
  · cases hencode
    rfl
  · exact hassign hencode
  · split_ifs at hencode
    · exact hassign hencode
    · rw [bind_eq_ok_iff] at hencode
      obtain ⟨sizes, -, hencode⟩ := hencode
      rw [bind_eq_ok_iff] at hencode
      obtain ⟨written, -, hencode⟩ := hencode
      exact hassign hencode

def makeBinaryBlock (type : ℕ) (value : Bytes) : Except Error Block :=
  fromWire (Tlv.prependByteArrayBlock type value)

def makeEmptyBlock (type : ℕ) : Except Error Block :=
  fromWire (Tlv.writeVarNumber type ++ Tlv.writeVarNumber 0)

/-! ## Reading a written block -/

def ofValue (type : ℕ) (value : Bytes) : Block :=
  { type := type, value := value, wire := Tlv.prependByteArrayBlock type value }

theorem length_wire_ofValue (type : ℕ) (value : Bytes) :
    (ofValue type value).wire.length =
      Tlv.sizeOfVarNumber type + Tlv.sizeOfVarNumber value.length + value.length := by
  simp only [ofValue, Tlv.prependByteArrayBlock, List.length_append, Tlv.length_writeVarNumber]
  omega

/-- A written block determines its value, also where the length does not fit its field. -/
theorem prependByteArrayBlock_injective {type : ℕ} {value other : Bytes}
    (hsame : Tlv.prependByteArrayBlock type value = Tlv.prependByteArrayBlock type other) :
    value = other := by
  have htotal := congrArg List.length (List.append_cancel_left hsame)
  simp only [List.length_append, Tlv.length_writeVarNumber] at htotal
  have hlength : value.length = other.length := by
    unfold Tlv.sizeOfVarNumber at htotal
    split_ifs at htotal <;> omega
  have hrest := List.append_cancel_left hsame
  rw [hlength] at hrest
  exact List.append_cancel_left hrest

theorem ofValue_isWire {type : ℕ} {value : Bytes} (htype : type < 2 ^ 32)
    (hvalue : value.length < 2 ^ 64) : (ofValue type value).IsWire := by
  apply fromBuffer_eq_some_iff.mpr
  refine ⟨_, value.length, value, Tlv.readType_writeVarNumber_append htype _,
    Tlv.readVarNumber_writeVarNumber_append hvalue value, le_rfl, (List.take_length).symm, ?_⟩
  have hcount : (ofValue type value).wire.length - value.length + value.length =
      (ofValue type value).wire.length := by
    rw [length_wire_ofValue]
    omega
  exact (List.take_of_length_le hcount.ge).symm

section WrittenHeader

variable {type : ℕ} {value : Bytes} (htype : type < 2 ^ 32) (hvalue : value.length < 2 ^ 64)
include htype

theorem readTypeOrThrow_prependByteArrayBlock :
    Tlv.readTypeOrThrow (Tlv.prependByteArrayBlock type value) =
      .ok (type, Tlv.writeVarNumber value.length ++ value) :=
  Tlv.readTypeOrThrow_eq_ok_iff.mpr (Tlv.readType_writeVarNumber_append htype _)

include hvalue

theorem assignWire_prependByteArrayBlock :
    assignWire type (Tlv.prependByteArrayBlock type value) = .ok (ofValue type value) := by
  have hreadLength := Tlv.readVarNumberOrThrow_eq_ok_iff.mpr
    (Tlv.readVarNumber_writeVarNumber_append hvalue value)
  simp [assignWire, readTypeOrThrow_prependByteArrayBlock htype, hreadLength, ofValue, bind,
    Except.bind, pure, Except.pure]

theorem makeBinaryBlock_eq : makeBinaryBlock type value = .ok (ofValue type value) := by
  have hreadLength := Tlv.readVarNumberOrThrow_eq_ok_iff.mpr
    (Tlv.readVarNumber_writeVarNumber_append hvalue value)
  simp [makeBinaryBlock, fromWire, readTypeOrThrow_prependByteArrayBlock htype, hreadLength,
    ofValue, bind, Except.bind, pure, Except.pure]

end WrittenHeader

theorem prependByteArrayBlock_nil (type : ℕ) :
    Tlv.prependByteArrayBlock type [] = Tlv.writeVarNumber type ++ Tlv.writeVarNumber 0 := by
  rw [Tlv.prependByteArrayBlock, List.append_nil, List.length_nil]

theorem makeEmptyBlock_eq {type : ℕ} (htype : type < 2 ^ 32) :
    makeEmptyBlock type = .ok (ofValue type []) := by
  rw [makeEmptyBlock, ← prependByteArrayBlock_nil]
  exact makeBinaryBlock_eq htype (by simp)

/-- The throwing constructor accepts what `fromBuffer` accepts. -/
theorem fromPointer_eq_ok_iff {buffer : Bytes} :
    fromPointer buffer = .ok block ↔ fromBuffer buffer = some block := by
  unfold fromPointer fromBuffer
  cases htype : Tlv.readType buffer with
  | none =>
    cases hthrow : Tlv.readTypeOrThrow buffer with
    | error error => simp [bind, Except.bind]
    | ok found => simp [Tlv.readTypeOrThrow_eq_ok_iff.mp hthrow] at htype
  | some typePair =>
    rw [Tlv.readTypeOrThrow_eq_ok_iff.mpr htype]
    cases hlength : Tlv.readVarNumber typePair.2 with
    | none =>
      cases hthrow : Tlv.readVarNumberOrThrow typePair.2 with
      | error error => simp [bind, Except.bind, hthrow, hlength]
      | ok found => simp [Tlv.readVarNumberOrThrow_eq_ok_iff.mp hthrow] at hlength
    | some lengthPair =>
      have hthrow := Tlv.readVarNumberOrThrow_eq_ok_iff.mpr hlength
      simp only [bind, Except.bind, hthrow, hlength, throw, throwThe, MonadExceptOf.throw, pure,
        Except.pure]
      split_ifs <;> simp

/-! ## Parsing sub-elements -/

/-- The bytes behind a block are the bytes behind its value. -/
theorem drop_length_wire {buffer afterType valueBegin : Bytes} {length : ℕ}
    (htype : Tlv.readType buffer = some (block.type, afterType))
    (hlength : Tlv.readVarNumber afterType = some (length, valueBegin))
    (hle : length ≤ valueBegin.length)
    (hwire : block.wire = buffer.take (buffer.length - valueBegin.length + length)) :
    buffer.drop block.wire.length = valueBegin.drop length := by
  have hsuffix : valueBegin <:+ buffer :=
    (Tlv.readVarNumber_suffix hlength).trans (Tlv.readType_suffix htype)
  have hshorter : valueBegin.length ≤ buffer.length := hsuffix.length_le
  have hwireLength : block.wire.length = buffer.length - valueBegin.length + length := by
    rw [hwire, List.length_take]
    omega
  rw [hwireLength, ← List.drop_drop, ← List.suffix_iff_eq_drop.mp hsuffix]

/-- One round of `parse` takes off the block that `fromBuffer` reads. -/
theorem parseLoop_succ {rounds : ℕ} {elementBegin : Bytes}
    (hread : fromBuffer elementBegin = some block) :
    parseLoop (rounds + 1) elementBegin =
      (parseLoop rounds (elementBegin.drop block.wire.length)).map (block :: ·) := by
  obtain ⟨afterType, length, valueBegin, htype, hlength, hle, hvalue, hwire⟩ :=
    fromBuffer_eq_some_iff.mp hread
  have hrest : elementBegin.drop block.wire.length = valueBegin.drop length :=
    drop_length_wire htype hlength hle hwire
  have helement : Block.mk block.type (valueBegin.take length)
      (elementBegin.take (elementBegin.length - valueBegin.length + length)) = block := by
    rw [← hvalue, ← hwire]
  have hnonempty : elementBegin = [] → False := by
    rintro rfl
    simp [Tlv.readType, Tlv.readVarNumber] at htype
  rw [parseLoop, Tlv.readTypeOrThrow_eq_ok_iff.mpr htype, hrest]
  · simp only [bind, Except.bind, Tlv.readVarNumberOrThrow_eq_ok_iff.mpr hlength, helement,
      if_neg (Nat.not_lt.mpr hle)]
    cases parseLoop rounds (valueBegin.drop length) <;> rfl
  · exact hnonempty

/-- Sub-elements written one after another are parsed in that order. -/
theorem parse_flatMap_wire (hwires : ∀ child ∈ children, child.IsWire) :
    parse (children.flatMap Block.wire) = .ok children := by
  suffices hloop : ∀ rounds, (children.flatMap Block.wire).length ≤ rounds →
      parseLoop rounds (children.flatMap Block.wire) = .ok children from hloop _ le_rfl
  induction children with
  | nil =>
    intro rounds _
    cases rounds <;> rfl
  | cons child later ih =>
    intro rounds hrounds
    have hchild : child.IsWire := hwires child List.mem_cons_self
    have hpos : 0 < child.wire.length := List.length_pos_iff.mpr hchild.wire_ne_nil
    simp only [List.flatMap_cons, List.length_append] at hrounds
    obtain ⟨fewer, rfl⟩ : ∃ fewer, rounds = fewer + 1 := ⟨rounds - 1, by omega⟩
    have hlater : parseLoop fewer (later.flatMap Block.wire) = .ok later :=
      ih (fun block hblock ↦ hwires block (List.mem_cons_of_mem child hblock)) fewer (by omega)
    rw [List.flatMap_cons, parseLoop_succ (hchild.fromBuffer_append _), List.drop_left, hlater]
    rfl

/-! ## Encoding and decoding -/

/-- What a block is built from: the bytes of its value, or children that have a wire. -/
inductive Payload
  | bytes (value : Bytes)
  | children (blocks : List Block)

namespace Payload

/-- The block given to `encode`. -/
def toUnencoded (type : ℕ) : Payload → Unencoded
  | .bytes value => { type := type, content := .value value, subBlocks := [] }
  | .children blocks =>
      { type := type, content := .empty, subBlocks := blocks.map Block.toElement }

def value : Payload → Bytes
  | .bytes value => value
  | .children blocks => blocks.flatMap Block.wire

def HasWires : Payload → Prop
  | .bytes _ => True
  | .children blocks => ∀ child ∈ blocks, child.IsWire

/-- The children, if any were given, are what `parse` finds in a value. -/
def ParsedFrom (value : Bytes) : Payload → Prop
  | .bytes _ => True
  | .children blocks => parse value = .ok blocks

end Payload

theorem mapM_size_toElement (hsize : (children.flatMap Block.wire).length < 2 ^ 32) :
    (children.map toElement).mapM Element.size =
      .ok (children.map fun child ↦ child.wire.length) := by
  induction children with
  | nil => rfl
  | cons child later ih =>
    simp only [List.flatMap_cons, List.length_append] at hsize
    have hchild : child.toElement.size = .ok child.wire.length := by
      simp only [Element.size, toElement]
      rw [Nat.mod_eq_of_lt (by omega)]
    rw [List.map_cons, List.mapM_cons, hchild, ih (by omega)]
    rfl

theorem mapM_write_toElement (hsize : (children.flatMap Block.wire).length < 2 ^ 32) :
    (children.map toElement).mapM Element.write = .ok (children.map Block.wire) := by
  induction children with
  | nil => rfl
  | cons child later ih =>
    simp only [List.flatMap_cons, List.length_append] at hsize
    have hchild : child.toElement.write = .ok child.wire := by
      simp only [Element.write, toElement]
      rw [Nat.mod_eq_of_lt (by omega), List.take_length]
    rw [List.map_cons, List.mapM_cons, hchild, ih (by omega)]
    rfl

/-- Whatever the value is built from, `encode` writes it behind the shortest header. -/
theorem encode_toUnencoded {type : ℕ} (htype : type < 2 ^ 32)
    (hvalue : payload.value.length < 2 ^ 32) :
    (payload.toUnencoded type).encode = .ok (ofValue type payload.value) := by
  have hassign := assignWire_prependByteArrayBlock htype (by omega : payload.value.length < 2 ^ 64)
  cases payload with
  | bytes value => exact hassign
  | children blocks =>
    cases blocks with
    | nil =>
      simp only [Payload.toUnencoded, Unencoded.encode, List.map_nil, List.isEmpty_nil, if_true]
      rw [← prependByteArrayBlock_nil]
      exact hassign
    | cons child later =>
      have hlength : ((child :: later).flatMap Block.wire).length < 2 ^ 32 := hvalue
      have hsizes := mapM_size_toElement hlength
      have hwritten := mapM_write_toElement hlength
      have hsum : ((child :: later).map fun child ↦ child.wire.length).sum % 2 ^ 64 =
          ((child :: later).flatMap Block.wire).length := by
        rw [← List.length_flatMap]
        exact Nat.mod_eq_of_lt (by omega)
      have hflatten : ((child :: later).map Block.wire).flatten =
          (child :: later).flatMap Block.wire := rfl
      simp only [Payload.toUnencoded, Unencoded.encode, List.isEmpty_cons, List.map_cons,
        Bool.false_eq_true, if_false] at hsizes hwritten hsum hflatten ⊢
      simp only [hsizes, hwritten, bind, Except.bind, hsum, hflatten]
      exact hassign

/-- Decoding the encoded block, in front of any further bytes, recovers type, value and children,
and takes `size` bytes. -/
def RoundTrips (type : ℕ) (payload : Payload) : Prop :=
  ∃ encoded, (payload.toUnencoded type).encode = .ok encoded ∧
    ∀ tail, ∃ decoded, fromPointer (encoded.wire ++ tail) = .ok decoded ∧
      decoded.type = type ∧ decoded.value = payload.value ∧
      payload.ParsedFrom decoded.value ∧ decoded.wire.length = encoded.size

theorem fromPointer_ofValue_append {type : ℕ} {value : Bytes} (htype : type < 2 ^ 32)
    (hvalue : value.length < 2 ^ 64) (tail : Bytes) :
    fromPointer ((ofValue type value).wire ++ tail) = .ok (ofValue type value) :=
  fromPointer_eq_ok_iff.mpr ((ofValue_isWire htype hvalue).fromBuffer_append tail)

theorem Payload.parsedFrom_value (hwires : payload.HasWires) :
    payload.ParsedFrom payload.value := by
  cases payload with
  | bytes value => exact trivial
  | children blocks => exact parse_flatMap_wire hwires

/-- Everything survives; only a wire of 2^32 bytes or more is reported with a smaller size. -/
theorem roundTrips_iff_size_lt {type : ℕ} (htype : type < 2 ^ 32)
    (hvalue : payload.value.length < 2 ^ 32) (hwires : payload.HasWires) :
    RoundTrips type payload ↔
      Tlv.sizeOfVarNumber type + Tlv.sizeOfVarNumber payload.value.length + payload.value.length <
        2 ^ 32 := by
  have hencode := encode_toUnencoded htype hvalue
  have hdecode := fromPointer_ofValue_append htype (by omega : payload.value.length < 2 ^ 64)
  rw [← length_wire_ofValue]
  constructor
  · rintro ⟨encoded, hencoded, hreads⟩
    obtain rfl : ofValue type payload.value = encoded := Except.ok.inj (hencode.symm.trans hencoded)
    obtain ⟨decoded, hdecoded, -, -, -, hsize⟩ := hreads []
    obtain rfl : ofValue type payload.value = decoded :=
      Except.ok.inj ((hdecode []).symm.trans hdecoded)
    rw [hsize]
    exact Nat.mod_lt _ (by decide)
  · intro hfits
    refine ⟨ofValue type payload.value, hencode, fun tail ↦ ⟨ofValue type payload.value,
      hdecode tail, rfl, rfl, Payload.parsedFrom_value hwires, ?_⟩⟩
    exact (Nat.mod_eq_of_lt hfits).symm

/-- The wires of `encode` are a self-delimiting code for types and values. -/
theorem ofValue_readsBack :
    ReadsBack (fun pair : ℕ × Bytes ↦ pair.1 < 2 ^ 32 ∧ pair.2.length < 2 ^ 32)
      (fun pair ↦ (ofValue pair.1 pair.2).wire)
      (fun bytes ↦ (fromBuffer bytes).map fun block ↦ (block.type, block.value)) := by
  rintro ⟨type, value⟩ ⟨htype, hvalue⟩ tail
  have hshort : value.length < 2 ^ 64 := Nat.lt_trans hvalue (by decide)
  have hread := (ofValue_isWire htype hshort).fromBuffer_append tail
  simp only [hread, Option.map_some]
  rfl

/-- Encoding and decoding again gives back type, value and children at the cost of `size` bytes
exactly when header and value are shorter than 2^32 bytes together, and the wires of different
contents are never prefixes of one another. -/
theorem encode_fromPointer_roundTrips (type : ℕ) (payload : Payload) (htype : type < 2 ^ 32)
    (hvalue : payload.value.length < 2 ^ 32) :
    (payload.HasWires →
      (RoundTrips type payload ↔
        Tlv.sizeOfVarNumber type + Tlv.sizeOfVarNumber payload.value.length +
          payload.value.length < 2 ^ 32)) ∧
    ∀ (type' : ℕ) (payload' : Payload) (encoded encoded' : Block),
      type' < 2 ^ 32 → payload'.value.length < 2 ^ 32 →
      (payload.toUnencoded type).encode = .ok encoded →
      (payload'.toUnencoded type').encode = .ok encoded' →
      (type, payload.value) ≠ (type', payload'.value) → ¬ encoded.wire <+: encoded'.wire := by
  constructor
  · intro hwires
    exact roundTrips_iff_size_lt htype hvalue hwires
  · intro type' payload' encoded encoded' htype' hvalue' hencode hencode' hdifferent hprefixed
    rw [encode_toUnencoded htype hvalue] at hencode
    rw [encode_toUnencoded htype' hvalue'] at hencode'
    cases hencode
    cases hencode'
    apply hdifferent
    exact ofValue_readsBack.eq_of_isPrefix (type, payload.value) (type', payload'.value)
      ⟨htype, hvalue⟩ ⟨htype', hvalue'⟩ hprefixed

theorem encode_fromPointer_roundTrips_nested :
    RoundTrips 300 (.children [ofValue 8 [1, 2], ofValue 8 []]) := by
  have hwires : ∀ child ∈ [ofValue 8 [1, 2], ofValue 8 []], child.IsWire := by decide
  exact ((encode_fromPointer_roundTrips 300 (.children [ofValue 8 [1, 2], ofValue 8 []])
    (by decide) (by decide)).1 hwires).mpr (by decide)

/-- A value of 2^32 - 1 bytes is legal, but the reported size is that of the header less one. -/
theorem encode_size_wraps :
    (Payload.bytes (List.replicate (2 ^ 32 - 1) 0)).value.length < 2 ^ 32 ∧
      ¬ RoundTrips 8 (.bytes (List.replicate (2 ^ 32 - 1) 0)) := by
  have hlength : (Payload.bytes (List.replicate (2 ^ 32 - 1) 0)).value.length = 2 ^ 32 - 1 :=
    List.length_replicate
  have hlegal : (Payload.bytes (List.replicate (2 ^ 32 - 1) 0)).value.length < 2 ^ 32 := by
    rw [hlength]
    decide
  apply And.intro hlegal
  rw [roundTrips_iff_size_lt (by decide) hlegal trivial, hlength]
  decide

end Block

end NdnCxx
