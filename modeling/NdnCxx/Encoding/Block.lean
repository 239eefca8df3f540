import NdnCxx.Encoding.Tlv

/-!
# TLV blocks

A `Block` with a wire is its type, its value and the bytes it was read from. The wire is kept apart
from the value because number encodings that are longer than necessary are accepted. `fromBuffer` is
the reader of the stream transports: it never throws, and it does not look past the first block.
`parse` and `blockFromValue` read the blocks nested in a value and do throw.
-/

namespace NdnCxx

/-- A block that has a wire. -/
structure Block where
  type : ℕ
  value : Bytes
  wire : Bytes
  deriving DecidableEq, Repr

namespace Block

/-- `Block::fromBuffer(const uint8_t*, size_t)`; `none` is the pair with a false first element. -/
def fromBuffer (buffer : Bytes) : Option Block :=
  match Tlv.readType buffer with
  | none => none
  | some (type, afterType) =>
      match Tlv.readVarNumber afterType with
      | none => none
      | some (length, tempBegin) =>
          if length > tempBegin.length then none
          else
            some
              { type := type
                value := tempBegin.take length
                wire := buffer.take (buffer.length - tempBegin.length + length) }

/-- The loop of `Block::parse`. Each round consumes a header, so the number of bytes bounds the
number of rounds. -/
def parseLoop : ℕ → Bytes → Except Error (List Block)
  | _, [] => .ok []
  | 0, _ :: _ => .ok []
  | rounds + 1, elementBegin => do
      let (type, afterType) ← Tlv.readTypeOrThrow elementBegin
      let (length, valueBegin) ← Tlv.readVarNumberOrThrow afterType
      if length > valueBegin.length then throw ⟨.tlv, "TLV length exceeds buffer length"⟩
      else
        let element : Block :=
          { type := type
            value := valueBegin.take length
            wire := elementBegin.take (elementBegin.length - valueBegin.length + length) }
        return element :: (← parseLoop rounds (valueBegin.drop length))

def parse (value : Bytes) : Except Error (List Block) := parseLoop value.length value

def blockFromValue (value : Bytes) : Except Error Block :=
  if value.isEmpty then throw ⟨.block, "Underlying value buffer is empty"⟩
  else do
    let (type, afterType) ← Tlv.readTypeOrThrow value
    let (length, valueBegin) ← Tlv.readVarNumberOrThrow afterType
    if length ≠ valueBegin.length then throw ⟨.tlv, "TLV length mismatches buffer length"⟩
    else return { type := type, value := valueBegin, wire := value }

theorem parse_throwsTlv (value : Bytes) :
    ThrowsOnly (fun error ↦ error.kind = .tlv) (parse value) := by
  unfold parse
  generalize value.length = rounds
  induction rounds generalizing value with
  | zero => cases value <;> exact .ok []
  | succ rounds ih =>
    cases value with
    | nil => exact .ok []
    | cons byte rest =>
      unfold parseLoop
      refine .bind (Tlv.readTypeOrThrow_throwsTlv _) fun _ ↦ ?_
      refine .bind (Tlv.readVarNumberOrThrow_throwsTlv _) fun _ ↦ ?_
      exact .ite (.throw rfl) (.bind (ih _) fun _ ↦ .ok _)

theorem parse_onlyTlvErrors (value : Bytes) : OnlyTlvErrors (parse value) :=
  .ofTlv (parse_throwsTlv value)

theorem blockFromValue_onlyTlvErrors (value : Bytes) : OnlyTlvErrors (blockFromValue value) := by
  apply OnlyTlvErrors.ite (.throw rfl)
  refine .bind (Tlv.readTypeOrThrow_onlyTlvErrors _) fun _ ↦ ?_
  refine .bind (Tlv.readVarNumberOrThrow_onlyTlvErrors _) fun _ ↦ ?_
  exact .ite (.throw rfl) (.ok _)

theorem blockFromValue_throwsTlv {value : Bytes} (hne : value ≠ []) :
    ThrowsOnly (fun error ↦ error.kind = .tlv) (blockFromValue value) := by
  rw [blockFromValue, if_neg (List.isEmpty_iff.not.mpr hne)]
  refine .bind (Tlv.readTypeOrThrow_throwsTlv _) fun _ ↦ ?_
  refine .bind (Tlv.readVarNumberOrThrow_throwsTlv _) fun _ ↦ ?_
  exact .ite (.throw rfl) (.ok _)

variable {block : Block} {buffer : Bytes}

/-- What a successful read says about the bytes: header, value, and the rest. -/
theorem fromBuffer_eq_some_iff :
    fromBuffer buffer = some block ↔
      ∃ afterType length tempBegin, Tlv.readType buffer = some (block.type, afterType) ∧
        Tlv.readVarNumber afterType = some (length, tempBegin) ∧ length ≤ tempBegin.length ∧
        block.value = tempBegin.take length ∧
        block.wire = buffer.take (buffer.length - tempBegin.length + length) := by
  obtain ⟨type, value, wire⟩ := block
  unfold fromBuffer
  cases htype : Tlv.readType buffer with
  | none => simp
  | some typePair =>
    obtain ⟨type', afterType⟩ := typePair
    cases hlength : Tlv.readVarNumber afterType with
    | none =>
      simp only [hlength, reduceCtorEq, Option.some.injEq, Prod.mk.injEq, false_iff]
      rintro ⟨afterType', length, tempBegin, ⟨-, rfl⟩, hread, -⟩
      simp [hlength] at hread
    | some lengthPair =>
      obtain ⟨length, tempBegin⟩ := lengthPair
      simp only [hlength]
      constructor
      · intro hread
        split_ifs at hread with hshort
        simp only [Option.some.injEq, mk.injEq] at hread
        obtain ⟨rfl, rfl, rfl⟩ := hread
        exact ⟨afterType, length, tempBegin, rfl, hlength, Nat.not_lt.mp hshort, rfl, rfl⟩
      · rintro ⟨afterType', length', tempBegin', htype', hlength', hle, rfl, rfl⟩
        obtain ⟨rfl, rfl⟩ := by simpa using htype'
        obtain ⟨rfl, rfl⟩ := by simpa [hlength] using hlength'
        rw [if_neg (Nat.not_lt.mpr hle)]

theorem wire_isPrefix (hread : fromBuffer buffer = some block) : block.wire <+: buffer := by
  obtain ⟨afterType, length, tempBegin, -, -, -, -, hwire⟩ := fromBuffer_eq_some_iff.mp hread
  rw [hwire]
  exact List.take_prefix _ buffer

/-- Bytes behind a complete block do not change what is read. -/
theorem fromBuffer_append (tail : Bytes) (hread : fromBuffer buffer = some block) :
    fromBuffer (buffer ++ tail) = some block := by
  obtain ⟨afterType, length, tempBegin, htype, hlength, hle, hvalue, hwire⟩ :=
    fromBuffer_eq_some_iff.mp hread
  have hsuffix : tempBegin.length ≤ buffer.length :=
    ((Tlv.readVarNumber_suffix hlength).trans (Tlv.readType_suffix htype)).length_le
  refine fromBuffer_eq_some_iff.mpr ⟨afterType ++ tail, length, tempBegin ++ tail,
    Tlv.readType_append tail htype, Tlv.readVarNumber_append tail hlength, ?_, ?_, ?_⟩
  · simp only [List.length_append]
    omega
  · rw [hvalue, List.take_append_of_le_length hle]
  · have hcount : (buffer ++ tail).length - (tempBegin ++ tail).length + length =
        buffer.length - tempBegin.length + length := by
      simp only [List.length_append]
      omega
    rw [hwire, hcount, List.take_append_of_le_length (by omega)]

/-! ## Well-formed wires -/

/-- The bytes are exactly one block. -/
def IsWire (block : Block) : Prop := fromBuffer block.wire = some block

instance (block : Block) : Decidable block.IsWire :=
  inferInstanceAs (Decidable (fromBuffer block.wire = some block))

theorem IsWire.fromBuffer_append (hwire : block.IsWire) (tail : Bytes) :
    fromBuffer (block.wire ++ tail) = some block :=
  Block.fromBuffer_append tail hwire

/-- A block whose bytes have not all arrived is not readable. -/
theorem IsWire.fromBuffer_eq_none (hwire : block.IsWire) {received : Bytes}
    (hprefixed : received <+: block.wire) (hunfinished : received.length < block.wire.length) :
    fromBuffer received = none := by
  cases hread : fromBuffer received with
  | none => rfl
  | some other =>
    obtain ⟨missing, hmissing⟩ := hprefixed
    have hsame : fromBuffer block.wire = some other := by
      rw [← hmissing]
      exact Block.fromBuffer_append missing hread
    obtain rfl : block = other := Option.some.inj (hwire.symm.trans hsame)
    have hle := (wire_isPrefix hread).length_le
    omega

theorem IsWire.wire_ne_nil (hwire : block.IsWire) : block.wire ≠ [] := by
  intro hempty
  have hread : fromBuffer [] = some block := hempty ▸ hwire
  simp [fromBuffer, Tlv.readType, Tlv.readVarNumber] at hread

end Block

end NdnCxx
