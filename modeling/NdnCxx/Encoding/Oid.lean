import NdnCxx.Encoding.Elements
import NdnCxx.Foundation.DigitGroups

/-!
# Object identifiers

An `OID` is a vector of integers. The first two of them share one byte; each of the others is written
in groups of seven bits. The encoding of the length is a part of the library that reads DER texts and
enters as a parameter. Every failure of `decode` is the exception of `BERDecodeError`.
-/

namespace NdnCxx

/-- `DERLengthEncode` and `BERLengthDecode`, which gives nothing for an indefinite length. -/
structure DerLengths where
  derLengthEncode : UInt64 → Bytes
  berLengthDecode : Bytes → Option (UInt64 × Bytes)

namespace Oid

def magicNumber : ℤ := 40

def objectIdentifier : UInt8 := 0x06

def bitPrecision (value : ℕ) : ℕ := if value = 0 then 0 else value.log2 + 1

def roundUpToMultipleOf (number multiple : ℕ) : ℕ :=
  (number + multiple - 1) - (number + multiple - 1) % multiple

/-- The loop of `encodeValue` from the group with the given number on, and the byte behind it -/
def encodeGroups (v : ℕ) : ℕ → Bytes
  | 0 => [UInt8.ofNat (v &&& 0x7f)]
  | group + 1 => UInt8.ofNat (0x80 ||| ((v >>> (7 * (group + 1))) &&& 0x7f)) :: encodeGroups v group

def encodeValue (v : ℕ) : Bytes :=
  encodeGroups v ((roundUpToMultipleOf (max 7 (bitPrecision v)) 7 - 7) / 7)

/-- The loop of `decodeValue`, with the value and the count so far. The check keeps the value below
`2 ^ 32`. -/
def decodeGroups (v i : ℕ) : Bytes → Option (ℕ × ℕ × Bytes)
  | [] => none
  | b :: bytes =>
      if v >>> 25 ≠ 0 then none
      else
        let next := (v <<< 7) + (b.toNat &&& 0x7f)
        if b.toNat &&& 0x80 = 0 then some (next, i + 1, bytes) else decodeGroups next (i + 1) bytes

def decodeValue (bytes : Bytes) : Option (ℕ × ℕ × Bytes) := decodeGroups 0 0 bytes

/-- `OID::encode`; an assertion fails for fewer than two integers. -/
def encode (lengths : DerLengths) : List ℤ → Option Bytes
  | first :: second :: arcs =>
      let temp := UInt8.ofNat ((first * magicNumber + second) % 256).toNat ::
        arcs.flatMap fun arc ↦ encodeValue (arc % 2 ^ 32).toNat
      some (objectIdentifier :: lengths.derLengthEncode (UInt64.ofNat temp.length) ++ temp)
  | _ => none

/-- The loop of `OID::decode`. A round takes at least one byte of the length, so as many rounds as
the length are enough. -/
def decodeValues : ℕ → ℕ → Bytes → Option (List ℤ × Bytes)
  | _, 0, bytes => some ([], bytes)
  | 0, _ + 1, _ => none
  | rounds + 1, length + 1, bytes => do
      let (v, valueLen, bytes) ← decodeValue bytes
      if valueLen > length + 1 then none
      else do
        let (arcs, rest) ← decodeValues rounds (length + 1 - valueLen) bytes
        return (toInt32 v :: arcs, rest)

/-- `OID::decode`, with the bytes that are left -/
def decode (lengths : DerLengths) : Bytes → Option (List ℤ × Bytes)
  | [] => none
  | tag :: bytes =>
      if tag ≠ objectIdentifier then none
      else do
        let (length, bytes) ← lengths.berLengthDecode bytes
        if length.toNat < 1 then none
        else
          match bytes with
          | [] => none
          | b :: bytes => do
              let (arcs, rest) ← decodeValues (length.toNat - 1) (length.toNat - 1) bytes
              return ((b.toNat / 40 : ℕ) :: (b.toNat % 40 : ℕ) :: arcs, rest)

/-! ## One integer -/

def groupByte (digit : ℕ) (isContinued : Bool) : UInt8 :=
  UInt8.ofNat (if isContinued then 0x80 ||| digit else digit)

def groupDigit (byte : UInt8) : ℕ := byte.toNat &&& 0x7f

/-- Whether another byte follows. -/
def isGroupContinued (byte : UInt8) : Bool := byte.toNat &&& 0x80 ≠ 0

theorem groupDigit_groupByte : ∀ digit < 128, ∀ isContinued,
    groupDigit (groupByte digit isContinued) = digit := by
  decide +kernel

theorem isGroupContinued_groupByte : ∀ digit < 128, ∀ isContinued,
    isGroupContinued (groupByte digit isContinued) = isContinued := by
  decide +kernel

theorem encodeGroups_eq (v group : ℕ) :
    encodeGroups v group = DigitGroups.write 128 groupByte v group := by
  have hlow (number : ℕ) : number &&& 0x7f = number % 128 :=
    Nat.and_two_pow_sub_one_eq_mod number 7
  induction group with
  | zero => simp [encodeGroups, DigitGroups.write, groupByte, hlow]
  | succ group ih =>
    rw [encodeGroups, DigitGroups.write, ih, hlow, Nat.shiftRight_eq_div_pow, Nat.pow_mul]
    rfl

theorem decodeGroups_eq (v i : ℕ) (bytes : Bytes) :
    decodeGroups v i bytes = DigitGroups.read 128 (2 ^ 25) groupDigit isGroupContinued v i bytes := by
  induction bytes generalizing v i with
  | nil => rfl
  | cons byte bytes ih =>
    have hoverflow : v >>> 25 ≠ 0 ↔ 2 ^ 25 ≤ v := by
      rw [Nat.shiftRight_eq_div_pow]
      omega
    have hshift : v <<< 7 = v * 128 := Nat.shiftLeft_eq v 7
    rw [decodeGroups, DigitGroups.read, hshift]
    simp only [hoverflow, ih]
    by_cases hlast : byte.toNat &&& 0x80 = 0 <;> simp [isGroupContinued, groupDigit, hlast]

/-- As many groups as `encodeValue` writes hold the value. -/
theorem lt_pow_groups (v : ℕ) :
    v < 128 ^ ((roundUpToMultipleOf (max 7 (bitPrecision v)) 7 - 7) / 7 + 1) := by
  have hbits : v < 2 ^ bitPrecision v := by
    unfold bitPrecision
    split_ifs with hzero
    · omega
    · exact Nat.lt_log2_self
  have hround : max 7 (bitPrecision v) ≤
      7 * ((roundUpToMultipleOf (max 7 (bitPrecision v)) 7 - 7) / 7 + 1) := by
    unfold roundUpToMultipleOf
    omega
  calc v < 2 ^ bitPrecision v := hbits
    _ ≤ 2 ^ (7 * ((roundUpToMultipleOf (max 7 (bitPrecision v)) 7 - 7) / 7 + 1)) :=
      Nat.pow_le_pow_right (by decide) ((le_max_right 7 _).trans hround)
    _ = 128 ^ ((roundUpToMultipleOf (max 7 (bitPrecision v)) 7 - 7) / 7 + 1) := Nat.pow_mul 2 7 _

/-- An integer is read back, with the count of its bytes. -/
theorem decodeValue_encodeValue {v : ℕ} (hv : v < 2 ^ 32) (rest : Bytes) :
    decodeValue (encodeValue v ++ rest) = some (v, (encodeValue v).length, rest) := by
  have hstart : v / 128 ^ ((roundUpToMultipleOf (max 7 (bitPrecision v)) 7 - 7) / 7 + 1) = 0 :=
    Nat.div_eq_of_lt (lt_pow_groups v)
  have hread := DigitGroups.read_write groupDigit_groupByte isGroupContinued_groupByte (by decide)
    (show v / 128 < 2 ^ 25 by omega)
    ((roundUpToMultipleOf (max 7 (bitPrecision v)) 7 - 7) / 7) 0 rest
  rw [hstart] at hread
  rw [decodeValue, decodeGroups_eq, encodeValue, encodeGroups_eq, hread, DigitGroups.length_write,
    Nat.zero_add]

theorem eq_drop_of_decodeValue {bytes rest : Bytes} {v valueLen : ℕ}
    (hdecode : decodeValue bytes = some (v, valueLen, rest)) :
    0 < valueLen ∧ valueLen ≤ bytes.length ∧ rest = bytes.drop valueLen := by
  rw [decodeValue, decodeGroups_eq] at hdecode
  simpa using DigitGroups.eq_drop_of_read hdecode

/-! ## Vectors of integers -/

theorem encodeValue_length_pos (v : ℕ) : 0 < (encodeValue v).length := by
  rw [encodeValue, encodeGroups_eq, DigitGroups.length_write]
  exact Nat.succ_pos _

variable {arcs : List ℤ}

/-- The integers behind the first two -/
theorem decodeValues_flatMap (harcs : ∀ arc ∈ arcs, 0 ≤ arc ∧ arc < 2 ^ 31) (rest : Bytes)
    {rounds : ℕ}
    (hrounds : (arcs.flatMap fun arc ↦ encodeValue (arc % 2 ^ 32).toNat).length ≤ rounds) :
    decodeValues rounds (arcs.flatMap fun arc ↦ encodeValue (arc % 2 ^ 32).toNat).length
        ((arcs.flatMap fun arc ↦ encodeValue (arc % 2 ^ 32).toNat) ++ rest) = some (arcs, rest) := by
  induction arcs generalizing rounds with
  | nil => cases rounds <;> rfl
  | cons arc arcs ih =>
    rw [List.forall_mem_cons] at harcs
    obtain ⟨⟨hnonneg, hlt⟩, hlater⟩ := harcs
    have hvalue : (arc % 2 ^ 32).toNat < 2 ^ 32 := by omega
    have hback : toInt32 (arc % 2 ^ 32).toNat = arc := by
      unfold toInt32
      split_ifs <;> omega
    have hpositive := encodeValue_length_pos (arc % 2 ^ 32).toNat
    simp only [List.flatMap_cons, List.length_append] at hrounds ⊢
    obtain ⟨length, hlength⟩ : ∃ length, (encodeValue (arc % 2 ^ 32).toNat).length +
        (arcs.flatMap fun arc ↦ encodeValue (arc % 2 ^ 32).toNat).length = length + 1 :=
      Nat.exists_eq_add_one_of_ne_zero (by omega)
    obtain ⟨rounds, rfl⟩ : ∃ fewer, rounds = fewer + 1 := ⟨rounds - 1, by omega⟩
    have hremaining : length + 1 - (encodeValue (arc % 2 ^ 32).toNat).length =
        (arcs.flatMap fun arc ↦ encodeValue (arc % 2 ^ 32).toNat).length := by omega
    rw [hlength, decodeValues, List.append_assoc, decodeValue_encodeValue hvalue]
    simp only [Option.bind_eq_bind, Option.bind_some, hremaining]
    rw [if_neg (by omega), ih hlater (by omega), Option.bind_some, hback]
    rfl

/-- A decoding takes the length it is given. -/
theorem eq_drop_of_decodeValues {rounds length : ℕ} {bytes rest : Bytes}
    (hdecode : decodeValues rounds length bytes = some (arcs, rest)) :
    length ≤ bytes.length ∧ rest = bytes.drop length := by
  induction rounds generalizing length bytes arcs with
  | zero =>
    cases length with
    | zero =>
      cases hdecode
      exact ⟨Nat.zero_le _, rfl⟩
    | succ length => cases hdecode
  | succ rounds ih =>
    cases length with
    | zero =>
      cases hdecode
      exact ⟨Nat.zero_le _, rfl⟩
    | succ length =>
      simp only [decodeValues, Option.bind_eq_bind, Option.bind_eq_some_iff] at hdecode
      obtain ⟨⟨v, valueLen, later⟩, hvalue, hdecode⟩ := hdecode
      obtain ⟨hpositive, hlength, rfl⟩ := eq_drop_of_decodeValue hvalue
      split_ifs at hdecode with hlong
      obtain ⟨⟨others, last⟩, hothers, hlast⟩ := Option.bind_eq_some_iff.mp hdecode
      cases hlast
      obtain ⟨hle, rfl⟩ := ih hothers
      rw [List.length_drop] at hle
      dsimp only at hle hlong ⊢
      refine ⟨by omega, ?_⟩
      rw [List.drop_drop]
      congr 1
      omega

/-! ## Decoding what was encoded -/

variable {lengths : DerLengths}

/-- The bytes of an identifier are decoded, to the same integers and with nothing left of them. -/
def RoundTrips (lengths : DerLengths) (oid : List ℤ) : Prop :=
  ∃ bytes, encode lengths oid = some bytes ∧
    ∀ rest, decode lengths (bytes ++ rest) = some (oid, rest)

/-- Each group has seven of the at most 32 bits. -/
theorem length_encodeValue_le {v : ℕ} (hv : v < 2 ^ 32) : (encodeValue v).length ≤ 5 := by
  have hbits : bitPrecision v ≤ 32 := by
    unfold bitPrecision
    split_ifs with hzero
    · omega
    · exact (Nat.log2_lt hzero).mpr hv
  rw [encodeValue, encodeGroups_eq, DigitGroups.length_write]
  unfold roundUpToMultipleOf
  omega

theorem length_flatMap_encodeValue_le (arcs : List ℤ) :
    (arcs.flatMap fun arc ↦ encodeValue (arc % 2 ^ 32).toNat).length ≤ 5 * arcs.length := by
  induction arcs with
  | nil => simp
  | cons arc arcs ih =>
    have hvalue := length_encodeValue_le (show (arc % 2 ^ 32).toNat < 2 ^ 32 by omega)
    rw [List.flatMap_cons, List.length_append, List.length_cons]
    omega

/-- The decoding of an encoded identifier gives its integers, but the first two come from one byte. -/
theorem decode_encode (hinverse : ∀ length rest,
      lengths.berLengthDecode (lengths.derLengthEncode length ++ rest) = some (length, rest))
    (first second : ℤ) (harcs : ∀ arc ∈ arcs, 0 ≤ arc ∧ arc < 2 ^ 31)
    (hsize : arcs.length < 2 ^ 61) :
    ∃ bytes, encode lengths (first :: second :: arcs) = some bytes ∧ ∀ rest,
      decode lengths (bytes ++ rest) =
        some (((first * 40 + second) % 256 / 40) :: ((first * 40 + second) % 256 % 40) :: arcs,
          rest) := by
  refine ⟨_, rfl, fun rest ↦ ?_⟩
  have hbody := length_flatMap_encodeValue_le arcs
  have hlength : (UInt64.ofNat ((UInt8.ofNat ((first * magicNumber + second) % 256).toNat ::
      arcs.flatMap fun arc ↦ encodeValue (arc % 2 ^ 32).toNat).length)).toNat =
      (arcs.flatMap fun arc ↦ encodeValue (arc % 2 ^ 32).toNat).length + 1 := by
    rw [List.length_cons, UInt64.toNat_ofNat']
    exact Nat.mod_eq_of_lt (by omega)
  have hbyte : (UInt8.ofNat ((first * 40 + second) % 256).toNat).toNat =
      ((first * 40 + second) % 256).toNat := by
    rw [UInt8.toNat_ofNat']
    exact Nat.mod_eq_of_lt (by omega)
  simp only [decode, List.cons_append, List.append_assoc, ne_eq, not_true_eq_false, if_false,
    hinverse, Option.bind_eq_bind, Option.bind_some, hlength]
  rw [if_neg (by omega), Nat.add_sub_cancel, decodeValues_flatMap harcs rest le_rfl]
  simp only [Option.bind_some, Option.pure_def, magicNumber, hbyte]
  congr 3
  · omega
  · congr 1
    omega

/-- Whatever is decoded takes the tag, the length, and as many bytes as the length says. -/
theorem eq_drop_of_decode {bytes rest : Bytes} {oid : List ℤ}
    (hdecode : decode lengths bytes = some (oid, rest)) :
    ∃ tag body length after, bytes = tag :: body ∧
      lengths.berLengthDecode body = some (length, after) ∧ length.toNat ≤ after.length ∧
        rest = after.drop length.toNat := by
  cases bytes with
  | nil => cases hdecode
  | cons tag body =>
    simp only [decode] at hdecode
    split_ifs at hdecode
    obtain ⟨⟨length, after⟩, hlength, hdecode⟩ := Option.bind_eq_some_iff.mp hdecode
    dsimp only at hdecode
    split_ifs at hdecode with hshort
    cases after with
    | nil => cases hdecode
    | cons first later =>
      obtain ⟨⟨arcs, left⟩, hvalues, hdecode⟩ := Option.bind_eq_some_iff.mp hdecode
      cases hdecode
      obtain ⟨hle, rfl⟩ := eq_drop_of_decodeValues hvalues
      refine ⟨tag, body, length, first :: later, rfl, hlength, ?_, ?_⟩
      · rw [List.length_cons]
        omega
      · rw [show length.toNat = length.toNat - 1 + 1 by omega, List.drop_succ_cons]
        rfl

theorem roundTrips_iff (hinverse : ∀ length rest,
      lengths.berLengthDecode (lengths.derLengthEncode length ++ rest) = some (length, rest)) :
    (∀ (first second : ℤ) (arcs : List ℤ), first = 0 ∨ first = 1 ∨ first = 2 →
      (first ≠ 2 → second < 40) →
      (∀ arc ∈ first :: second :: arcs, 0 ≤ arc ∧ arc < 2 ^ 31) →
      (first :: second :: arcs).length < 2 ^ 61 →
        (RoundTrips lengths (first :: second :: arcs) ↔ second < 40)) ∧
    ∀ bytes oid rest, decode lengths bytes = some (oid, rest) →
      ∃ tag body length after, bytes = tag :: body ∧
        lengths.berLengthDecode body = some (length, after) ∧ length.toNat ≤ after.length ∧
          rest = after.drop length.toNat := by
  refine ⟨?_, fun bytes oid rest hdecode ↦ eq_drop_of_decode hdecode⟩
  intro first second arcs hfirst hsecond hints hsize
  simp only [List.forall_mem_cons] at hints
  obtain ⟨-, ⟨hnonneg, -⟩, harcs⟩ := hints
  obtain ⟨bytes, hencode, hdecode⟩ := decode_encode hinverse first second harcs
    (lt_trans (by simp only [List.length_cons]; omega) hsize)
  constructor
  · rintro ⟨same, hsame, htrips⟩
    obtain rfl : bytes = same := Option.some.inj (hencode.symm.trans hsame)
    have hequal := Option.some.inj ((hdecode []).symm.trans (htrips []))
    have hsecondEqual : (first * 40 + second) % 256 % 40 = second := by
      injection hequal with hoid
      injection hoid with _ hlater
      injection hlater
    omega
  · intro hless
    refine ⟨bytes, hencode, fun rest ↦ ?_⟩
    rw [hdecode rest]
    congr 3
    · omega
    · congr 1
      omega

def sampleLengths : DerLengths where
  derLengthEncode length :=
    if length < 128 then [length.toUInt8] else 0x88 :: Bytes.ofNumber 8 length.toNat
  berLengthDecode
    | [] => none
    | first :: bytes =>
        if first < 0x80 then some (first.toUInt64, bytes)
        else if first = 0x88 ∧ 8 ≤ bytes.length then
          some (UInt64.ofNat (Bytes.toNumber (bytes.take 8)), bytes.drop 8)
        else none

theorem sampleLengths_inverse (length : UInt64) (rest : Bytes) :
    sampleLengths.berLengthDecode (sampleLengths.derLengthEncode length ++ rest) =
      some (length, rest) := by
  unfold sampleLengths
  dsimp only
  split_ifs with hshort
  · have hnumber : length.toNat < 128 := UInt64.lt_iff_toNat_lt.mp hshort
    have hsmall : length.toUInt8 < 0x80 := by
      rw [UInt8.lt_iff_toNat_lt, UInt64.toNat_toUInt8]
      exact lt_of_le_of_lt (Nat.mod_le _ _) hnumber
    have hback : length.toUInt8.toUInt64 = length := by
      rw [← UInt64.toNat_inj, UInt8.toNat_toUInt64, UInt64.toNat_toUInt8]
      omega
    rw [List.singleton_append]
    simp only [if_pos hsmall, hback]
  · have hlength : (Bytes.ofNumber 8 length.toNat).length = 8 := Bytes.length_ofNumber 8 _
    have hback : UInt64.ofNat (Bytes.toNumber (Bytes.ofNumber 8 length.toNat)) = length := by
      rw [Bytes.toNumber_ofNumber (by exact length.toNat_lt), UInt64.ofNat_toNat]
    rw [List.cons_append]
    simp only [List.take_left' hlength, List.drop_left' hlength, hback]
    rw [if_neg (by decide), if_pos ⟨trivial, by simp [hlength]⟩]

/-- The identifier of RSA goes through and back. -/
theorem roundTrips_iff_rsa :
    RoundTrips sampleLengths [1, 2, 840, 113549, 1, 1, 1] :=
  ((roundTrips_iff sampleLengths_inverse).1 1 2 [840, 113549, 1, 1, 1] (by decide) (by decide)
    (by decide) (by decide)).mpr (by decide)

/-- The identifier `2.999` is decoded as `1.15`. -/
theorem not_roundTrips_2_999 :
    (∃ bytes, encode sampleLengths [2, 999] = some bytes ∧
      decode sampleLengths bytes = some ([1, 15], [])) ∧
    ¬RoundTrips sampleLengths [2, 999] := by
  have hdecode : decode sampleLengths [6, 1, 55] = some ([1, 15], []) := by decide +kernel
  refine ⟨⟨[6, 1, 55], by decide +kernel, hdecode⟩, ?_⟩
  rintro ⟨bytes, hencode, htrips⟩
  obtain rfl : [6, 1, 55] = bytes := Option.some.inj ((by decide +kernel : some [6, 1, 55] =
    encode sampleLengths [2, 999]).trans hencode)
  have hsame := hdecode.symm.trans (htrips [])
  exact absurd hsame (by decide)

end Oid

end NdnCxx
