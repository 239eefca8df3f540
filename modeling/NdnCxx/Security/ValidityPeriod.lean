import NdnCxx.Encoding.Elements
import NdnCxx.Name.FromUri

/-!
# Validity periods

`ValidityPeriod::wireDecode` reads two ISO dates with a routine of another library, which throws one
kind of exception for a text that is no number and others for a date or a time that is not possible.
Only the first kind is caught and replaced. What the routine reads is a time of 64-bit nanoseconds, so
that a date beyond the year 2262 becomes another one.
-/

namespace NdnCxx

namespace Tlv

def notBefore : ℕ := 254

def notAfter : ℕ := 255

end Tlv

/-- What `from_iso_string` throws: `bad_lexical_cast`, which is a `std::bad_cast`, or an exception
that derives from `std::out_of_range`. -/
inductive ValidityPeriod.IsoError
  | badLexicalCast
  | outOfRange (what : String)
  deriving DecidableEq

/-- The two routines for ISO texts: `from_iso_string`, with the microseconds since 1970 that it reads,
and `to_iso_string`, for the seconds since 1970. -/
structure ValidityPeriod.IsoTimes where
  fromIsoString : Bytes → Except ValidityPeriod.IsoError ℤ
  toIsoString : ℤ → Bytes

/-- `ValidityPeriod`; the times are in seconds. -/
structure ValidityPeriod where
  notBefore : ℤ
  notAfter : ℤ
  wire : Option Block
  deriving DecidableEq

namespace ValidityPeriod

/-- How `wireDecode` ends when it does not return: an exception of the TLV decoder, one of its own
class `ValidityPeriod::Error`, or one of the library for dates. -/
inductive Thrown
  | tlv (error : Error)
  | validityPeriod (what : String)
  | iso (error : IsoError)
  deriving DecidableEq

/-- Whether the exception derives from `tlv::Error`. -/
def Thrown.isTlvError : Thrown → Bool
  | .tlv error => error.isTlvError
  | .validityPeriod _ => true
  | .iso _ => false

def isoDatetimeSize : ℕ := 15

/-- The time that `time::fromIsoString` makes of what was read, in the 64-bit nanoseconds of the
system clock, cut off to whole seconds -/
def clockSeconds (microseconds : ℤ) : ℤ :=
  (Int.bmod (microseconds.tdiv 1000000 * 10 ^ 9 + microseconds.tmod 1000000 * 1000) (2 ^ 64)).tdiv
    (10 ^ 9)

/-- The checks at the start of `wireDecode`, and the values of the two fields. -/
def fieldsOf (wire : Block) : Except Thrown (Bytes × Bytes) :=
  match Block.parse wire.value with
  | .error error => .error (.tlv error)
  | .ok elements =>
      if wire.type ≠ Tlv.validityPeriod then
        .error (.validityPeriod "Unexpected TLV type when decoding ValidityPeriod")
      else
        match elements with
        | [notBefore, notAfter] =>
            if notBefore.type ≠ Tlv.notBefore ∨ notBefore.value.length ≠ isoDatetimeSize ∨
                notAfter.type ≠ Tlv.notAfter ∨ notAfter.value.length ≠ isoDatetimeSize then
              .error (.validityPeriod "Invalid NotBefore or NotAfter field")
            else .ok (notBefore.value, notAfter.value)
        | _ => .error (.validityPeriod "Does not have two sub-TLVs")

variable (times : IsoTimes)

/-- The two conversions of `wireDecode` -/
def readTimes (notBefore notAfter : Bytes) : Except IsoError (ℤ × ℤ) := do
  let first ← times.fromIsoString notBefore
  let second ← times.fromIsoString notAfter
  return (clockSeconds first, clockSeconds second)

/-- `wireDecode`; the handler is for `std::bad_cast`. -/
def wireDecode (wire : Block) : Except Thrown ValidityPeriod :=
  match fieldsOf wire with
  | .error thrown => .error thrown
  | .ok (notBefore, notAfter) =>
      match readTimes times notBefore notAfter with
      | .error .badLexicalCast =>
          .error (.validityPeriod "Invalid date format in NOT-BEFORE or NOT-AFTER field")
      | .error error => .error (.iso error)
      | .ok (first, second) => .ok ⟨first, second, some wire⟩

/-- The elements that `wireEncode(EncodingImpl<TAG>&)` writes -/
def elements (period : ValidityPeriod) : List Block :=
  [Block.ofValue Tlv.notBefore (times.toIsoString period.notBefore),
    Block.ofValue Tlv.notAfter (times.toIsoString period.notAfter)]

def wireEncode (period : ValidityPeriod) : Block :=
  period.wire.getD (Block.ofElements Tlv.validityPeriod (period.elements times))

/-- Decoding either gives the dates that the two fields write, so that they are encoded as the same
bytes, or throws an exception that derives from `tlv::Error`. -/
def DecodesDates (wire : Block) : Prop :=
  match wireDecode times wire with
  | .error thrown => thrown.isTlvError = true
  | .ok period =>
      period.wireEncode times = wire ∧
        ∃ fields, fieldsOf wire = .ok fields ∧
          (period.elements times).map Block.value = [fields.1, fields.2]

def IsNotNumeric (text : Bytes) : Prop := times.fromIsoString text = .error .badLexicalCast

/-- The text is the way in which the time that is read from it is written. -/
def ReadsBack (text : Bytes) : Prop :=
  ∃ microseconds, times.fromIsoString text = .ok microseconds ∧
    times.toIsoString (clockSeconds microseconds) = text

/-- Exceptions before the dates are read derive from `tlv::Error`. -/
theorem isTlvError_of_fieldsOf {wire : Block} {thrown : Thrown}
    (hfields : fieldsOf wire = .error thrown) : thrown.isTlvError = true := by
  unfold fieldsOf at hfields
  cases hparse : Block.parse wire.value with
  | error error =>
    rw [hparse] at hfields
    obtain rfl : Thrown.tlv error = thrown := Except.error.inj hfields
    exact Block.parse_onlyTlvErrors wire.value error hparse
  | ok elements =>
    rw [hparse] at hfields
    dsimp only at hfields
    split_ifs at hfields
    · cases hfields
      rfl
    · split at hfields
      · split_ifs at hfields
        cases hfields
        rfl
      · cases hfields
        rfl

variable {times} {notBefore notAfter : Bytes}

theorem readTimes_eq_ok_iff {period : ℤ × ℤ} : readTimes times notBefore notAfter = .ok period ↔
    ∃ first second, times.fromIsoString notBefore = .ok first ∧
      times.fromIsoString notAfter = .ok second ∧
        (clockSeconds first, clockSeconds second) = period := by
  rw [readTimes, bind_eq_ok_iff]
  constructor
  · rintro ⟨first, hfirst, hrest⟩
    obtain ⟨second, hsecond, hperiod⟩ := bind_eq_ok_iff.mp hrest
    exact ⟨first, second, hfirst, hsecond, Except.ok.inj hperiod⟩
  · rintro ⟨first, second, hfirst, hsecond, hperiod⟩
    exact ⟨first, hfirst, bind_eq_ok_iff.mpr ⟨second, hsecond, congrArg Except.ok hperiod⟩⟩

/-- The second date is read only if the first one could be. -/
theorem readTimes_eq_error_iff {error : IsoError} :
    readTimes times notBefore notAfter = .error error ↔
      times.fromIsoString notBefore = .error error ∨
        (∃ first, times.fromIsoString notBefore = .ok first) ∧
          times.fromIsoString notAfter = .error error := by
  rw [readTimes]
  cases times.fromIsoString notBefore with
  | error other => simp [bind, Except.bind]
  | ok first => cases times.fromIsoString notAfter <;> simp [bind, Except.bind, pure, Except.pure]

/-- A date is rejected as no number before another exception is thrown, or both texts are dates as they
are written for the clock. -/
def RejectsOrReadsBack (times : IsoTimes) (notBefore notAfter : Bytes) : Prop :=
  IsNotNumeric times notBefore ∨
    (∃ first, times.fromIsoString notBefore = .ok first) ∧ IsNotNumeric times notAfter ∨
      ReadsBack times notBefore ∧ ReadsBack times notAfter

theorem decodesDates_iff_of_fields {wire : Block}
    (hfields : fieldsOf wire = .ok (notBefore, notAfter)) :
    DecodesDates times wire ↔ RejectsOrReadsBack times notBefore notAfter := by
  rw [RejectsOrReadsBack, ← or_assoc]
  cases hread : readTimes times notBefore notAfter with
  | error error =>
    have hnot : ¬ (ReadsBack times notBefore ∧ ReadsBack times notAfter) := by
      rintro ⟨⟨first, hfirst, -⟩, second, hsecond, -⟩
      rw [readTimes_eq_ok_iff.mpr ⟨first, second, hfirst, hsecond, rfl⟩] at hread
      cases hread
    rw [or_iff_left hnot]
    cases error with
    | badLexicalCast =>
      have hdecode : wireDecode times wire = .error (.validityPeriod
          "Invalid date format in NOT-BEFORE or NOT-AFTER field") := by
        simp only [wireDecode, hfields, hread]
      rw [DecodesDates, hdecode]
      exact iff_of_true rfl (readTimes_eq_error_iff.mp hread)
    | outOfRange what =>
      have hdecode : wireDecode times wire = .error (.iso (.outOfRange what)) := by
        simp only [wireDecode, hfields, hread]
      rw [DecodesDates, hdecode]
      refine iff_of_false (by simp [Thrown.isTlvError]) fun hcaught ↦ ?_
      rw [readTimes_eq_error_iff.mpr hcaught] at hread
      cases hread
  | ok period =>
    obtain ⟨first, second, hfirst, hsecond, rfl⟩ := readTimes_eq_ok_iff.mp hread
    have hnumeric : ¬ (IsNotNumeric times notBefore ∨
        (∃ first, times.fromIsoString notBefore = .ok first) ∧ IsNotNumeric times notAfter) := by
      simp [IsNotNumeric, hfirst, hsecond]
    have hdecode : wireDecode times wire =
        .ok ⟨clockSeconds first, clockSeconds second, some wire⟩ := by
      simp only [wireDecode, hfields, hread]
    rw [or_iff_right hnumeric, DecodesDates, hdecode]
    constructor
    · rintro ⟨-, fields, hsame, hvalues⟩
      obtain rfl : (notBefore, notAfter) = fields := Except.ok.inj (hfields.symm.trans hsame)
      obtain ⟨hbefore, hafter⟩ := List.cons.inj hvalues
      exact ⟨⟨first, hfirst, hbefore⟩, second, hsecond, (List.cons.inj hafter).1⟩
    · rintro ⟨⟨first', hfirst', hbefore⟩, second', hsecond', hafter⟩
      obtain rfl := Except.ok.inj (hfirst.symm.trans hfirst')
      obtain rfl := Except.ok.inj (hsecond.symm.trans hsecond')
      refine ⟨rfl, (notBefore, notAfter), hfields, ?_⟩
      simp only [elements, List.map_cons, List.map_nil, Block.ofValue]
      rw [hbefore, hafter]

/-- Whatever the routines for dates do: decoding goes right exactly when the block does not have two
fields of the right types and sizes, or their texts are rejected or read back. -/
theorem decodesDates_iff (times : IsoTimes) (wire : Block) :
    DecodesDates times wire ↔
      ∀ fields, fieldsOf wire = .ok fields → RejectsOrReadsBack times fields.1 fields.2 := by
  cases hfields : fieldsOf wire with
  | error thrown => simp [DecodesDates, wireDecode, hfields, isTlvError_of_fieldsOf hfields]
  | ok fields =>
    rw [decodesDates_iff_of_fields hfields]
    simp

/-! ## An impossible date -/

/-- The routines on three texts: a date, one in a thirteenth month, and one that the clock cannot hold.
Other texts are no numbers. -/
def threeTexts : IsoTimes where
  fromIsoString text :=
    if text = bytesOf "20150814T223739".toList then .ok 1439591859000000
    else if text = bytesOf "20151301T000000".toList then
      .error (.outOfRange "Month number is out of range 1..12")
    else if text = bytesOf "99991231T235959".toList then .ok 253402300799000000
    else .error .badLexicalCast
  toIsoString seconds :=
    bytesOf (if seconds = 1439591859 then "20150814T223739" else "18160330T055608").toList

def periodBlock (notBefore notAfter : String) : Block :=
  Block.ofElements Tlv.validityPeriod
    [Block.ofValue Tlv.notBefore (bytesOf notBefore.toList),
      Block.ofValue Tlv.notAfter (bytesOf notAfter.toList)]

/-- The exception for a month that does not exist escapes. -/
theorem not_decodesDates_month :
    ¬ DecodesDates threeTexts (periodBlock "20151301T000000" "20150814T223739") := by
  have hdecode : wireDecode threeTexts (periodBlock "20151301T000000" "20150814T223739") =
      .error (.iso (.outOfRange "Month number is out of range 1..12")) := by decide +kernel
  rw [DecodesDates, hdecode]
  exact Bool.false_ne_true

/-- A date in the year 9999 is taken for one in 1816. -/
example : ¬ ReadsBack threeTexts (bytesOf "99991231T235959".toList) := by
  rintro ⟨microseconds, hread, hwritten⟩
  obtain rfl : 253402300799000000 = microseconds := Except.ok.inj hread
  exact absurd hwritten (by decide +kernel)

end ValidityPeriod

end NdnCxx
